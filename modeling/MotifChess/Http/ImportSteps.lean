/- GID: MotifChess/Http/ImportSteps
   generality: implementation
   digest: Every section of an import request or a worker keeps the agreement of the server. -/

import MotifChess.Http.ImportInvariant

set_option autoImplicit false
set_option relaxedAutoImplicit false

namespace MotifChess.Http.Imports

section Steps

variable {s t : Server} {r : ℕ}

private theorem setPhase_self (s : Server) (r : ℕ) (p : Phase) : (s.setPhase r p).phase r = p := if_pos rfl

private theorem setPhase_of_ne (s : Server) {r q : ℕ} (p : Phase) (hne : q ≠ r) :
    (s.setPhase r p).phase q = s.phase q := if_neg hne

private theorem setPhase_registered {p : Phase} (hold : s.phase r ≠ .registered) (hnew : p ≠ .registered)
    (q : ℕ) : (s.setPhase r p).phase q = .registered ↔ s.phase q = .registered := by
  by_cases hq : q = r
  · subst hq
    rw [setPhase_self]
    exact ⟨fun h => absurd h hnew, fun h => absurd h hold⟩
  · rw [setPhase_of_ne s p hq]

private theorem Consistent.fresh (h : Consistent s) : s.phase s.requests = .absent :=
  h.absent _ (Nat.le_refl _)

private theorem Consistent.unused (h : Consistent s) {x : ImportSession} (hx : x ∈ s.sessions) :
    x.request ≠ s.requests := Nat.ne_of_lt (h.recent x hx)

theorem Registry.congr (h : Registry s) (hworkers : t.importWorkers = s.importWorkers)
    (hcompleted : t.completedSessionIds = s.completedSessionIds) (hjoins : t.joins = s.joins)
    (hphase : ∀ q, t.phase q = .registered ↔ s.phase q = .registered)
    (hsessions : ∀ x ∈ s.sessions, s.phase x.request = .registered → ∃ y ∈ t.sessions,
      y.importId = x.importId ∧ y.request = x.request ∧ (x.done = true → y.done = true)) :
    Registry t := by
  constructor
  · intro id hid
    rw [hcompleted] at hid
    obtain ⟨x, hx, hxid, hregistered, hdone, hjoined⟩ := h.completed id hid
    obtain ⟨y, hy, hyid, hrequest, hkept⟩ := hsessions x hx hregistered
    refine ⟨y, hy, hyid.trans hxid, ?_, hkept hdone, ?_⟩
    · rw [hrequest, hphase]
      exact hregistered
    · rw [hjoins, hrequest]
      exact hjoined
  · intro w hw
    rw [hworkers] at hw
    obtain ⟨hjoined, hregistered, x, hx, hxid, hrequest⟩ := h.workers w hw
    obtain ⟨y, hy, hyid, hyrequest, _⟩ := hsessions x hx (by rw [hrequest]; exact hregistered)
    rw [hjoins, hphase]
    exact ⟨hjoined, hregistered, y, hy, hyid.trans hxid, hyrequest.trans hrequest⟩
  · rw [hcompleted, hworkers]
    exact h.tracked
  · rw [hworkers]
    exact h.threads
  · intro q hq
    rw [hjoins, hworkers]
    exact h.registered q ((hphase q).mp hq)
  · intro q hq
    rw [hjoins]
    exact h.unjoined q fun hregistered => hq ((hphase q).mpr hregistered)

private theorem Consistent.absent_succ (h : Consistent s) (p : Phase) (q : ℕ)
    (hq : s.requests + 1 ≤ q) : (s.setPhase s.requests p).phase q = .absent := by
  rw [setPhase_of_ne s p (by omega)]
  exact h.absent q (by omega)

private theorem Consistent.started_setPhase (h : Consistent s) {p : Phase}
    (hold : ∀ id, s.phase r ≠ .launched id) (hregistered : s.phase r ≠ .registered)
    (hnew : ∀ id, p ≠ .launched id) (hnew' : p ≠ .registered) (q : ℕ) :
    q ∈ s.started ↔ (∃ id, (s.setPhase r p).phase q = .launched id) ∨
      (s.setPhase r p).phase q = .registered := by
  rw [h.started, setPhase_registered hregistered hnew']
  by_cases hq : q = r
  · subst hq
    simp [setPhase_self, hold, hnew]
  · rw [setPhase_of_ne s _ hq]

private theorem Consistent.refuse (h : Consistent s) :
    Consistent { s.setPhase s.requests .refused with requests := s.requests + 1 } := by
  have hold : s.phase s.requests ≠ .registered := by rw [h.fresh]; exact Phase.noConfusion
  constructor
  · exact h.toRegistry.congr rfl rfl rfl (setPhase_registered hold Phase.noConfusion)
      fun x hx _ => ⟨x, hx, rfl, rfl, id⟩
  · exact h.ids
  · exact h.ages
  · intro x hx
    exact Nat.lt_succ_of_lt (h.recent x hx)
  · exact h.settled
  · intro x hx
    have hphase := h.phases x hx
    rw [← setPhase_of_ne s .refused (h.unused hx)] at hphase
    exact hphase
  · intro q id hphase
    have hq : q ≠ s.requests := by
      rintro rfl
      rw [setPhase_self] at hphase
      rcases hphase with hphase | hphase <;> cases hphase
    rw [setPhase_of_ne s _ hq] at hphase
    exact h.held q id hphase
  · exact h.started_setPhase (fun id => by rw [h.fresh]; exact Phase.noConfusion) hold
      (fun id => Phase.noConfusion) Phase.noConfusion
  · exact h.absent_succ _

theorem Consistent.accept (h : Consistent s) (hall : ∀ x ∈ s.sessions, x.done = true) {importId : ℕ}
    (hid : importId ∉ s.sessions.map ImportSession.importId) :
    Consistent { s.setPhase s.requests (.reserved importId) with
      sessions := s.sessions ++ [⟨importId, s.requests, false⟩]
      requests := s.requests + 1 } := by
  have hold : s.phase s.requests ≠ .registered := by rw [h.fresh]; exact Phase.noConfusion
  constructor
  · exact h.toRegistry.congr rfl rfl rfl (setPhase_registered hold Phase.noConfusion)
      fun x hx _ => ⟨x, List.mem_append_left _ hx, rfl, rfl, id⟩
  · show (List.map _ (s.sessions ++ [_])).Nodup
    rw [List.map_append, List.nodup_append]
    refine ⟨h.ids, List.nodup_singleton _, ?_⟩
    intro a ha b hb heq
    rw [List.map_singleton, List.mem_singleton] at hb
    rw [heq, hb] at ha
    exact hid ha
  · show List.Pairwise _ (s.sessions ++ [_])
    rw [List.pairwise_append]
    refine ⟨h.ages, List.pairwise_singleton _ _, ?_⟩
    intro x hx y hy
    rw [List.mem_singleton.mp hy]
    exact h.recent x hx
  · intro x hx
    rcases List.mem_append.mp hx with hx | hx
    · exact Nat.lt_succ_of_lt (h.recent x hx)
    · rw [List.mem_singleton.mp hx]
      exact Nat.lt_succ_self _
  · intro x hx y hy hlt
    rcases List.mem_append.mp hx with hx | hx
    · exact hall x hx
    · rw [List.mem_singleton.mp hx] at hlt
      rcases List.mem_append.mp hy with hy | hy
      · exact absurd hlt (Nat.lt_asymm (h.recent y hy))
      · rw [List.mem_singleton.mp hy] at hlt
        exact absurd hlt (Nat.lt_irrefl _)
  · intro x hx
    rcases List.mem_append.mp hx with hx | hx
    · have hphase := h.phases x hx
      rw [← setPhase_of_ne s (.reserved importId) (h.unused hx)] at hphase
      exact hphase
    · rw [List.mem_singleton.mp hx]
      exact Or.inl ⟨setPhase_self s _ _, rfl⟩
  · intro q id hphase
    by_cases hq : q = s.requests
    · subst hq
      rw [setPhase_self] at hphase
      rcases hphase with hphase | hphase
      · cases hphase
        exact ⟨_, List.mem_append_right _ (List.mem_singleton_self _), rfl, rfl⟩
      · cases hphase
    · rw [setPhase_of_ne s _ hq] at hphase
      obtain ⟨x, hx, hrest⟩ := h.held q id hphase
      exact ⟨x, List.mem_append_left _ hx, hrest⟩
  · exact h.started_setPhase (fun id => by rw [h.fresh]; exact Phase.noConfusion) hold
      (fun id => Phase.noConfusion) Phase.noConfusion
  · exact h.absent_succ _

theorem Consistent.reserve (h : Consistent s) {importId : ℕ} (hstep : s.reserve importId = some t) :
    Consistent t := by
  rw [Server.reserve] at hstep
  split at hstep
  · obtain rfl := Option.some.inj hstep
    exact h.refuse
  · next hidle =>
    split at hstep
    · cases hstep
    · next hid =>
      obtain rfl := Option.some.inj hstep
      apply h.accept _ hid
      intro x hx
      by_contra hactive
      exact hidle (List.any_eq_true.mpr ⟨x, hx, by simp [hactive]⟩)

theorem Consistent.requested (h : Consistent s) (hphase : s.phase r ≠ .absent) :
    r < s.requests := by
  by_contra hle
  exact hphase (h.absent r (Nat.le_of_not_lt hle))

private theorem Consistent.absent_setPhase (h : Consistent s) (hphase : s.phase r ≠ .absent)
    (p : Phase) (q : ℕ) (hq : s.requests ≤ q) : (s.setPhase r p).phase q = .absent := by
  have hlt := h.requested hphase
  rw [setPhase_of_ne s p (by omega)]
  exact h.absent q hq

theorem Consistent.abandon (h : Consistent s) (hstep : s.abandon r = some t) : Consistent t := by
  rw [Server.abandon] at hstep
  split at hstep
  · next importId hreserved =>
    obtain rfl := Option.some.inj hstep
    have hold : s.phase r ≠ .registered := by rw [hreserved]; exact Phase.noConfusion
    obtain ⟨own, hown, hrequest, hownId⟩ := h.held r importId (Or.inl hreserved)
    have hother : ∀ x ∈ s.sessions, x.importId ≠ importId → x.request ≠ r := by
      intro x hx hne heq
      exact hne ((h.request_eq hx hown (heq.trans hrequest.symm)) ▸ hownId)
    have hmem : ∀ x ∈ s.sessions.filter (fun x => decide (x.importId ≠ importId)),
        x ∈ s.sessions ∧ x.request ≠ r := by
      intro x hx
      obtain ⟨hx, hne⟩ := List.mem_filter.mp hx
      exact ⟨hx, hother x hx (of_decide_eq_true hne)⟩
    have hkept : ∀ x ∈ s.sessions, x.request ≠ r →
        x ∈ s.sessions.filter (fun x => decide (x.importId ≠ importId)) := by
      intro x hx hne
      refine List.mem_filter.mpr ⟨hx, decide_eq_true ?_⟩
      intro heq
      exact hne (h.session_eq hx hown (heq.trans hownId.symm) ▸ hrequest)
    constructor
    · refine h.toRegistry.congr rfl rfl rfl (setPhase_registered hold Phase.noConfusion) ?_
      intro x hx hregistered
      refine ⟨x, hkept x hx ?_, rfl, rfl, id⟩
      intro heq
      exact hold (heq ▸ hregistered)
    · exact map_filter_nodup h.ids _
    · exact h.ages.filter _
    · exact fun x hx => h.recent x (hmem x hx).1
    · exact fun x hx y hy => h.settled x (hmem x hx).1 y (hmem y hy).1
    · intro x hx
      have hphase := h.phases x (hmem x hx).1
      rw [← setPhase_of_ne s .failed (hmem x hx).2] at hphase
      exact hphase
    · intro q id hphase
      have hq : q ≠ r := by
        rintro rfl
        rw [setPhase_self] at hphase
        rcases hphase with hphase | hphase <;> cases hphase
      rw [setPhase_of_ne s _ hq] at hphase
      obtain ⟨x, hx, hxrequest, hxid⟩ := h.held q id hphase
      exact ⟨x, hkept x hx (by rw [hxrequest]; exact hq), hxrequest, hxid⟩
    · exact h.started_setPhase (fun id => by rw [hreserved]; exact Phase.noConfusion) hold
        (fun id => Phase.noConfusion) Phase.noConfusion
    · exact h.absent_setPhase (by rw [hreserved]; exact Phase.noConfusion) _
  · cases hstep

theorem Consistent.startWorker (h : Consistent s) (hstep : s.startWorker r = some t) :
    Consistent t := by
  rw [Server.startWorker] at hstep
  split at hstep
  · next importId hreserved =>
    obtain rfl := Option.some.inj hstep
    have hold : s.phase r ≠ .registered := by rw [hreserved]; exact Phase.noConfusion
    obtain ⟨own, hown, hrequest, hownId⟩ := h.held r importId (Or.inl hreserved)
    constructor
    · exact h.toRegistry.congr rfl rfl rfl (setPhase_registered hold Phase.noConfusion)
        fun x hx _ => ⟨x, hx, rfl, rfl, id⟩
    · exact h.ids
    · exact h.ages
    · exact h.recent
    · exact h.settled
    · intro x hx
      by_cases hx' : x.request = r
      · obtain rfl := h.request_eq hx hown (hx'.trans hrequest.symm)
        refine Or.inr (Or.inl ?_)
        show (s.setPhase r _).phase _ = _
        rw [hx', setPhase_self, hownId]
      · have hphase := h.phases x hx
        rw [← setPhase_of_ne s (.launched importId) hx'] at hphase
        exact hphase
    · intro q id hphase
      by_cases hq : q = r
      · subst hq
        rw [setPhase_self] at hphase
        rcases hphase with hphase | hphase
        · cases hphase
        · cases hphase
          exact ⟨own, hown, hrequest, hownId⟩
      · rw [setPhase_of_ne s _ hq] at hphase
        exact h.held q id hphase
    · intro q
      show q ∈ s.started ++ [r] ↔ _
      rw [List.mem_append, List.mem_singleton, h.started]
      by_cases hq : q = r
      · subst hq
        simp [setPhase_self]
      · rw [setPhase_of_ne s _ hq]
        simp [hq]
    · exact h.absent_setPhase (by rw [hreserved]; exact Phase.noConfusion) _
  · cases hstep

private theorem Tracked.mono {x y : ImportSession} (h : s.Tracked x)
    (hid : y.importId = x.importId) (hrequest : y.request = x.request)
    (hdone : x.done = true → y.done = true) (hcompleted : t.completedSessionIds = s.completedSessionIds)
    (hworkers : s.importWorkers ⊆ t.importWorkers) (hjoins : t.joins = s.joins)
    (hstopping : s.stopping = true → t.stopping = true) : t.Tracked y := by
  unfold Server.Tracked
  rw [hid, hrequest, hcompleted, hjoins]
  rcases h with hknown | hworker | hstop
  · exact Or.inl ⟨hknown.1, hknown.2.1, hdone hknown.2.2⟩
  · exact Or.inr (Or.inl ⟨hworkers hworker.1, hworker.2⟩)
  · exact Or.inr (Or.inr ⟨hstopping hstop.1, hstop.2⟩)

theorem Consistent.not_mem_of_phase (h : Consistent s) {x : ImportSession} (hx : x ∈ s.sessions)
    (hphase : s.phase x.request ≠ .registered) :
    x.importId ∉ s.completedSessionIds ++ s.importWorkers.map Prod.fst := by
  intro hmem
  rcases List.mem_append.mp hmem with hknown | hworker
  · obtain ⟨y, hy, hid, hregistered, _⟩ := h.completed _ hknown
    rw [h.session_eq hy hx hid] at hregistered
    exact hphase hregistered
  · obtain ⟨w, hw, hwid⟩ := List.mem_map.mp hworker
    obtain ⟨_, hregistered, y, hy, hid, hrequest⟩ := h.workers w hw
    rw [← hrequest, h.session_eq hy hx (hid.trans hwid)] at hregistered
    exact hphase hregistered

theorem Consistent.registerWorker (h : Consistent s) (hstep : s.registerWorker r = some t) :
    Consistent t := by
  rw [Server.registerWorker] at hstep
  split at hstep
  · next importId hlaunched =>
    obtain rfl := Option.some.inj hstep
    have hold : s.phase r ≠ .registered := by rw [hlaunched]; exact Phase.noConfusion
    obtain ⟨own, hown, hrequest, hownId⟩ := h.held r importId (Or.inr hlaunched)
    have hfree : importId ∉ s.completedSessionIds ++ s.importWorkers.map Prod.fst := by
      have hnot := h.not_mem_of_phase hown (by rw [hrequest]; exact hold)
      rwa [hownId] at hnot
    have hlater : ∀ q, s.phase q = .registered →
        (s.setPhase r .registered).phase q = .registered := by
      intro q hq
      by_cases hqr : q = r
      · rw [hqr, setPhase_self]
      · rw [setPhase_of_ne s _ hqr]
        exact hq
    constructor
    · constructor
      · intro id hid
        obtain ⟨x, hx, hxid, hphase, hrest⟩ := h.completed id hid
        exact ⟨x, hx, hxid, hlater _ hphase, hrest⟩
      · intro w hw
        rcases List.mem_append.mp hw with hw | hw
        · obtain ⟨hjoins, hphase, hsession⟩ := h.workers w hw
          exact ⟨hjoins, hlater _ hphase, hsession⟩
        · rw [List.mem_singleton.mp hw]
          exact ⟨h.unjoined r hold, setPhase_self s r _, own, hown, hownId, hrequest⟩
      · show (s.completedSessionIds ++ (s.importWorkers ++ [(importId, r)]).map Prod.fst).Nodup
        rw [List.map_append, ← List.append_assoc, List.nodup_append]
        refine ⟨h.tracked, List.nodup_singleton _, ?_⟩
        intro a ha b hb heq
        rw [List.map_singleton, List.mem_singleton] at hb
        rw [heq, hb] at ha
        exact hfree ha
      · show ((s.importWorkers ++ [(importId, r)]).map Prod.snd).Nodup
        rw [List.map_append, List.nodup_append]
        refine ⟨h.threads, List.nodup_singleton _, ?_⟩
        intro a ha b hb heq
        rw [List.map_singleton, List.mem_singleton] at hb
        rw [heq, hb] at ha
        obtain ⟨w, hw, hwr⟩ := List.mem_map.mp ha
        have hphase := (h.workers w hw).2.1
        rw [hwr] at hphase
        exact hold hphase
      · intro q hq
        by_cases hqr : q = r
        · subst hqr
          exact Or.inr ⟨importId, List.mem_append_right _ (List.mem_singleton_self _)⟩
        · rw [setPhase_of_ne s _ hqr] at hq
          rcases h.registered q hq with hjoined | hworker
          · exact Or.inl hjoined
          · obtain ⟨id, hworker⟩ := hworker
            exact Or.inr ⟨id, List.mem_append_left _ hworker⟩
      · intro q hq
        exact h.unjoined q fun hregistered => hq (hlater q hregistered)
    · exact h.ids
    · exact h.ages
    · exact h.recent
    · exact h.settled
    · intro x hx
      by_cases hx' : x.request = r
      · obtain rfl := h.request_eq hx hown (hx'.trans hrequest.symm)
        refine Or.inr (Or.inr ⟨?_, Or.inr (Or.inl ⟨?_, ?_⟩)⟩)
        · rw [hx', setPhase_self]
        · rw [hx', hownId]
          exact List.mem_append_right _ (List.mem_singleton_self _)
        · rw [hx']
          exact h.unjoined r hold
      · have hphase := h.phases x hx
        rw [← setPhase_of_ne s .registered hx'] at hphase
        rcases hphase with hreserved | hlaunched' | hregistered
        · exact Or.inl hreserved
        · exact Or.inr (Or.inl hlaunched')
        · exact Or.inr (Or.inr ⟨hregistered.1, Tracked.mono hregistered.2 rfl rfl id rfl
            (List.subset_append_left _ _) rfl id⟩)
    · intro q id hphase
      have hq : q ≠ r := by
        rintro rfl
        rw [setPhase_self] at hphase
        rcases hphase with hphase | hphase <;> cases hphase
      rw [setPhase_of_ne s _ hq] at hphase
      exact h.held q id hphase
    · intro q
      show q ∈ s.started ↔ _
      rw [h.started]
      by_cases hq : q = r
      · subst hq
        simp [setPhase_self, hlaunched]
      · rw [setPhase_of_ne s _ hq]
    · exact h.absent_setPhase (by rw [hlaunched]; exact Phase.noConfusion) _
  · cases hstep

/-- The session after the worker of request `r` has marked it. -/
def mark (r : ℕ) (x : ImportSession) : ImportSession :=
  if x.request = r then { x with done := true } else x

theorem mark_importId (r : ℕ) (x : ImportSession) : (mark r x).importId = x.importId := by
  rw [mark]
  split <;> rfl

private theorem mark_request (r : ℕ) (x : ImportSession) : (mark r x).request = x.request := by
  rw [mark]
  split <;> rfl

private theorem mark_done {r : ℕ} {x : ImportSession} (h : x.done = true) :
    (mark r x).done = true := by
  rw [mark]
  split
  · rfl
  · exact h

theorem Consistent.finish (h : Consistent s) (hstep : s.finish r = some t) : Consistent t := by
  rw [Server.finish] at hstep
  split at hstep
  · next hguard =>
    obtain rfl := Option.some.inj hstep
    have hstarted := (h.started r).mp hguard.1
    have hmarked : ∀ x ∈ s.sessions.map (mark r), ∃ y ∈ s.sessions, x = mark r y := by
      intro x hx
      obtain ⟨y, hy, rfl⟩ := List.mem_map.mp hx
      exact ⟨y, hy, rfl⟩
    constructor
    · refine h.toRegistry.congr rfl rfl rfl (fun _ => Iff.rfl) ?_
      intro x hx _
      exact ⟨mark r x, List.mem_map_of_mem hx, mark_importId r x, mark_request r x, mark_done⟩
    · show ((s.sessions.map (mark r)).map ImportSession.importId).Nodup
      rw [List.map_map]
      exact (List.map_congr_left fun x _ => mark_importId r x) ▸ h.ids
    · show (s.sessions.map (mark r)).Pairwise _
      rw [List.pairwise_map]
      refine h.ages.imp ?_
      intro x y hlt
      rw [mark_request, mark_request]
      exact hlt
    · intro x hx
      obtain ⟨y, hy, rfl⟩ := hmarked x hx
      rw [mark_request]
      exact h.recent y hy
    · intro x hx y hy hlt
      obtain ⟨x', hx', rfl⟩ := hmarked x hx
      obtain ⟨y', hy', rfl⟩ := hmarked y hy
      rw [mark_request, mark_request] at hlt
      exact mark_done (h.settled x' hx' y' hy' hlt)
    · intro x hx
      obtain ⟨y, hy, rfl⟩ := hmarked x hx
      rw [mark_request, mark_importId]
      rcases h.phases y hy with hreserved | hlaunched | hregistered
      · have hne : y.request ≠ r := by
          intro heq
          rw [← heq, hreserved.1] at hstarted
          rcases hstarted with ⟨id, hid⟩ | hregistered
          · cases hid
          · cases hregistered
        have hsame : mark r y = y := if_neg hne
        refine Or.inl ⟨hreserved.1, ?_⟩
        rw [hsame]
        exact hreserved.2
      · exact Or.inr (Or.inl hlaunched)
      · exact Or.inr (Or.inr ⟨hregistered.1, Tracked.mono hregistered.2 (mark_importId r y)
          (mark_request r y) mark_done rfl (List.Subset.refl _) rfl id⟩)
    · intro q id hphase
      obtain ⟨x, hx, hxrequest, hxid⟩ := h.held q id hphase
      exact ⟨mark r x, List.mem_map_of_mem hx, (mark_request r x).trans hxrequest,
        (mark_importId r x).trans hxid⟩
    · exact h.started
    · exact h.absent
  · cases hstep

theorem Consistent.stop (h : Consistent s) (hstep : s.stop = some t) : Consistent t := by
  rw [Server.stop] at hstep
  split at hstep
  · obtain rfl := Option.some.inj hstep
    constructor
    · exact h.toRegistry.congr rfl rfl rfl (fun _ => Iff.rfl) fun x hx _ => ⟨x, hx, rfl, rfl, id⟩
    · exact h.ids
    · exact h.ages
    · exact h.recent
    · exact h.settled
    · intro x hx
      rcases h.phases x hx with hreserved | hlaunched | hregistered
      · exact Or.inl hreserved
      · exact Or.inr (Or.inl hlaunched)
      · exact Or.inr (Or.inr ⟨hregistered.1, Tracked.mono hregistered.2 rfl rfl id rfl
          (List.Subset.refl _) rfl fun _ => rfl⟩)
    · exact h.held
    · exact h.started
    · exact h.absent
  · cases hstep

theorem Consistent.joinWorker (h : Consistent s) (hstep : s.joinWorker = some t) :
    Consistent t := by
  rw [Server.joinWorker] at hstep
  split at hstep
  · next importId request rest hworkers =>
    split at hstep
    · next hguard =>
      obtain rfl := Option.some.inj hstep
      have hhead : (importId, request) ∈ s.importWorkers := by rw [hworkers]; exact List.mem_cons_self
      have hrest : ∀ w ∈ rest, w ∈ s.importWorkers := fun w hw => by
        rw [hworkers]
        exact List.mem_cons_of_mem _ hw
      have hthreads := h.threads
      rw [hworkers, List.map_cons, List.nodup_cons] at hthreads
      have hjoinsNe : ∀ q, q ≠ request → s.joins q + [request].count q = s.joins q := by
        intro q hq
        rw [List.count_singleton, if_neg (by simpa using hq.symm), Nat.add_zero]
      have hjoinsOwn : s.joins request + [request].count request = 1 := by
        rw [(h.workers _ hhead).1, List.count_singleton_self]
      constructor
      · constructor
        · intro id hid
          obtain ⟨x, hx, hxid, hphase, hdone, hjoins⟩ := h.completed id hid
          refine ⟨x, hx, hxid, hphase, hdone, ?_⟩
          have hne : x.request ≠ request := by
            intro heq
            rw [heq, (h.workers _ hhead).1] at hjoins
            cases hjoins
          exact (hjoinsNe _ hne).trans hjoins
        · intro w hw
          obtain ⟨hjoins, hphase, hsession⟩ := h.workers w (hrest w hw)
          have hne : w.2 ≠ request := fun heq => hthreads.1 (List.mem_map.mpr ⟨w, hw, heq⟩)
          exact ⟨(hjoinsNe _ hne).trans hjoins, hphase, hsession⟩
        · have htracked := h.tracked
          rw [hworkers] at htracked
          exact htracked.sublist ((List.sublist_cons_self _ _).append_left _)
        · exact hthreads.2
        · intro q hq
          by_cases hqr : q = request
          · exact Or.inl (hqr ▸ hjoinsOwn)
          · rcases h.registered q hq with hjoined | hworker
            · exact Or.inl ((hjoinsNe q hqr).trans hjoined)
            · obtain ⟨id, hworker⟩ := hworker
              rw [hworkers] at hworker
              rcases List.mem_cons.mp hworker with heq | hworker
              · exact absurd (Prod.mk.inj heq).2 hqr
              · exact Or.inr ⟨id, hworker⟩
        · intro q hq
          have hne : q ≠ request := fun heq => hq (heq ▸ (h.workers _ hhead).2.1)
          exact (hjoinsNe q hne).trans (h.unjoined q hq)
      · exact h.ids
      · exact h.ages
      · exact h.recent
      · exact h.settled
      · intro x hx
        rcases h.phases x hx with hreserved | hlaunched | hregistered
        · exact Or.inl hreserved
        · exact Or.inr (Or.inl hlaunched)
        · refine Or.inr (Or.inr ⟨hregistered.1, ?_⟩)
          by_cases hx' : x.request = request
          · exact Or.inr (Or.inr ⟨hguard.1, hx' ▸ hjoinsOwn⟩)
          · have hjoins := hjoinsNe _ hx'
            rcases hregistered.2 with hknown | hworker | hstop
            · exact Or.inl ⟨hknown.1, hjoins.trans hknown.2.1, hknown.2.2⟩
            · have hmem := hworker.1
              rw [hworkers] at hmem
              rcases List.mem_cons.mp hmem with heq | hmem
              · exact absurd (Prod.mk.inj heq).2 hx'
              · exact Or.inr (Or.inl ⟨hmem, hjoins.trans hworker.2⟩)
            · exact Or.inr (Or.inr ⟨hstop.1, hjoins.trans hstop.2⟩)
      · exact h.held
      · exact h.started
      · exact h.absent
    · cases hstep
  · cases hstep

theorem Consistent.step {a : Action} (h : Consistent s) (hstep : s.step a = some t) :
    Consistent t := by
  cases a with
  | post importId =>
    simp only [Server.step] at hstep
    split at hstep
    · cases hstep
    · exact h.pruneCompleted.reserve hstep
  | abandon r => exact h.abandon hstep
  | startWorker r => exact h.startWorker hstep
  | registerWorker r => exact h.registerWorker hstep
  | finish r => exact h.finish hstep
  | cancel importId =>
    obtain rfl := Option.some.inj hstep
    exact h
  | stop => exact h.stop hstep
  | joinWorker => exact h.joinWorker hstep

end Steps

end MotifChess.Http.Imports
