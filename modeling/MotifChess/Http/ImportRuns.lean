/- GID: MotifChess/Http/ImportRuns
   generality: implementation
   digest: What every interleaving of import requests, workers and pruning guarantees. -/

import MotifChess.Http.ImportSteps
import Mathlib.Data.List.Perm.Subperm

set_option autoImplicit false
set_option relaxedAutoImplicit false

namespace MotifChess.Http.Imports

section Order

/-- No earlier request has a worker that is not registered yet. -/
def InTurn (s : Server) : Action → Prop
  | .registerWorker r => ∀ q < r, ∀ id, s.phase q ≠ .launched id
  | _ => True

/-- Until the server stops, pruning knows the oldest sessions, in the order of their creation. -/
def Ordered (s : Server) : Prop :=
  s.stopping = false →
    s.completedSessionIds ++ s.importWorkers.map Prod.fst <+: s.sessions.map ImportSession.importId

variable {s t : Server} {r : ℕ}

private theorem filter_append_filter_not {α : Type} {p : α → Bool} {l : List α}
    (h : l.Pairwise fun a _ => p a = true) : l.filter p ++ l.filter (fun a => !p a) = l := by
  induction l with
  | nil => rfl
  | cons a l ih =>
    obtain ⟨ha, hl⟩ := List.pairwise_cons.mp h
    cases hp : p a with
    | true => simp [hp, ih hl]
    | false =>
      have hnil : l = [] := by
        cases l with
        | nil => rfl
        | cons b l =>
          rw [ha b List.mem_cons_self] at hp
          cases hp
      simp [hnil, hp]

private theorem Ordered.workers_done (h : Ordered s) (hc : Consistent s)
    (hrunning : s.stopping = false) : s.importWorkers.Pairwise fun w _ => s.isDone w.1 = true := by
  have hsessions : s.sessions.Pairwise fun x _ => s.isDone x.importId = true := by
    refine hc.ages.imp_of_mem ?_
    intro x y hx hy hlt
    rw [hc.isDone_eq hx]
    exact hc.settled x hx y hy hlt
  have hids : (s.sessions.map ImportSession.importId).Pairwise fun a _ => s.isDone a = true :=
    List.pairwise_map.mpr hsessions
  have hknown := hids.sublist ((List.sublist_append_right _ _).trans (h hrunning).sublist)
  exact List.pairwise_map.mp hknown

private theorem Ordered.completedIds_append (h : Ordered s) (hc : Consistent s)
    (hrunning : s.stopping = false) :
    s.completedIds ++ (s.importWorkers.filter fun w => !s.isDone w.1).map Prod.fst =
      s.completedSessionIds ++ s.importWorkers.map Prod.fst := by
  rw [Server.completedIds, List.append_assoc, ← List.map_append, Server.finishedWorkers,
    filter_append_filter_not (h.workers_done hc hrunning)]

private theorem Ordered.sessions_pruneCompleted (h : Ordered s) (hc : Consistent s)
    (hrunning : s.stopping = false) : s.pruneCompleted.sessions = s.sessions.drop s.excess := by
  have hle : s.excess ≤ s.completedIds.length := Nat.sub_le _ _
  have hprefix : s.completedIds <+: s.sessions.map ImportSession.importId := by
    have hwhole := h hrunning
    rw [← h.completedIds_append hc hrunning] at hwhole
    exact (List.prefix_append _ _).trans hwhole
  obtain ⟨rest, hrest⟩ := hprefix
  have htake : s.completedIds.take s.excess =
      (s.sessions.take s.excess).map ImportSession.importId := by
    rw [List.map_take, ← hrest, List.take_append_of_le_length hle]
  have hnodup := hc.ids
  rw [← List.take_append_drop s.excess s.sessions, List.map_append, List.nodup_append] at hnodup
  show s.sessions.filter _ = _
  conv_lhs => rw [← List.take_append_drop s.excess s.sessions]
  rw [List.filter_append, htake, List.filter_eq_nil_iff.mpr, List.filter_eq_self.mpr,
    List.nil_append]
  · intro x hx
    refine decide_eq_true ?_
    intro hmem
    exact hnodup.2.2 _ hmem _ (List.mem_map_of_mem hx) rfl
  · intro x hx hkept
    exact of_decide_eq_true hkept (List.mem_map_of_mem hx)

theorem Ordered.pruneCompleted (h : Ordered s) (hc : Consistent s) : Ordered s.pruneCompleted := by
  intro hrunning
  have hle : s.excess ≤ s.completedIds.length := Nat.sub_le _ _
  show s.completedIds.drop s.excess ++ _ <+: _
  rw [h.sessions_pruneCompleted hc hrunning, List.map_drop]
  have hwhole := h hrunning
  rw [← h.completedIds_append hc hrunning] at hwhole
  have hdrop := hwhole.drop s.excess
  rwa [List.drop_append_of_le_length hle] at hdrop

theorem Ordered.reserve (h : Ordered s) {importId : ℕ} (hstep : s.reserve importId = some t) :
    Ordered t := by
  rw [Server.reserve] at hstep
  split at hstep
  · obtain rfl := Option.some.inj hstep
    exact h
  · split at hstep
    · cases hstep
    · obtain rfl := Option.some.inj hstep
      intro hrunning
      show _ <+: (s.sessions ++ [_]).map ImportSession.importId
      rw [List.map_append]
      exact (h hrunning).trans (List.prefix_append _ _)

theorem Ordered.abandon (h : Ordered s) (hc : Consistent s) (hstep : s.abandon r = some t) :
    Ordered t := by
  rw [Server.abandon] at hstep
  split at hstep
  · next importId hreserved =>
    obtain rfl := Option.some.inj hstep
    intro hrunning
    obtain ⟨own, hown, hrequest, hownId⟩ := hc.held r importId (Or.inl hreserved)
    have hfree := hc.not_mem_of_phase hown (by
      rw [hrequest, hreserved]
      exact Phase.noConfusion)
    rw [hownId] at hfree
    obtain ⟨rest, hrest⟩ := h hrunning
    refine ⟨rest.filter fun id => decide (id ≠ importId), ?_⟩
    show s.completedSessionIds ++ s.importWorkers.map Prod.fst ++ _ = (s.sessions.filter
      fun x => decide (x.importId ≠ importId)).map ImportSession.importId
    have hmap : (s.sessions.filter fun x => decide (x.importId ≠ importId)).map
        ImportSession.importId = (s.sessions.map ImportSession.importId).filter
          fun id => decide (id ≠ importId) := by
      rw [List.filter_map]
      rfl
    have hkept : (s.completedSessionIds ++ s.importWorkers.map Prod.fst).filter
        (fun id => decide (id ≠ importId)) = s.completedSessionIds ++ s.importWorkers.map Prod.fst := by
      apply List.filter_eq_self.mpr
      intro id hid
      refine decide_eq_true ?_
      rintro rfl
      exact hfree hid
    rw [hmap, ← hrest, List.filter_append, hkept]
  · cases hstep

theorem Ordered.registerWorker (h : Ordered s) (hc : Consistent s)
    (hturn : InTurn s (.registerWorker r)) (hstep : s.registerWorker r = some t) : Ordered t := by
  rw [Server.registerWorker] at hstep
  split at hstep
  · next importId hlaunched =>
    obtain rfl := Option.some.inj hstep
    intro hstopping
    have hrunning : s.stopping = false := hstopping
    obtain ⟨own, hown, hrequest, hownId⟩ := hc.held r importId (Or.inr hlaunched)
    have hfree := hc.not_mem_of_phase hown (by
      rw [hrequest, hlaunched]
      exact Phase.noConfusion)
    obtain ⟨rest, hrest⟩ := h hrunning
    obtain ⟨known, unknown, hsplit, hknown, hunknown⟩ := List.append_eq_map_iff.mp hrest
    have hnodup := hc.ids
    rw [hsplit, List.map_append, List.nodup_append] at hnodup
    have hages := hc.ages
    rw [hsplit, List.pairwise_append] at hages
    have hownUnknown : own ∈ unknown := by
      rw [hsplit] at hown
      rcases List.mem_append.mp hown with hmem | hmem
      · exact absurd (hknown ▸ List.mem_map_of_mem hmem) hfree
      · exact hmem
    cases unknown with
    | nil => cases hownUnknown
    | cons first later =>
      have hfirst : first ∈ s.sessions := by
        rw [hsplit]
        exact List.mem_append_right _ List.mem_cons_self
      have hsame : first = own := by
        rcases List.mem_cons.mp hownUnknown with heq | hlater
        · exact heq.symm
        · have hlt := (List.pairwise_cons.mp hages.2.1).1 own hlater
          have hdone := hc.settled first hfirst own hown hlt
          have hnew : first.importId ∉ s.completedSessionIds ++ s.importWorkers.map Prod.fst := by
            rw [← hknown]
            intro hmem
            exact hnodup.2.2 _ hmem _ List.mem_cons_self rfl
          rcases hc.phases first hfirst with hreserved | hunregistered | hregistered
          · rw [hreserved.2] at hdone
            cases hdone
          · rw [hrequest] at hlt
            exact absurd hunregistered (hturn _ hlt _)
          · rcases hregistered.2 with htracked | hworker | hstopped
            · exact absurd (List.mem_append_left _ htracked.1) hnew
            · exact absurd (List.mem_append_right _
                (List.mem_map_of_mem (f := Prod.fst) hworker.1)) hnew
            · rw [hrunning] at hstopped
              cases hstopped.1
      refine ⟨later.map ImportSession.importId, ?_⟩
      show s.completedSessionIds ++ (s.importWorkers ++ [(importId, r)]).map Prod.fst ++ _ =
        s.sessions.map ImportSession.importId
      simp only [hsplit, List.map_append, hknown, hsame, hownId, List.map_cons, List.map_nil,
        List.append_assoc, List.cons_append, List.nil_append]
  · cases hstep

theorem Ordered.step {a : Action} (h : Ordered s) (hc : Consistent s) (hturn : InTurn s a)
    (hstep : s.step a = some t) : Ordered t := by
  cases a with
  | post importId =>
    simp only [Server.step] at hstep
    split at hstep
    · cases hstep
    · exact (h.pruneCompleted hc).reserve hstep
  | abandon r => exact h.abandon hc hstep
  | startWorker r =>
    simp only [Server.step, Server.startWorker] at hstep
    split at hstep
    · obtain rfl := Option.some.inj hstep
      exact h
    · cases hstep
  | registerWorker r => exact h.registerWorker hc hturn hstep
  | finish r =>
    simp only [Server.step, Server.finish] at hstep
    split at hstep
    · obtain rfl := Option.some.inj hstep
      intro hrunning
      show _ <+: (s.sessions.map (mark r)).map ImportSession.importId
      rw [List.map_map]
      exact (List.map_congr_left fun x _ => mark_importId r x) ▸ h hrunning
    · cases hstep
  | cancel importId =>
    obtain rfl := Option.some.inj hstep
    exact h
  | stop =>
    simp only [Server.step, Server.stop] at hstep
    split at hstep
    · obtain rfl := Option.some.inj hstep
      intro hrunning
      cases hrunning
    · cases hstep
  | joinWorker =>
    simp only [Server.step, Server.joinWorker] at hstep
    split at hstep
    · split at hstep
      · next hguard =>
        obtain rfl := Option.some.inj hstep
        intro hrunning
        rw [show s.stopping = true from hguard.1] at hrunning
        cases hrunning
      · cases hstep
    · cases hstep

end Order

section Runs

variable {s t : Server}

/-- After the server has stopped, no handler is between its sections any more. -/
def Drained (s : Server) : Prop :=
  s.stopping = true → ∀ r id, s.phase r ≠ .reserved id ∧ s.phase r ≠ .launched id

theorem Drained.step {a : Action} (h : Drained s) (hc : Consistent s) (hstep : s.step a = some t) :
    Drained t := by
  cases a with
  | post importId =>
    simp only [Server.step, Server.reserve] at hstep
    split at hstep
    · cases hstep
    · next hrunning =>
      split at hstep
      · obtain rfl := Option.some.inj hstep
        intro hstopping
        exact absurd hstopping hrunning
      · split at hstep
        · cases hstep
        · obtain rfl := Option.some.inj hstep
          intro hstopping
          exact absurd hstopping hrunning
  | abandon r =>
    simp only [Server.step, Server.abandon] at hstep
    split at hstep
    · next importId hphase =>
      obtain rfl := Option.some.inj hstep
      intro hstopping
      exact absurd hphase (h hstopping r importId).1
    · cases hstep
  | startWorker r =>
    simp only [Server.step, Server.startWorker] at hstep
    split at hstep
    · next importId hphase =>
      obtain rfl := Option.some.inj hstep
      intro hstopping
      exact absurd hphase (h hstopping r importId).1
    · cases hstep
  | registerWorker r =>
    simp only [Server.step, Server.registerWorker] at hstep
    split at hstep
    · next importId hphase =>
      obtain rfl := Option.some.inj hstep
      intro hstopping
      exact absurd hphase (h hstopping r importId).2
    · cases hstep
  | finish r =>
    simp only [Server.step, Server.finish] at hstep
    split at hstep
    · obtain rfl := Option.some.inj hstep
      exact h
    · cases hstep
  | cancel importId =>
    obtain rfl := Option.some.inj hstep
    exact h
  | stop =>
    simp only [Server.step, Server.stop] at hstep
    split at hstep
    · next hall =>
      obtain rfl := Option.some.inj hstep
      intro _ r id
      rw [List.all_eq_true] at hall
      have hidle := hall r
      constructor
      · intro hphase
        have hlt := hc.requested (r := r) (by rw [hphase]; exact Phase.noConfusion)
        have hfalse := hidle (List.mem_range.mpr hlt)
        rw [hphase] at hfalse
        cases hfalse
      · intro hphase
        have hlt := hc.requested (r := r) (by rw [hphase]; exact Phase.noConfusion)
        have hfalse := hidle (List.mem_range.mpr hlt)
        rw [hphase] at hfalse
        cases hfalse
    · cases hstep
  | joinWorker =>
    simp only [Server.step, Server.joinWorker] at hstep
    split at hstep
    · split at hstep
      · obtain rfl := Option.some.inj hstep
        exact h
      · cases hstep
    · cases hstep

/-- One running import, no eviction of it, no worker of a refused request, and one join each. -/
structure Safe (s : Server) : Prop where
  oneActive : (s.sessions.filter fun x => !x.done).length ≤ 1
  evictsDone : ∀ x ∈ s.sessions, x ∉ s.pruneCompleted.sessions → x.done = true
  startedAccepted : ∀ r ∈ s.started, s.phase r ≠ .refused ∧ s.phase r ≠ .failed
  joinedOnce : ∀ r, s.joins r ≤ 1 ∧ (s.joins r = 1 → r ∈ s.started)
  allJoined : s.stopping = true → s.importWorkers = [] → ∀ r ∈ s.started, s.joins r = 1

/-- Pruning evicts only sessions that are older than all it keeps, and it keeps as many completed
sessions as the cap allows.  A session is made when all older ones are done, so that the order of the
creation is the order of the completion. -/
def EvictsOldest (s : Server) : Prop :=
  ∀ x ∈ s.sessions, x ∉ s.pruneCompleted.sessions →
    (∀ y ∈ s.pruneCompleted.sessions, x.request < y.request) ∧
    maxCompletedSessions ≤ (s.pruneCompleted.sessions.filter fun y => y.done).length

theorem Consistent.safe (hc : Consistent s) (hd : Drained s) : Safe s where
  oneActive := hc.active_le
  evictsDone := by
    intro x hx hevicted
    have hmem : x.importId ∈ s.completedIds.take s.excess := by
      by_contra hkept
      exact hevicted (mem_pruneCompleted.mpr ⟨hx, hkept⟩)
    obtain ⟨y, hy, hid, _, hdone, _⟩ := hc.of_mem_completedIds (List.mem_of_mem_take hmem)
    rwa [hc.session_eq hy hx hid] at hdone
  startedAccepted := by
    intro r hr
    rcases (hc.started r).mp hr with hlaunched | hregistered
    · obtain ⟨id, hlaunched⟩ := hlaunched
      rw [hlaunched]
      exact ⟨Phase.noConfusion, Phase.noConfusion⟩
    · rw [hregistered]
      exact ⟨Phase.noConfusion, Phase.noConfusion⟩
  joinedOnce := by
    intro r
    by_cases hphase : s.phase r = .registered
    · refine ⟨?_, fun _ => (hc.started r).mpr (Or.inr hphase)⟩
      rcases hc.registered r hphase with hjoined | hworker
      · rw [hjoined]
      · obtain ⟨id, hworker⟩ := hworker
        rw [(hc.workers _ hworker).1]
        exact Nat.zero_le 1
    · rw [hc.unjoined r hphase]
      exact ⟨Nat.zero_le 1, fun hzero => by cases hzero⟩
  allJoined := by
    intro hstopping hnil r hr
    rcases (hc.started r).mp hr with hlaunched | hregistered
    · obtain ⟨id, hlaunched⟩ := hlaunched
      exact absurd hlaunched (hd hstopping r id).2
    · rcases hc.registered r hregistered with hjoined | hworker
      · exact hjoined
      · obtain ⟨id, hworker⟩ := hworker
        rw [hnil] at hworker
        cases hworker

private theorem Ordered.evictsOldest (h : Ordered s) (hc : Consistent s) (hrunning : s.stopping = false) :
    EvictsOldest s := by
  intro x hx hevicted
  have hsessions := h.sessions_pruneCompleted hc hrunning
  rw [hsessions] at hevicted ⊢
  have hages := hc.ages
  rw [← List.take_append_drop s.excess s.sessions, List.pairwise_append] at hages
  have htaken : x ∈ s.sessions.take s.excess := by
    rw [← List.take_append_drop s.excess s.sessions] at hx
    rcases List.mem_append.mp hx with htake | hdrop
    · exact htake
    · exact absurd hdrop hevicted
  refine ⟨fun y hy => hages.2.2 x htaken y hy, ?_⟩
  have hpos : 0 < s.excess := by
    by_contra hzero
    rw [Nat.eq_zero_of_not_pos hzero, List.take_zero] at htaken
    cases htaken
  have hlength : (s.completedIds.drop s.excess).length = maxCompletedSessions := by
    rw [List.length_drop]
    unfold Server.excess at hpos ⊢
    omega
  have hpruned := hc.pruneCompleted
  have hnodup : (s.completedIds.drop s.excess).Nodup :=
    (List.nodup_append.mp hpruned.tracked).1
  have hsubset : s.completedIds.drop s.excess ⊆
      ((s.sessions.drop s.excess).filter fun y => y.done).map ImportSession.importId := by
    intro id hid
    obtain ⟨y, hy, hyid, _, hdone, _⟩ := hpruned.completed id hid
    rw [hsessions] at hy
    exact List.mem_map.mpr ⟨y, List.mem_filter.mpr ⟨hy, hdone⟩, hyid⟩
  have hle := (List.subperm_of_subset hnodup hsubset).length_le
  rwa [hlength, List.length_map] at hle

private theorem kept_of_reaches {allowed : Server → Action → Prop}
    (h : System.Reaches Server.step allowed Server.init s) : Consistent s ∧ Drained s := by
  have hdrained : Drained Server.init := fun hstopping => by cases hstopping
  apply h.invariant (P := fun s => Consistent s ∧ Drained s) ⟨Consistent.init, hdrained⟩
  intro s a t hkept _ hstep
  exact ⟨hkept.1.step hstep, hkept.2.step hkept.1 hstep⟩

private theorem server_safe_of_reaches (h : System.Reaches Server.step (fun _ _ => True) Server.init s) :
    Safe s :=
  (kept_of_reaches h).1.safe (kept_of_reaches h).2

/-- When workers are registered in turn, pruning evicts the oldest sessions and no others. -/
theorem contract_of_reaches (h : System.Reaches Server.step InTurn Server.init s) :
    Safe s ∧ (s.stopping = false → EvictsOldest s) := by
  have hsafe := server_safe_of_reaches (h.mono fun _ _ _ => trivial)
  have hordered : Consistent s ∧ Ordered s := by
    have hinit : Ordered Server.init := fun _ => List.nil_prefix
    apply h.invariant (P := fun s => Consistent s ∧ Ordered s) ⟨Consistent.init, hinit⟩
    intro s a t hkept hturn hstep
    exact ⟨hkept.1.step hstep, hkept.2.step hkept.1 hturn hstep⟩
  exact ⟨hsafe, hordered.2.evictsOldest hordered.1⟩

/-- One import from its request to the end of its worker. -/
private def wholeImport (n : ℕ) : List Action :=
  [.post n, .startWorker n, .registerWorker n, .finish n]

/-- The first import is done before its worker is registered, and the second one overtakes it. -/
private def overtaken : List Action :=
  [.post 0, .startWorker 0, .finish 0, .post 1, .startWorker 1, .registerWorker 1, .registerWorker 0,
    .finish 1] ++ ((List.range 63).map fun n => wholeImport (n + 2)).flatten

/-- The sixty-fifth completed session makes pruning evict the second one instead of the first. -/
theorem not_evictsOldest :
    ¬∀ s, System.Reaches Server.step (fun _ _ => True) Server.init s →
      Safe s ∧ (s.stopping = false → EvictsOldest s) := by
  intro hall
  have hrun : (System.run Server.step (fun _ _ => True) Server.init overtaken).map (fun s =>
      (s.stopping, decide (⟨1, 1, true⟩ ∈ s.sessions),
        decide (⟨1, 1, true⟩ ∈ s.pruneCompleted.sessions),
        decide (⟨0, 0, true⟩ ∈ s.pruneCompleted.sessions))) = some (false, true, false, true) := by
    decide +kernel
  obtain ⟨s, hs, hfacts⟩ := Option.map_eq_some_iff.mp hrun
  obtain ⟨hrunning, hsecond, hevicted, hfirst⟩ := by simpa only [Prod.mk.injEq] using hfacts
  have holdest := (hall s (System.reaches_of_run hs)).2 hrunning
  have hyounger := (holdest _ (of_decide_eq_true hsecond) (of_decide_eq_false hevicted)).1 _
    (of_decide_eq_true hfirst)
  exact absurd hyounger (by decide)

theorem contract_of_reaches_sample : ∃ s, s.sessions = [⟨7, 0, true⟩] ∧ s.started = [0] ∧
    Safe s ∧ (s.stopping = false → EvictsOldest s) := by
  have hturn : ∀ s, InTurn s (.registerWorker 0) := fun _ q hq => absurd hq (Nat.not_lt_zero q)
  have hpost : ∀ s, InTurn s (.post 7) := fun _ => trivial
  have hstart : ∀ s, InTurn s (.startWorker 0) := fun _ => trivial
  have hfinish : ∀ s, InTurn s (.finish 0) := fun _ => trivial
  have hinit : System.Reaches Server.step InTurn Server.init Server.init := System.Reaches.refl
  have hreaches := (((hinit.tail (hpost _) rfl).tail (hstart _) rfl).tail (hturn _) rfl).tail
    (hfinish _) rfl
  exact ⟨_, rfl, rfl, contract_of_reaches hreaches⟩

end Runs

end MotifChess.Http.Imports
