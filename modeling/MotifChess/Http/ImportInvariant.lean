/- GID: MotifChess/Http/ImportInvariant
   generality: implementation
   digest: How sessions, requests and workers agree, and that pruning keeps them in agreement. -/

import MotifChess.Http.ImportSessions
import Mathlib.Data.List.Nodup
import Mathlib.Data.List.Infix

set_option autoImplicit false
set_option relaxedAutoImplicit false

namespace MotifChess.Http.Imports

section Lists

variable {α β : Type}

private theorem eq_of_map_nodup {f : α → β} {l : List α} (h : (l.map f).Nodup) {a b : α} (ha : a ∈ l)
    (hb : b ∈ l) (heq : f a = f b) : a = b :=
  List.inj_on_of_nodup_map h ha hb heq

theorem map_filter_nodup {f : α → β} {l : List α} (h : (l.map f).Nodup) (p : α → Bool) :
    ((l.filter p).map f).Nodup :=
  h.sublist (List.filter_sublist.map f)

private theorem append_filter_perm {f : α → β} (p : α → Bool) (known : List β) (l : List α) :
    ((known ++ (l.filter p).map f) ++ (l.filter fun a => !p a).map f).Perm (known ++ l.map f) := by
  rw [List.append_assoc, ← List.map_append]
  exact ((List.filter_append_perm p l).map f).append_left known

private theorem length_le_one {l : List α} (h : l.Pairwise fun _ _ => False) : l.length ≤ 1 := by
  cases l with
  | nil => exact Nat.zero_le _
  | cons a l =>
    cases l with
    | nil => exact Nat.le_refl _
    | cons b l =>
      have hfalse : False := (List.pairwise_cons.mp h).1 b List.mem_cons_self
      exact hfalse.elim

end Lists

section Invariant

/-- Pruning has found the session of a registered worker, or the worker is still in the queue, or the
destructor has taken it from there. -/
def Server.Tracked (s : Server) (x : ImportSession) : Prop :=
  (x.importId ∈ s.completedSessionIds ∧ s.joins x.request = 1 ∧ x.done = true) ∨
    ((x.importId, x.request) ∈ s.importWorkers ∧ s.joins x.request = 0) ∨
    (s.stopping = true ∧ s.joins x.request = 1)

/-- What holds of the registered requests, their workers and their completed sessions. -/
structure Registry (s : Server) : Prop where
  completed : ∀ id ∈ s.completedSessionIds, ∃ x ∈ s.sessions, x.importId = id ∧
    s.phase x.request = .registered ∧ x.done = true ∧ s.joins x.request = 1
  workers : ∀ w ∈ s.importWorkers, s.joins w.2 = 0 ∧ s.phase w.2 = .registered ∧
    ∃ x ∈ s.sessions, x.importId = w.1 ∧ x.request = w.2
  tracked : (s.completedSessionIds ++ s.importWorkers.map Prod.fst).Nodup
  threads : (s.importWorkers.map Prod.snd).Nodup
  registered : ∀ r, s.phase r = .registered →
    s.joins r = 1 ∨ ∃ id, (id, r) ∈ s.importWorkers
  unjoined : ∀ r, s.phase r ≠ .registered → s.joins r = 0

structure Consistent (s : Server) : Prop extends Registry s where
  ids : (s.sessions.map ImportSession.importId).Nodup
  ages : s.sessions.Pairwise fun x y => x.request < y.request
  recent : ∀ x ∈ s.sessions, x.request < s.requests
  settled : ∀ x ∈ s.sessions, ∀ y ∈ s.sessions, x.request < y.request → x.done = true
  phases : ∀ x ∈ s.sessions, (s.phase x.request = .reserved x.importId ∧ x.done = false) ∨
    s.phase x.request = .launched x.importId ∨
    (s.phase x.request = .registered ∧ s.Tracked x)
  held : ∀ r id, s.phase r = .reserved id ∨ s.phase r = .launched id →
    ∃ x ∈ s.sessions, x.request = r ∧ x.importId = id
  started : ∀ r, r ∈ s.started ↔ (∃ id, s.phase r = .launched id) ∨ s.phase r = .registered
  absent : ∀ r, s.requests ≤ r → s.phase r = .absent

theorem Consistent.init : Consistent Server.init := by
  constructor
  · constructor <;> simp [Server.init]
  all_goals simp [Server.init]

variable {s t : Server}

theorem Consistent.session_eq (h : Consistent s) {x y : ImportSession} (hx : x ∈ s.sessions)
    (hy : y ∈ s.sessions) (heq : x.importId = y.importId) : x = y :=
  eq_of_map_nodup h.ids hx hy heq

theorem Consistent.request_eq (h : Consistent s) {x y : ImportSession} (hx : x ∈ s.sessions)
    (hy : y ∈ s.sessions) (heq : x.request = y.request) : x = y := by
  have hrequests : (s.sessions.map ImportSession.request).Nodup := by
    rw [List.Nodup, List.pairwise_map]
    exact h.ages.imp fun hlt => Nat.ne_of_lt hlt
  exact eq_of_map_nodup hrequests hx hy heq

theorem Consistent.isDone_eq (h : Consistent s) {x : ImportSession} (hx : x ∈ s.sessions) :
    s.isDone x.importId = x.done := by
  have hfound : s.sessions.find? (fun y => decide (y.importId = x.importId)) = some x := by
    cases hfind : s.sessions.find? (fun y => decide (y.importId = x.importId)) with
    | none =>
      rw [List.find?_eq_none] at hfind
      exact absurd (decide_eq_true rfl) (hfind x hx)
    | some y =>
      have hid : y.importId = x.importId := by simpa using List.find?_some hfind
      rw [h.session_eq (List.mem_of_find?_eq_some hfind) hx hid]
  rw [Server.isDone, hfound]

theorem Consistent.active_le (h : Consistent s) :
    (s.sessions.filter fun x => !x.done).length ≤ 1 := by
  have hpair : (s.sessions.filter fun x => !x.done).Pairwise fun _ _ => False := by
    refine (h.ages.filter _).imp_of_mem ?_
    intro x y hx hy hlt
    obtain ⟨hx, hactive⟩ := List.mem_filter.mp hx
    rw [h.settled x hx y (List.mem_filter.mp hy).1 hlt] at hactive
    cases hactive
  exact length_le_one hpair

end Invariant

section Prune

variable {s : Server}

@[simp] theorem pruneCompleted_phase (s : Server) : s.pruneCompleted.phase = s.phase := rfl

private theorem mem_finishedWorkers {w : ℕ × ℕ} :
    w ∈ s.finishedWorkers ↔ w ∈ s.importWorkers ∧ s.isDone w.1 = true := List.mem_filter

private theorem Consistent.worker_eq (h : Consistent s) {v w : ℕ × ℕ} (hv : v ∈ s.importWorkers)
    (hw : w ∈ s.importWorkers) (heq : v.2 = w.2) : v = w :=
  eq_of_map_nodup h.threads hv hw heq

private theorem Consistent.finished_nodup (h : Consistent s) :
    (s.finishedWorkers.map Prod.snd).Nodup := map_filter_nodup h.threads _

private theorem Consistent.completedIds_nodup (h : Consistent s) :
    (s.completedIds ++ (s.importWorkers.filter fun w => !s.isDone w.1).map Prod.fst).Nodup :=
  (append_filter_perm (fun w : ℕ × ℕ => s.isDone w.1) s.completedSessionIds
    s.importWorkers).nodup_iff.mpr h.tracked

theorem Consistent.of_mem_completedIds (h : Consistent s) {id : ℕ} (hid : id ∈ s.completedIds) :
    ∃ x ∈ s.sessions, x.importId = id ∧ s.phase x.request = .registered ∧ x.done = true ∧
      s.pruneCompleted.joins x.request = 1 := by
  rcases List.mem_append.mp hid with hid | hid
  · obtain ⟨x, hx, hxid, hphase, hdone, hjoins⟩ := h.completed id hid
    refine ⟨x, hx, hxid, hphase, hdone, ?_⟩
    have hnot : x.request ∉ s.finishedWorkers.map Prod.snd := by
      intro hmem
      obtain ⟨w, hw, heq⟩ := List.mem_map.mp hmem
      have hzero := (h.workers w (mem_finishedWorkers.mp hw).1).1
      rw [heq, hjoins] at hzero
      cases hzero
    show s.joins x.request + (s.finishedWorkers.map Prod.snd).count x.request = 1
    rw [hjoins, List.count_eq_zero.mpr hnot]
  · obtain ⟨w, hw, rfl⟩ := List.mem_map.mp hid
    obtain ⟨hworker, hdone⟩ := mem_finishedWorkers.mp hw
    obtain ⟨hjoins, hphase, x, hx, hxid, hrequest⟩ := h.workers w hworker
    rw [← hxid, h.isDone_eq hx] at hdone
    rw [← hrequest] at hphase hjoins
    refine ⟨x, hx, hxid, hphase, hdone, ?_⟩
    have hmem : x.request ∈ s.finishedWorkers.map Prod.snd :=
      List.mem_map.mpr ⟨w, hw, hrequest.symm⟩
    show s.joins x.request + (s.finishedWorkers.map Prod.snd).count x.request = 1
    rw [hjoins, List.count_eq_one_of_mem h.finished_nodup hmem]

theorem mem_pruneCompleted {x : ImportSession} :
    x ∈ s.pruneCompleted.sessions ↔
      x ∈ s.sessions ∧ x.importId ∉ s.completedIds.take s.excess := by
  rw [Server.pruneCompleted]
  simp only [List.mem_filter, decide_eq_true_eq]

private theorem Consistent.kept_of_drop (h : Consistent s) {id : ℕ}
    (hid : id ∈ s.completedIds.drop s.excess) : id ∉ s.completedIds.take s.excess := by
  intro htake
  have hnodup := (List.nodup_append.mp h.completedIds_nodup).1
  rw [← List.take_append_drop s.excess s.completedIds] at hnodup
  exact (List.nodup_append.mp hnodup).2.2 id htake id hid rfl

private theorem Consistent.kept_of_active (h : Consistent s) {w : ℕ × ℕ} (hw : w ∈ s.importWorkers)
    (hactive : s.isDone w.1 = false) : w.1 ∉ s.completedIds.take s.excess := by
  intro htake
  have hmem : w.1 ∈ (s.importWorkers.filter fun v => !s.isDone v.1).map Prod.fst :=
    List.mem_map.mpr ⟨w, List.mem_filter.mpr ⟨hw, by simp [hactive]⟩, rfl⟩
  exact (List.nodup_append.mp h.completedIds_nodup).2.2 w.1 (List.mem_of_mem_take htake) w.1 hmem
    rfl

private theorem Consistent.kept_of_phase (h : Consistent s) {x : ImportSession}
    (hx : x ∈ s.sessions) (hphase : s.phase x.request ≠ .registered) :
    x ∈ s.pruneCompleted.sessions := by
  refine mem_pruneCompleted.mpr ⟨hx, ?_⟩
  intro htake
  obtain ⟨y, hy, hid, hregistered, _⟩ := h.of_mem_completedIds (List.mem_of_mem_take htake)
  rw [h.session_eq hy hx hid] at hregistered
  exact hphase hregistered

private theorem Consistent.joins_of_active (h : Consistent s) {w : ℕ × ℕ}
    (hw : w ∈ s.importWorkers) (hactive : s.isDone w.1 = false) :
    s.pruneCompleted.joins w.2 = 0 := by
  have hnot : w.2 ∉ s.finishedWorkers.map Prod.snd := by
    intro hmem
    obtain ⟨v, hv, heq⟩ := List.mem_map.mp hmem
    obtain ⟨hv, hdone⟩ := mem_finishedWorkers.mp hv
    rw [h.worker_eq hv hw heq, hactive] at hdone
    cases hdone
  show s.joins w.2 + (s.finishedWorkers.map Prod.snd).count w.2 = 0
  rw [(h.workers w hw).1, List.count_eq_zero.mpr hnot]

private theorem joins_of_unlisted {r : ℕ} (hr : ∀ w ∈ s.importWorkers, w.2 ≠ r) : s.pruneCompleted.joins r = s.joins r := by
  have hnot : r ∉ s.finishedWorkers.map Prod.snd := by
    intro hmem
    obtain ⟨w, hw, heq⟩ := List.mem_map.mp hmem
    exact hr w (mem_finishedWorkers.mp hw).1 heq
  show s.joins r + (s.finishedWorkers.map Prod.snd).count r = s.joins r
  rw [List.count_eq_zero.mpr hnot, Nat.add_zero]

private theorem Consistent.tracked_pruneCompleted (h : Consistent s) {x : ImportSession}
    (hx : x ∈ s.pruneCompleted.sessions) (htracked : s.Tracked x) : s.pruneCompleted.Tracked x := by
  obtain ⟨hx, hkept⟩ := mem_pruneCompleted.mp hx
  have hdrop : x.importId ∈ s.completedIds → x.importId ∈ s.completedIds.drop s.excess := by
    intro hmem
    rw [← List.take_append_drop s.excess s.completedIds] at hmem
    rcases List.mem_append.mp hmem with htake | hdrop
    · exact absurd htake hkept
    · exact hdrop
  have hcompleted : x.importId ∈ s.completedIds → s.pruneCompleted.Tracked x := by
    intro hmem
    obtain ⟨y, hy, hid, _, hdone, hjoins⟩ := h.of_mem_completedIds hmem
    obtain rfl := h.session_eq hy hx hid
    exact Or.inl ⟨hdrop hmem, hjoins, hdone⟩
  rcases htracked with hknown | hworker | hstopping
  · exact hcompleted (List.mem_append_left _ hknown.1)
  · cases hdone : s.isDone x.importId with
    | true =>
      have hfinished : (x.importId, x.request) ∈ s.finishedWorkers :=
        mem_finishedWorkers.mpr ⟨hworker.1, hdone⟩
      exact hcompleted (List.mem_append_right _ (List.mem_map_of_mem (f := Prod.fst) hfinished))
    | false =>
      refine Or.inr (Or.inl ⟨List.mem_filter.mpr ⟨hworker.1, by simp [hdone]⟩, ?_⟩)
      exact h.joins_of_active hworker.1 hdone
  · obtain ⟨hstop, hjoins⟩ := hstopping
    have hunlisted : ∀ w ∈ s.importWorkers, w.2 ≠ x.request := by
      intro w hw heq
      have hzero := (h.workers w hw).1
      rw [heq, hjoins] at hzero
      cases hzero
    exact Or.inr (Or.inr ⟨hstop, by rw [joins_of_unlisted hunlisted, hjoins]⟩)

theorem Consistent.pruneCompleted (h : Consistent s) : Consistent s.pruneCompleted where
  ids := map_filter_nodup h.ids _
  ages := h.ages.filter _
  recent x hx := h.recent x (mem_pruneCompleted.mp hx).1
  settled x hx y hy := h.settled x (mem_pruneCompleted.mp hx).1 y (mem_pruneCompleted.mp hy).1
  phases := by
    intro x hx
    rcases h.phases x (mem_pruneCompleted.mp hx).1 with hreserved | hlaunched | hregistered
    · exact Or.inl hreserved
    · exact Or.inr (Or.inl hlaunched)
    · exact Or.inr (Or.inr ⟨hregistered.1, h.tracked_pruneCompleted hx hregistered.2⟩)
  held := by
    intro r id hphase
    obtain ⟨x, hx, hrequest, hid⟩ := h.held r id hphase
    refine ⟨x, h.kept_of_phase hx ?_, hrequest, hid⟩
    rw [pruneCompleted_phase] at hphase
    rw [hrequest]
    rcases hphase with hphase | hphase <;> simp [hphase]
  completed := by
    intro id hid
    obtain ⟨x, hx, hxid, hphase, hdone, hjoins⟩ := h.of_mem_completedIds (List.mem_of_mem_drop hid)
    refine ⟨x, mem_pruneCompleted.mpr ⟨hx, ?_⟩, hxid, hphase, hdone, hjoins⟩
    rw [hxid]
    exact h.kept_of_drop hid
  workers := by
    intro w hw
    obtain ⟨hworker, hactive⟩ := List.mem_filter.mp hw
    rw [Bool.not_eq_true'] at hactive
    obtain ⟨_, hphase, x, hx, hid, hrequest⟩ := h.workers w hworker
    refine ⟨h.joins_of_active hworker hactive, hphase, x, mem_pruneCompleted.mpr ⟨hx, ?_⟩, hid,
      hrequest⟩
    rw [hid]
    exact h.kept_of_active hworker hactive
  tracked := h.completedIds_nodup.sublist ((List.drop_sublist _ _).append_right _)
  threads := map_filter_nodup h.threads _
  registered := by
    intro r hphase
    by_cases hlisted : ∃ w ∈ s.importWorkers, w.2 = r
    · obtain ⟨w, hw, rfl⟩ := hlisted
      cases hdone : s.isDone w.1 with
      | true =>
        have hmem : w.2 ∈ s.finishedWorkers.map Prod.snd :=
          List.mem_map.mpr ⟨w, mem_finishedWorkers.mpr ⟨hw, hdone⟩, rfl⟩
        refine Or.inl ?_
        show s.joins w.2 + (s.finishedWorkers.map Prod.snd).count w.2 = 1
        rw [(h.workers w hw).1, List.count_eq_one_of_mem h.finished_nodup hmem]
      | false => exact Or.inr ⟨w.1, List.mem_filter.mpr ⟨hw, by simp [hdone]⟩⟩
    · have hunlisted : ∀ w ∈ s.importWorkers, w.2 ≠ r := fun w hw heq => hlisted ⟨w, hw, heq⟩
      rw [joins_of_unlisted hunlisted]
      rcases h.registered r hphase with hjoined | hworker
      · exact Or.inl hjoined
      · obtain ⟨id, hworker⟩ := hworker
        exact absurd rfl (hunlisted _ hworker)
  unjoined := by
    intro r hphase
    rw [pruneCompleted_phase] at hphase
    have hunlisted : ∀ w ∈ s.importWorkers, w.2 ≠ r := by
      intro w hw heq
      exact hphase (heq ▸ (h.workers w hw).2.1)
    rw [joins_of_unlisted hunlisted]
    exact h.unjoined r hphase
  started := h.started
  absent := h.absent

end Prune

end MotifChess.Http.Imports
