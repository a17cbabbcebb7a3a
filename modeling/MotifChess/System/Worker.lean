/- GID: MotifChess/System/Worker
   generality: general
   digest: A background worker that serves an event loop with one job at a time. -/

import Mathlib.Data.List.Basic

set_option autoImplicit false
set_option relaxedAutoImplicit false

namespace MotifChess.System

variable {Job Outcome : Type}

/-- A job with the lifetime in which it was started. -/
structure Ticket (Job : Type) where
  lifetime : ℕ
  job : Job

/-- The outcome of a job, which the worker posts to the event loop. -/
structure Completion (Job Outcome : Type) extends Ticket Job where
  outcome : Outcome

/-- A worker: its busy flag, the job that its thread runs, the completions that wait in the event loop,
and the lifetime that a completion has to match when its turn comes. -/
structure Worker (Job Outcome : Type) where
  busy : Bool := false
  running : Option (Ticket Job) := none
  posted : List (Completion Job Outcome) := []
  lifetime : ℕ := 0

namespace Worker

section Operations

/-- A job is handed to a new thread. -/
def start (job : Job) (w : Worker Job Outcome) : Worker Job Outcome :=
  { w with busy := true, running := some ⟨w.lifetime, job⟩ }

/-- The thread ends and posts the outcome of its job. -/
def finish (outcome : Job → Outcome) (w : Worker Job Outcome) : Option (Worker Job Outcome) :=
  w.running.map fun ticket => { w with
    running := none
    posted := w.posted ++ [⟨ticket, outcome ticket.job⟩] }

/-- The event loop takes the first completion that waits. -/
def take (w : Worker Job Outcome) : Option (Completion Job Outcome × Worker Job Outcome) :=
  w.posted.head?.map fun completion => (completion, { w with posted := w.posted.tail })

def release (w : Worker Job Outcome) : Worker Job Outcome := { w with busy := false }

/-- A new lifetime begins, once the thread has ended: what was posted before it no longer counts. -/
def renew (w : Worker Job Outcome) : Option (Worker Job Outcome) :=
  if w.running.isNone then some { w with lifetime := w.lifetime + 1, busy := false } else none

end Operations

/-- What a worker does: nothing, a job, or waiting for the event loop to take the outcome of one. -/
inductive Phase (Job Outcome : Type)
  | idle
  | running (job : Job)
  | finished (job : Job) (outcome : Outcome)

/-- The job of a phase. -/
def Phase.job : Phase Job Outcome → Option Job
  | .idle => none
  | .running job => some job
  | .finished job _ => some job

/-- A worker whose flag, thread and completions fit its phase. -/
inductive InPhase (w : Worker Job Outcome) : Phase Job Outcome → Prop
  | idle (hbusy : w.busy = false) (hrunning : w.running = none)
      (hposted : ∀ c ∈ w.posted, c.lifetime < w.lifetime) : InPhase w .idle
  | running {job : Job} (hbusy : w.busy = true) (hrunning : w.running = some ⟨w.lifetime, job⟩)
      (hposted : ∀ c ∈ w.posted, c.lifetime < w.lifetime) : InPhase w (.running job)
  | finished {job : Job} {outcome : Outcome} {stale : List (Completion Job Outcome)}
      (hbusy : w.busy = true) (hrunning : w.running = none)
      (hposted : w.posted = stale ++ [⟨⟨w.lifetime, job⟩, outcome⟩])
      (hstale : ∀ c ∈ stale, c.lifetime < w.lifetime) : InPhase w (.finished job outcome)

section Phases

variable {w w' : Worker Job Outcome} {p : Phase Job Outcome}

theorem inPhase_new : InPhase ({} : Worker Job Outcome) .idle :=
  .idle rfl rfl fun _ hc => absurd hc List.not_mem_nil

/-- A worker is busy exactly when a job is in flight. -/
theorem InPhase.busy_iff (h : InPhase w p) : w.busy = true ↔ p.job.isSome := by
  cases h with
  | idle hbusy => simp [hbusy, Phase.job]
  | running hbusy => simp [hbusy, Phase.job]
  | finished hbusy => simp [hbusy, Phase.job]

theorem InPhase.eq_idle (h : InPhase w p) (hbusy : w.busy = false) : p = .idle := by
  cases h with
  | idle => rfl
  | running htrue => exact absurd (hbusy.symm.trans htrue) Bool.false_ne_true
  | finished htrue => exact absurd (hbusy.symm.trans htrue) Bool.false_ne_true

theorem InPhase.not_busy (h : InPhase w .idle) : w.busy = false := by
  cases h with
  | idle hbusy => exact hbusy

theorem InPhase.start (h : InPhase w .idle) (job : Job) : InPhase (w.start job) (.running job) := by
  cases h with
  | idle _ _ hposted => exact .running rfl rfl hposted

theorem InPhase.finish (h : InPhase w p) {outcome : Job → Outcome}
    (hfinish : w.finish outcome = some w') :
    ∃ job, p = .running job ∧ InPhase w' (.finished job (outcome job)) := by
  obtain ⟨ticket, hticket, rfl⟩ := Option.map_eq_some_iff.mp hfinish
  cases h with
  | idle _ hrunning => cases hrunning.symm.trans hticket
  | finished _ hrunning => cases hrunning.symm.trans hticket
  | running hbusy hrunning hposted =>
    obtain rfl := Option.some.inj (hrunning.symm.trans hticket)
    exact ⟨_, rfl, .finished hbusy rfl rfl hposted⟩

/-- A completion that is taken is of an earlier lifetime, or that of the job in flight; then no other
waits. -/
theorem InPhase.take (h : InPhase w p) {c : Completion Job Outcome} (htake : w.take = some (c, w')) :
    w'.busy = w.busy ∧ w'.lifetime = w.lifetime ∧
      ((c.lifetime ≠ w.lifetime ∧ InPhase w' p) ∨
        (c.lifetime = w.lifetime ∧ p = .finished c.job c.outcome ∧ InPhase w'.release .idle)) := by
  obtain ⟨first, hfirst, hpair⟩ := Option.map_eq_some_iff.mp htake
  obtain ⟨rfl, rfl⟩ := Prod.mk.inj hpair
  refine ⟨rfl, rfl, ?_⟩
  have hposted := List.head?_eq_some_iff.mp hfirst
  obtain ⟨rest, hrest⟩ := hposted
  have htail : w.posted.tail = rest := by rw [hrest, List.tail_cons]
  have hmem : first ∈ w.posted := hrest ▸ List.mem_cons_self
  have hsub : ∀ c ∈ w.posted.tail, c ∈ w.posted := fun c hc => List.mem_of_mem_tail hc
  cases h with
  | idle hbusy hrunning hstale =>
    exact .inl ⟨Nat.ne_of_lt (hstale first hmem), .idle hbusy hrunning fun c hc => hstale c (hsub c hc)⟩
  | running hbusy hrunning hstale =>
    exact .inl ⟨Nat.ne_of_lt (hstale first hmem), .running hbusy hrunning fun c hc => hstale c (hsub c hc)⟩
  | @finished job outcome stale hbusy hrunning hlast hstale =>
    cases stale with
    | nil =>
      rw [List.nil_append, hrest] at hlast
      obtain ⟨rfl, rfl⟩ := List.cons.inj hlast
      refine .inr ⟨rfl, rfl, .idle rfl hrunning ?_⟩
      rw [release, htail]
      exact fun c hc => absurd hc List.not_mem_nil
    | cons old stale =>
      rw [List.cons_append, hrest] at hlast
      obtain ⟨rfl, rfl⟩ := List.cons.inj hlast
      exact .inl ⟨Nat.ne_of_lt (hstale first List.mem_cons_self), .finished hbusy hrunning htail
        fun c hc => hstale c (List.mem_cons_of_mem _ hc)⟩

theorem InPhase.renew (h : InPhase w p) (hrenew : w.renew = some w') : InPhase w' .idle := by
  unfold Worker.renew at hrenew
  split at hrenew
  · next hnone =>
    obtain rfl := Option.some.inj hrenew
    refine .idle rfl (Option.isNone_iff_eq_none.mp hnone) fun c hc => ?_
    cases h with
    | idle _ _ hposted => exact Nat.lt_succ_of_lt (hposted c hc)
    | running _ hrunning => simp [hrunning] at hnone
    | finished _ _ hposted hstale =>
      have hmem : c ∈ _ ++ _ := hposted ▸ hc
      rcases List.mem_append.mp hmem with hmem | hmem
      · exact Nat.lt_succ_of_lt (hstale c hmem)
      · obtain rfl := List.mem_singleton.mp hmem
        exact Nat.lt_succ_self _
  · cases hrenew

end Phases

section Progress

variable {w w' : Worker Job Outcome} {p : Phase Job Outcome}

/-- What is left to do with the jobs of a worker: to finish them and to take their completions. -/
def remaining (w : Worker Job Outcome) : ℕ := 2 * w.running.toList.length + w.posted.length

theorem remaining_finish {outcome : Job → Outcome} (h : w.finish outcome = some w') :
    w'.remaining + 1 = w.remaining := by
  obtain ⟨ticket, hticket, rfl⟩ := Option.map_eq_some_iff.mp h
  simp only [remaining, hticket, Option.toList_none, Option.toList_some, List.length_nil,
    List.length_append, List.length_singleton]
  omega

theorem remaining_take {c : Completion Job Outcome} (h : w.take = some (c, w')) :
    w'.remaining + 1 = w.remaining := by
  obtain ⟨first, hfirst, hpair⟩ := Option.map_eq_some_iff.mp h
  obtain ⟨-, rfl⟩ := Prod.mk.inj hpair
  obtain ⟨rest, hrest⟩ := List.head?_eq_some_iff.mp hfirst
  simp only [remaining, hrest, List.tail_cons, List.length_cons]
  omega

/-- As long as a worker is busy, its thread can end or the event loop can take a completion. -/
theorem InPhase.progress (h : InPhase w p) (hbusy : w.busy = true) (outcome : Job → Outcome) :
    (w.finish outcome).isSome ∨ w.take.isSome := by
  cases h with
  | idle hfalse => exact absurd (hfalse.symm.trans hbusy) Bool.false_ne_true
  | running _ hrunning => exact .inl (by simp [Worker.finish, hrunning])
  | finished _ _ hposted => exact .inr (by simp [Worker.take, hposted])

end Progress

end Worker

end MotifChess.System
