/- GID: MotifChess/SlintApp/RunnerEffort
   generality: implementation
   digest: What the calls and the completions of the runners start, and the work that is left after them. -/

import MotifChess.SlintApp.BrowserRunnerRuns
import MotifChess.SlintApp.SearchRunnerRuns

set_option autoImplicit false
set_option relaxedAutoImplicit false

namespace MotifChess.SlintApp

open MotifChess.Db MotifChess.System

variable {Database Entry Game Continuation : Type}

private theorem remaining_start_le {Job Outcome : Type} (w : Worker Job Outcome) (job : Job) :
    (w.start job).remaining ≤ w.remaining + 2 := by
  simp only [Worker.remaining, Worker.start, Option.toList_some, List.length_singleton]
  omega

private theorem running_finish {Job Outcome : Type} {w w' : Worker Job Outcome} {outcome : Job → Outcome}
    (h : w.finish outcome = some w') : w'.running = none := by
  obtain ⟨ticket, -, rfl⟩ := Option.map_eq_some_iff.mp h
  rfl

private theorem running_take {Job Outcome : Type} {w w' : Worker Job Outcome} {c : Completion Job Outcome}
    (h : w.take = some (c, w')) : w'.running = w.running := by
  obtain ⟨first, -, hpair⟩ := Option.map_eq_some_iff.mp h
  obtain ⟨-, rfl⟩ := Prod.mk.inj hpair
  rfl

section Search

namespace SearchRunner

variable {s t u : SearchRunner Entry Continuation} {m n : ℕ}

/-- The steps that are left for the search in flight and for the one that waits. -/
def effort (s : SearchRunner Entry Continuation) : ℕ :=
  s.worker.remaining + 3 * s.pendingQuery.toList.length

/-- A search waits for a presenter only. -/
def Attached (s : SearchRunner Entry Continuation) : Prop :=
  s.pendingQuery.isSome = true → s.presenter.isSome = true

/-- A change by which only searches for the current presenter start, at a bounded cost. -/
structure Grows (s t : SearchRunner Entry Continuation) (cost : ℕ) : Prop where
  epoch : t.epoch = s.epoch
  attached : t.presenter.isSome = s.presenter.isSome
  running : ∀ ticket, t.worker.running = some ticket →
    s.worker.running = some ticket ∨ ticket.job.epoch = s.epoch ∧ s.presenter.isSome = true
  waiting : s.Attached → t.Attached
  effort : t.effort ≤ s.effort + cost

theorem Grows.refl (n : ℕ) : Grows s s n :=
  ⟨rfl, rfl, fun _ hticket => .inl hticket, id, Nat.le_add_right _ _⟩

theorem Grows.trans (hst : Grows s t m) (htu : Grows t u n) : Grows s u (m + n) where
  epoch := htu.epoch.trans hst.epoch
  attached := htu.attached.trans hst.attached
  running ticket hticket := by
    rcases htu.running ticket hticket with hrunning | ⟨hepoch, hattached⟩
    · exact hst.running ticket hrunning
    · exact .inr ⟨hepoch.trans hst.epoch, hst.attached ▸ hattached⟩
  waiting hs := htu.waiting (hst.waiting hs)
  effort := by
    have h := htu.effort
    have h' := hst.effort
    omega

private theorem grows_runQuery (query : SearchQuery) (hattached : s.presenter.isSome = true) :
    Grows s (s.runQuery query) 3 := by
  unfold runQuery
  split
  · refine ⟨rfl, rfl, fun _ hticket => .inl hticket, fun _ _ => hattached, ?_⟩
    simp only [SearchRunner.effort, Option.toList_some, List.length_singleton]
    omega
  · refine ⟨rfl, rfl, fun ticket hticket => .inr ?_, id, ?_⟩
    · obtain rfl := Option.some.inj hticket
      exact ⟨rfl, hattached⟩
    · have h := remaining_start_le s.worker ⟨query, s.epoch⟩
      simp only [SearchRunner.effort]
      omega

theorem grows_search (hash : UInt64) (filter : SearchFilter) : Grows s (s.search hash filter) 3 := by
  unfold search
  split
  next => exact .refl 3
  next p hp =>
    have hsome : s.presenter.isSome = true := by
      rw [hp]
      rfl
    have hshown : Grows s { s with
        presenter := some (p.search hash filter).1, lastHash := some hash } 0 :=
      ⟨rfl, hsome.symm, fun _ hticket => .inl hticket, fun _ _ => rfl, Nat.le_refl _⟩
    dsimp only
    cases (p.search hash filter).2 with
    | none => exact hshown.trans (.refl 3)
    | some query => exact hshown.trans (grows_runQuery query rfl)

theorem grows_searchIfHashChanged (hash : UInt64) (filter : SearchFilter) :
    Grows s (s.searchIfHashChanged hash filter) 3 := by
  unfold searchIfHashChanged
  split
  · exact .refl 3
  · split
    · exact .refl 3
    · exact grows_search hash filter

theorem grows_setPage (pageIndex : ℕ) : Grows s (s.setPage pageIndex) 3 := by
  unfold setPage
  split
  · exact .refl 3
  · split
    · exact .refl 3
    · exact grows_search _ _

theorem grows_refreshIfAuto (hash : Option UInt64) (filter : SearchFilter) :
    Grows s (s.refreshIfAuto hash filter) 3 := by
  unfold refreshIfAuto
  split
  · exact .refl 3
  · split
    · cases hash with
      | none => exact .refl 3
      | some hash => exact grows_search hash filter
    · exact .refl 3

theorem grows_map {f : SearchPresenter Entry Continuation → SearchPresenter Entry Continuation} :
    Grows s { s with presenter := s.presenter.map f } 0 :=
  ⟨rfl, Option.isSome_map, fun _ hticket => .inl hticket,
    fun hs hpending => Option.isSome_map.trans (hs hpending), Nat.le_refl _⟩

theorem grows_finish {reads : Reads Database Entry Continuation} {once again : Snapshots Database}
    {retry : Bool} (h : s.finish reads once again retry = some t) :
    Grows s t 0 ∧ t.effort < s.effort := by
  obtain ⟨worker, hworker, rfl⟩ := Option.map_eq_some_iff.mp h
  have hless := Worker.remaining_finish hworker
  have hnone := running_finish hworker
  have heffort : ({ s with worker } : SearchRunner Entry Continuation).effort < s.effort := by
    simp only [SearchRunner.effort]
    omega
  refine ⟨⟨rfl, rfl, fun ticket hticket => ?_, id, Nat.le_of_lt heffort⟩, heffort⟩
  cases hnone.symm.trans hticket

private theorem grows_dispatchPending (hattached : s.Attached) : Grows s s.dispatchPending 0 := by
  unfold dispatchPending
  cases hpending : s.pendingQuery with
  | none => exact .refl 0
  | some query =>
    have hrun := grows_runQuery (s := { s with pendingQuery := none }) query
      (hattached (by rw [hpending]; rfl))
    refine ⟨hrun.epoch, hrun.attached, hrun.running, fun _ => hrun.waiting fun hnone => ?_, ?_⟩
    · cases hnone
    have heffort := hrun.effort
    have hbefore : s.effort = ({ s with pendingQuery := none } : SearchRunner Entry Continuation).effort +
        3 := by
      simp [SearchRunner.effort, hpending]
    rw [Option.elim_some]
    omega

theorem grows_deliver (hattached : s.Attached) (h : s.deliver = some t) :
    Grows s t 0 ∧ t.effort < s.effort := by
  obtain ⟨⟨completion, worker⟩, htake, rfl⟩ := Option.map_eq_some_iff.mp h
  have hless := Worker.remaining_take htake
  have hsame := running_take htake
  have htaken : ∀ presenter : Option (SearchPresenter Entry Continuation), ∀ busy : Bool,
      presenter.isSome = s.presenter.isSome →
        Grows s { s with presenter, worker := { worker with busy } } 0 ∧
          ({ s with presenter, worker := { worker with busy } } :
            SearchRunner Entry Continuation).effort < s.effort := by
    intro presenter busy hpresenter
    have heffort : ({ s with presenter, worker := { worker with busy } } :
        SearchRunner Entry Continuation).effort < s.effort := by
      simp only [SearchRunner.effort, Worker.remaining] at hless ⊢
      omega
    refine ⟨⟨rfl, hpresenter, fun ticket hticket => .inl (hsame ▸ hticket), fun hs hpending => ?_,
      Nat.le_of_lt heffort⟩, heffort⟩
    exact hpresenter.trans (hs hpending)
  dsimp only
  split
  next =>
    have hcomplete : ({ s with worker } : SearchRunner Entry Continuation).completeQuery
        completion.job completion.outcome = dispatchPending { s with
          presenter := if s.epoch = completion.job.epoch then
            s.presenter.map (applyOutcome completion.job.query.generation completion.outcome)
            else s.presenter
          worker := { worker with busy := false } } := by
      unfold completeQuery
      dsimp only
      split
      · rfl
      · rfl
    rw [hcomplete]
    have hmap : (if s.epoch = completion.job.epoch then
        s.presenter.map (applyOutcome completion.job.query.generation completion.outcome)
        else s.presenter).isSome = s.presenter.isSome := by
      split
      · exact Option.isSome_map
      · rfl
    obtain ⟨hgrows, heffort⟩ := htaken _ false hmap
    have hdispatch := grows_dispatchPending (hgrows.waiting hattached)
    exact ⟨hgrows.trans hdispatch, Nat.lt_of_le_of_lt hdispatch.effort heffort⟩
  next => exact htaken s.presenter worker.busy rfl

end SearchRunner

end Search

section Browser

namespace BrowserRunner

variable {reads : BrowserReads Database Entry Game} {s t u : BrowserRunner Entry Game} {m n : ℕ}

/-- The steps that are left for the request in flight, for those that wait and for the searches that
their games may start. -/
def effort (s : BrowserRunner Entry Game) : ℕ :=
  5 * s.worker.remaining + 11 * (s.pendingQuery.toList.length + s.pendingActivation.toList.length +
    s.pendingExternalActivation.toList.length)

/-- Requests wait for the current presenter only. -/
structure Attached (s : BrowserRunner Entry Game) : Prop where
  presenter : s.pendingQuery.isSome = true ∨ s.pendingActivation.isSome = true →
    s.presenter.isSome = true
  external : ∀ pending, s.pendingExternalActivation = some pending → pending.epoch = s.epoch

theorem Sound.attached {phase : Worker.Phase BrowserJob (BrowserOutcome Entry Game)}
    (h : Sound reads s phase) : Attached s where
  presenter hpending := by
    rw [Option.isSome_iff_ne_none]
    intro hnone
    obtain ⟨hquery, hwaiting⟩ := h.absent hnone
    rw [hquery, (waitingActivation_eq_none.mp hwaiting).2] at hpending
    simp at hpending
  external := h.external

/-- A change by which only requests for the current presenter start, at a bounded cost. -/
structure Grows (s t : BrowserRunner Entry Game) (cost : ℕ) : Prop where
  epoch : t.epoch = s.epoch
  attached : t.presenter.isSome = s.presenter.isSome
  running : ∀ ticket, t.worker.running = some ticket →
    s.worker.running = some ticket ∨ ticket.job.epoch = s.epoch ∧ s.presenter.isSome = true
  effort : t.effort ≤ s.effort + cost

theorem Grows.refl (n : ℕ) : Grows s s n :=
  ⟨rfl, rfl, fun _ hticket => .inl hticket, Nat.le_add_right _ _⟩

theorem Grows.trans (hst : Grows s t m) (htu : Grows t u n) : Grows s u (m + n) where
  epoch := htu.epoch.trans hst.epoch
  attached := htu.attached.trans hst.attached
  running ticket hticket := by
    rcases htu.running ticket hticket with hrunning | ⟨hepoch, hattached⟩
    · exact hst.running ticket hrunning
    · exact .inr ⟨hepoch.trans hst.epoch, hst.attached ▸ hattached⟩
  effort := by
    have h := htu.effort
    have h' := hst.effort
    omega

private theorem grows_show (p : GameBrowserState Entry Game) (log : BrowserLog Entry Game)
    (hattached : s.presenter.isSome = true) : Grows s { s with presenter := some p, log } 0 :=
  ⟨rfl, hattached.symm, fun _ hticket => .inl hticket, Nat.le_refl _⟩

private theorem grows_start (request : BrowserRequest) (hattached : s.presenter.isSome = true) :
    Grows s { s with worker := s.worker.start ⟨request, s.epoch⟩ } 11 := by
  refine ⟨rfl, rfl, fun ticket hticket => .inr ?_, ?_⟩
  · obtain rfl := Option.some.inj hticket
    exact ⟨rfl, hattached⟩
  · have h := remaining_start_le s.worker ⟨request, s.epoch⟩
    simp only [BrowserRunner.effort]
    omega

private theorem grows_runQuery (query : BrowserQuery) (hattached : s.presenter.isSome = true) :
    Grows s (s.runQuery query s.epoch) 11 := by
  unfold runQuery
  split
  · refine ⟨rfl, rfl, fun _ hticket => .inl hticket, ?_⟩
    simp only [BrowserRunner.effort, Option.toList_some, Option.toList_none, List.length_singleton,
      List.length_nil]
    omega
  · exact grows_start _ hattached

private theorem grows_runActivation (request : ActivationRequest) (hattached : s.presenter.isSome = true) :
    Grows s (s.runActivation request s.epoch) 11 := by
  unfold runActivation
  split
  · refine ⟨rfl, rfl, fun _ hticket => .inl hticket, ?_⟩
    simp only [BrowserRunner.effort, Option.toList_some, Option.toList_none, List.length_singleton,
      List.length_nil]
    omega
  · exact grows_start _ hattached

private theorem grows_runExternalActivation (request : ActivationRequest) (ply : ℕ)
    (hattached : s.presenter.isSome = true) :
    Grows s (s.runExternalActivation request ply s.epoch) 11 := by
  unfold runExternalActivation
  split
  · refine ⟨rfl, rfl, fun _ hticket => .inl hticket, ?_⟩
    simp only [BrowserRunner.effort, Option.toList_some, List.length_singleton]
    omega
  · exact grows_start _ hattached

theorem grows_prepareQuery (call : QueryCall) : Grows s (s.prepareQuery call) 11 := by
  unfold prepareQuery
  split
  next => exact .refl 11
  next p hp =>
    have hsome : s.presenter.isSome = true := by
      rw [hp]
      rfl
    dsimp only
    split
    · exact (grows_show _ _ hsome).trans (.refl 11)
    · exact (grows_show _ _ hsome).trans (grows_runQuery _ rfl)

theorem grows_activate : Grows s s.activate 11 := by
  unfold activate
  split
  next => exact .refl 11
  next p hp =>
    have hsome : s.presenter.isSome = true := by
      rw [hp]
      rfl
    dsimp only
    split
    · exact (grows_show _ _ hsome).trans (.refl 11)
    · exact (grows_show _ _ hsome).trans (grows_runActivation _ rfl)

private theorem grows_prepareExternal (gameId : UInt32) (ply : ℕ) {p : GameBrowserState Entry Game}
    (hp : s.presenter = some p) : Grows s (s.prepareExternal gameId ply s.epoch p) 11 := by
  have hsome : s.presenter.isSome = true := by
    rw [hp]
    rfl
  exact (grows_show _ _ hsome).trans (grows_runExternalActivation _ ply rfl)

theorem grows_activateById (gameId : UInt32) (ply : ℕ) : Grows s (s.activateById gameId ply) 11 := by
  unfold activateById
  split
  next => exact .refl 11
  next p hp =>
    dsimp only
    split
    · refine ⟨rfl, rfl, fun _ hticket => .inl hticket, ?_⟩
      simp only [BrowserRunner.effort, noteActivation, Option.toList_some, List.length_singleton]
      omega
    · have hnoted : Grows s (s.noteActivation (.byId gameId ply)) 0 :=
        ⟨rfl, rfl, fun _ hticket => .inl hticket, Nat.le_refl _⟩
      exact hnoted.trans (grows_prepareExternal gameId ply hp)

theorem grows_map {f : GameBrowserState Entry Game → GameBrowserState Entry Game} :
    Grows s { s with presenter := s.presenter.map f } 0 :=
  ⟨rfl, Option.isSome_map, fun _ hticket => .inl hticket, Nat.le_refl _⟩

theorem grows_finish {database : Database} (h : s.finish reads database = some t) :
    Grows s t 0 ∧ t.effort < s.effort := by
  obtain ⟨worker, hworker, rfl⟩ := Option.map_eq_some_iff.mp h
  have hless := Worker.remaining_finish hworker
  have hnone := running_finish hworker
  have heffort : ({ s with worker } : BrowserRunner Entry Game).effort < s.effort := by
    simp only [BrowserRunner.effort]
    omega
  refine ⟨⟨rfl, rfl, fun ticket hticket => ?_, Nat.le_of_lt heffort⟩, heffort⟩
  cases hnone.symm.trans hticket

private theorem Grows.of_less (h : Grows t u 11) (hepoch : t.epoch = s.epoch)
    (hpresenter : t.presenter = s.presenter) (hworker : t.worker = s.worker)
    (heffort : t.effort + 11 = s.effort) : Grows s u 0 where
  epoch := h.epoch.trans hepoch
  attached := h.attached.trans (congrArg Option.isSome hpresenter)
  running := by
    rw [← hworker, ← hepoch, ← hpresenter]
    exact h.running
  effort := by
    rw [Nat.add_zero, ← heffort]
    exact h.effort

private theorem grows_dispatchPending (h : Attached s) : Grows s s.dispatchPending 0 := by
  unfold dispatchPending
  split
  next query hquery =>
    have hattached := h.presenter (.inl (by rw [hquery]; rfl))
    refine (grows_runQuery (s := { s with pendingQuery := none }) query hattached).of_less rfl rfl rfl ?_
    simp only [BrowserRunner.effort, hquery, Option.toList_some, Option.toList_none,
      List.length_singleton, List.length_nil]
    omega
  next request _ hactivation =>
    have hattached := h.presenter (.inr (by rw [hactivation]; rfl))
    refine (grows_runActivation (s := { s with pendingActivation := none }) request hattached).of_less
      rfl rfl rfl ?_
    simp only [BrowserRunner.effort, hactivation, Option.toList_some, Option.toList_none,
      List.length_singleton, List.length_nil]
    omega
  next pending p _ _ hexternal hp =>
    rw [h.external pending hexternal]
    refine (grows_prepareExternal (s := { s with pendingExternalActivation := none }) pending.gameId
      pending.ply hp).of_less rfl rfl rfl ?_
    simp only [BrowserRunner.effort, hexternal, Option.toList_some, Option.toList_none,
      List.length_singleton, List.length_nil]
    omega
  next => exact .refl 0

variable (reads) in
private theorem apply_presenter (job : BrowserJob) (outcome : BrowserOutcome Entry Game) :
    ∃ presenter log, (s.apply reads job outcome).1 = { s with presenter, log } ∧
      presenter.isSome = s.presenter.isSome := by
  unfold BrowserRunner.apply
  split
  next hp _ => exact ⟨_, _, rfl, by rw [hp]; rfl⟩
  next hp _ => exact ⟨_, _, rfl, by rw [hp]; rfl⟩
  next hp _ => exact ⟨_, _, rfl, by rw [hp]; rfl⟩
  next => exact ⟨s.presenter, s.log, rfl, rfl⟩

theorem grows_deliver (hattached : Attached s) {event : Option (BrowserEvent Game)}
    (h : s.deliver reads = some (t, event)) : Grows s t 0 ∧ t.effort + 5 ≤ s.effort := by
  obtain ⟨⟨completion, worker⟩, htake, hdelivered⟩ := Option.map_eq_some_iff.mp h
  have hless := Worker.remaining_take htake
  have hsame := running_take htake
  have htaken : ∀ (presenter : Option (GameBrowserState Entry Game)) (log : BrowserLog Entry Game)
      (busy : Bool), presenter.isSome = s.presenter.isSome →
        Grows s { s with presenter, log, worker := { worker with busy } } 0 ∧
          ({ s with presenter, log, worker := { worker with busy } } :
            BrowserRunner Entry Game).effort + 5 ≤ s.effort := by
    intro presenter log busy hpresenter
    have heffort : ({ s with presenter, log, worker := { worker with busy } } :
        BrowserRunner Entry Game).effort + 5 ≤ s.effort := by
      simp only [BrowserRunner.effort, Worker.remaining] at hless ⊢
      omega
    exact ⟨⟨rfl, hpresenter, fun ticket hticket => .inl (hsame ▸ hticket), by omega⟩, heffort⟩
  dsimp only at hdelivered
  split at hdelivered
  next =>
    obtain ⟨presenter, log, hcomplete, hpresenter⟩ : ∃ presenter log,
        ({ s with worker } : BrowserRunner Entry Game).complete reads completion.job completion.outcome =
          (dispatchPending { s with presenter, log, worker := { worker with busy := false } },
            event) ∧ presenter.isSome = s.presenter.isSome := by
      rw [hdelivered]
      unfold BrowserRunner.complete at hdelivered
      dsimp only at hdelivered
      obtain ⟨hstate, hevent⟩ := Prod.mk.inj hdelivered
      split at hstate
      · obtain ⟨presenter, log, happly, hpresenter⟩ := apply_presenter reads
          (s := { s with worker }) completion.job completion.outcome
        rw [happly] at hstate
        exact ⟨presenter, log, by rw [← hstate]; rfl, hpresenter⟩
      · exact ⟨s.presenter, s.log, by rw [← hstate]; rfl, rfl⟩
    rw [hcomplete] at hdelivered
    obtain ⟨rfl, -⟩ := Prod.mk.inj hdelivered
    obtain ⟨hgrows, heffort⟩ := htaken presenter log false hpresenter
    have hreleased : Attached ({ s with presenter, log, worker := { worker with busy := false } } :
        BrowserRunner Entry Game) :=
      ⟨fun hpending => hpresenter.trans (hattached.presenter hpending), hattached.external⟩
    have hdispatch := grows_dispatchPending hreleased
    have hbound := hdispatch.effort
    exact ⟨hgrows.trans hdispatch, by omega⟩
  next =>
    obtain ⟨rfl, -⟩ := Prod.mk.inj hdelivered
    exact htaken s.presenter s.log worker.busy rfl

end BrowserRunner

end Browser

end MotifChess.SlintApp
