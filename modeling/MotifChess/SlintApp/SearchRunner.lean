/- GID: MotifChess/SlintApp/SearchRunner
   generality: implementation
   digest: The runner that executes searches off the event loop, and where it settles. -/

import MotifChess.SlintApp.SearchPresenter
import MotifChess.System.Run
import MotifChess.System.Worker
import Mathlib.Algebra.Group.Nat.Defs

set_option autoImplicit false
set_option relaxedAutoImplicit false

namespace MotifChess.SlintApp

open MotifChess.Db MotifChess.System

variable {Entry Continuation Database : Type}

section Runner

/-- A query with the epoch of the presenter that it was prepared by. -/
structure SearchJob where
  query : SearchQuery
  epoch : ℕ

abbrev SearchOutcome (Entry Continuation : Type) := Except SearchError (SearchPage Entry Continuation)

/-- `async_search_runner::state`, without the window that it publishes to. -/
structure SearchRunner (Entry Continuation : Type) where
  presenter : Option (SearchPresenter Entry Continuation) := none
  worker : Worker SearchJob (SearchOutcome Entry Continuation) := {}
  pendingQuery : Option SearchQuery := none
  lastHash : Option UInt64 := none
  epoch : ℕ := 0

/-- The states of the database that the three reads of a query find. -/
structure Snapshots (Database : Type) where
  games : Database
  firstMatches : Database
  openingStats : Database

variable (reads : Reads Database Entry Continuation)

/-- What the thread of a query does: a failure of the database is tried again once, when that is
allowed. -/
def runJob (once again : Snapshots Database) (retry : Bool) (job : SearchJob) :
    SearchOutcome Entry Continuation :=
  let execute := fun snapshots : Snapshots Database => executeQuery reads snapshots.games
    snapshots.firstMatches snapshots.openingStats job.query
  match execute once with
  | .ok page => .ok page
  | .error e => if e.code = .databaseFailure && retry then execute again else .error e

namespace SearchRunner

section Calls

def attach (startingPositionHash : UInt64) (s : SearchRunner Entry Continuation) :
    SearchRunner Entry Continuation :=
  { s with
    presenter := some { startingPositionHash }
    pendingQuery := none
    lastHash := none
    epoch := s.epoch + 1 }

/-- `detach`, which waits for the thread. -/
def detach (s : SearchRunner Entry Continuation) : Option (SearchRunner Entry Continuation) :=
  s.worker.renew.map fun worker =>
    { presenter := none, worker, pendingQuery := none, lastHash := none, epoch := s.epoch + 1 }

/-- `run_query`: started at once, or kept as the query that follows. -/
def runQuery (query : SearchQuery) (s : SearchRunner Entry Continuation) :
    SearchRunner Entry Continuation :=
  if s.worker.busy then { s with pendingQuery := some query }
  else { s with worker := s.worker.start ⟨query, s.epoch⟩ }

def search (hash : UInt64) (filter : SearchFilter) (s : SearchRunner Entry Continuation) :
    SearchRunner Entry Continuation :=
  match s.presenter with
  | none => s
  | some presenter =>
    let searched := presenter.search hash filter
    let shown := { s with presenter := some searched.1, lastHash := some hash }
    searched.2.elim shown fun query => shown.runQuery query

def searchIfHashChanged (hash : UInt64) (filter : SearchFilter)
    (s : SearchRunner Entry Continuation) : SearchRunner Entry Continuation :=
  match s.presenter with
  | none => s
  | some presenter =>
    if !presenter.state.autoSearch || s.lastHash = some hash then s else s.search hash filter

def setPage (pageIndex : ℕ) (s : SearchRunner Entry Continuation) :
    SearchRunner Entry Continuation :=
  match s.presenter with
  | none => s
  | some presenter =>
    if presenter.state.searching then s
    else
      let filter := presenter.state.activeFilter
      s.search presenter.state.currentHash
        { filter with offset := pageIndex * filter.limit % 2 ^ 64 }

def refreshIfAuto (hash : Option UInt64) (filter : SearchFilter)
    (s : SearchRunner Entry Continuation) : SearchRunner Entry Continuation :=
  match s.presenter with
  | none => s
  | some presenter =>
    if presenter.state.autoSearch then hash.elim s fun hash => s.search hash filter else s

def setAutoSearch (enabled : Bool) (s : SearchRunner Entry Continuation) :
    SearchRunner Entry Continuation :=
  { s with presenter := s.presenter.map fun p =>
      { p with state := { p.state with autoSearch := enabled } } }

def invalidatePositionCache (s : SearchRunner Entry Continuation) :
    SearchRunner Entry Continuation :=
  { s with presenter := s.presenter.map .invalidateStartingPositionCache }

def dismissError (s : SearchRunner Entry Continuation) : SearchRunner Entry Continuation :=
  { s with presenter := s.presenter.map fun p =>
      { p with state := { p.state with errorText := "" } } }

/-- `match_at`. -/
def matchAt (row : ℕ) (s : SearchRunner Entry Continuation) : Option (SearchMatch Entry) :=
  s.presenter.bind fun p => p.state.matchList[row]?

end Calls

section Completions

/-- The outcome of a query, applied to the presenter. -/
def applyOutcome (generation : ℕ) (outcome : SearchOutcome Entry Continuation)
    (p : SearchPresenter Entry Continuation) : SearchPresenter Entry Continuation :=
  match outcome with
  | .ok page => (p.applyQuery page).1
  | .error e => (p.applyQueryError generation e).1

def dispatchPending (s : SearchRunner Entry Continuation) : SearchRunner Entry Continuation :=
  s.pendingQuery.elim s fun query => { s with pendingQuery := none }.runQuery query

/-- `complete_query`. -/
def completeQuery (job : SearchJob) (outcome : SearchOutcome Entry Continuation)
    (s : SearchRunner Entry Continuation) : SearchRunner Entry Continuation :=
  let applied := if s.epoch = job.epoch then
    { s with presenter := s.presenter.map (applyOutcome job.query.generation outcome) } else s
  { applied with worker := applied.worker.release }.dispatchPending

/-- The thread of a query ends. -/
def finish (once again : Snapshots Database) (retry : Bool)
    (s : SearchRunner Entry Continuation) : Option (SearchRunner Entry Continuation) :=
  (s.worker.finish (runJob reads once again retry)).map fun worker => { s with worker }

/-- The event loop takes a completion, which counts in its own lifetime only. -/
def deliver (s : SearchRunner Entry Continuation) : Option (SearchRunner Entry Continuation) :=
  s.worker.take.map fun taken =>
    let left := { s with worker := taken.2 }
    if taken.1.lifetime = s.worker.lifetime then left.completeQuery taken.1.job taken.1.outcome
    else left

end Completions

end SearchRunner

/-- What happens to a search runner, on the event loop and in the background. -/
inductive SearchRunnerAction (Database : Type)
  | attach (startingPositionHash : UInt64)
  | detach
  | search (hash : UInt64) (filter : SearchFilter)
  | searchIfHashChanged (hash : UInt64) (filter : SearchFilter)
  | setPage (pageIndex : ℕ)
  | refreshIfAuto (hash : Option UInt64) (filter : SearchFilter)
  | setAutoSearch (enabled : Bool)
  | invalidatePositionCache
  | dismissError
  | finish (once again : Snapshots Database) (retry : Bool)
  | deliver

def SearchRunner.step (s : SearchRunner Entry Continuation) :
    SearchRunnerAction Database → Option (SearchRunner Entry Continuation)
  | .attach startingPositionHash => some (s.attach startingPositionHash)
  | .detach => s.detach
  | .search hash filter => some (s.search hash filter)
  | .searchIfHashChanged hash filter => some (s.searchIfHashChanged hash filter)
  | .setPage pageIndex => some (s.setPage pageIndex)
  | .refreshIfAuto hash filter => some (s.refreshIfAuto hash filter)
  | .setAutoSearch enabled => some (s.setAutoSearch enabled)
  | .invalidatePositionCache => some s.invalidatePositionCache
  | .dismissError => some s.dismissError
  | .finish once again retry => s.finish reads once again retry
  | .deliver => s.deliver

end Runner

end MotifChess.SlintApp
