/- GID: MotifChess/SlintApp/SearchPresenter
   generality: implementation
   digest: The search presenter: requests, background reads, deliveries and the cached page. -/

import MotifChess.Db.SearchFilter
import MotifChess.Db.Types

set_option autoImplicit false
set_option relaxedAutoImplicit false

namespace MotifChess.SlintApp

open MotifChess.Db

inductive SearchErrorCode
  | databaseFailure
  | searchFailure
  | invalidArgument
  deriving DecidableEq

structure SearchError where
  code : SearchErrorCode
  message : String
  deriving DecidableEq

/-- One matching game and the ply at which it reaches the position. -/
structure SearchMatch (Entry : Type) where
  game : Entry
  ply : UInt16
  deriving DecidableEq

structure SearchQuery where
  generation : ℕ
  hash : UInt64
  filter : SearchFilter
  deriving DecidableEq

structure OpeningStats (Continuation : Type) where
  continuations : List Continuation
  totalGames : ℕ
  deriving DecidableEq

structure SearchPage (Entry Continuation : Type) where
  generation : ℕ
  hash : UInt64
  matchList : List (SearchMatch Entry)
  totalMatches : ℤ
  continuations : OpeningStats Continuation
  filter : SearchFilter
  deriving DecidableEq

/-- The state of the panel. The 64 bits of its generation, which every search counts up by one, do not
run out. -/
structure SearchState (Entry Continuation : Type) where
  currentHash : UInt64 := 0
  matchList : List (SearchMatch Entry) := []
  totalMatches : ℤ := 0
  pageIndex : ℕ := 0
  hasPreviousPage : Bool := false
  hasNextPage : Bool := false
  continuations : List Continuation := []
  totalGames : ℤ := 0
  activeFilter : SearchFilter := {}
  searching : Bool := false
  autoSearch : Bool := true
  errorText : String := ""
  queryGeneration : ℕ := 0
  deriving DecidableEq

/-- The presenter's state, and the cached page of the starting position. -/
structure SearchPresenter (Entry Continuation : Type) where
  state : SearchState Entry Continuation := {}
  startingPositionHash : UInt64
  startingPositionCache : Option (SearchPage Entry Continuation) := none
  deriving DecidableEq

variable {Entry Continuation Database : Type}

/-- The database reads that a query makes, one after the other. -/
structure Reads (Database Entry Continuation : Type) where
  gameId : Entry → UInt32
  findGames : Database → SearchFilter → Except SearchError (List Entry × ℤ)
  firstMatches : Database → UInt64 → List UInt32 → Except SearchError (List PositionMatch)
  openingStats : Database → UInt64 → SearchFilter → Except SearchError (OpeningStats Continuation)

namespace SearchPresenter

/-- Whether a page is one that the presenter keeps in its cache. -/
def cacheable (p : SearchPresenter Entry Continuation) (page : SearchPage Entry Continuation) : Bool :=
  page.hash = p.startingPositionHash && !page.filter.hasMetadataFilter

/-- `apply_query`: a page of the current generation becomes the shown one. -/
def applyQuery (page : SearchPage Entry Continuation) (p : SearchPresenter Entry Continuation) :
    SearchPresenter Entry Continuation × Bool :=
  if page.generation ≠ p.state.queryGeneration then (p, false)
  else
    let nextOffset := page.filter.offset + page.matchList.length
    ({ p with
        startingPositionCache := if p.cacheable page then some page else p.startingPositionCache
        state := { p.state with
          currentHash := page.hash
          matchList := page.matchList
          totalMatches := page.totalMatches
          pageIndex := if page.filter.limit = 0 then 0 else page.filter.offset / page.filter.limit
          hasPreviousPage := 0 < page.filter.offset
          hasNextPage := 0 < page.totalMatches && nextOffset < page.totalMatches
          totalGames := page.continuations.totalGames
          continuations := page.continuations.continuations
          activeFilter := page.filter
          searching := false
          errorText := "" } }, true)

def applyQueryError (generation : ℕ) (error : SearchError)
    (p : SearchPresenter Entry Continuation) : SearchPresenter Entry Continuation × Bool :=
  if generation ≠ p.state.queryGeneration then (p, false)
  else ({ p with state := { p.state with searching := false, errorText := error.message } }, true)

def invalidateStartingPositionCache (p : SearchPresenter Entry Continuation) :
    SearchPresenter Entry Continuation := { p with startingPositionCache := none }

/-- The cached page, when it answers a search. -/
def cacheHit (hash : UInt64) (filter : SearchFilter) (p : SearchPresenter Entry Continuation) :
    Option (SearchPage Entry Continuation) :=
  p.startingPositionCache.filter fun cached =>
    hash = p.startingPositionHash && !filter.hasMetadataFilter &&
      filter.offset = cached.filter.offset && filter.limit = cached.filter.limit &&
      filter.sortColumn = cached.filter.sortColumn &&
      filter.sortAscending = cached.filter.sortAscending

/-- `search`: served from the cache, or a query of a new generation to run in the background. -/
def search (hash : UInt64) (filter : SearchFilter) (p : SearchPresenter Entry Continuation) :
    SearchPresenter Entry Continuation × Option SearchQuery :=
  let filter := { filter with position := some hash }
  let generation := p.state.queryGeneration + 1
  match p.cacheHit hash filter with
  | some cached =>
    let p := { p with state := { p.state with queryGeneration := generation } }
    ((p.applyQuery { cached with generation, filter }).1, none)
  | none =>
    ({ p with state := { p.state with
        queryGeneration := generation
        matchList := []
        totalMatches := 0
        pageIndex := 0
        hasPreviousPage := false
        hasNextPage := false
        continuations := []
        totalGames := 0
        activeFilter := filter
        errorText := ""
        searching := true
        currentHash := hash } }, some ⟨generation, hash, filter⟩)

end SearchPresenter

section Execution

/-- How far the background execution of a query has come. -/
inductive Stage (Entry Continuation : Type)
  | started
  | listed (games : List Entry) (totalMatches : ℤ)
  | joined (matchList : List (SearchMatch Entry)) (totalMatches : ℤ)
  | done (result : Except SearchError (SearchPage Entry Continuation))

def resultsChanged : SearchError :=
  ⟨.databaseFailure, "Position results changed while search metadata was loaded."⟩

/-- Every listed game with the ply of its first match. -/
def joinMatches (reads : Reads Database Entry Continuation) (games : List Entry)
    (found : List PositionMatch) : Except SearchError (List (SearchMatch Entry)) :=
  if found.length ≠ games.length then .error resultsChanged
  else games.mapM fun game =>
    match found.find? fun m => m.gameId = reads.gameId game with
    | none => .error resultsChanged
    | some m => .ok ⟨game, m.ply⟩

/-- `execute_query`, one database read at a time. -/
def Stage.next (reads : Reads Database Entry Continuation) (database : Database)
    (query : SearchQuery) : Stage Entry Continuation → Stage Entry Continuation
  | .started =>
    match reads.findGames database query.filter with
    | .error e => .done (.error e)
    | .ok (games, totalMatches) => .listed games totalMatches
  | .listed games totalMatches =>
    match reads.firstMatches database query.hash (games.map reads.gameId) with
    | .error e => .done (.error e)
    | .ok found =>
      match joinMatches reads games found with
      | .error e => .done (.error e)
      | .ok matchList => .joined matchList totalMatches
  | .joined matchList totalMatches =>
    match reads.openingStats database query.hash query.filter with
    | .error e => .done (.error e)
    | .ok continuations => .done (.ok
        ⟨query.generation, query.hash, matchList, totalMatches, continuations, query.filter⟩)
  | .done result => .done result

/-- `execute_query` as a whole, where each of the three reads finds the database in a state of its
own. -/
def executeQuery (reads : Reads Database Entry Continuation) (first second third : Database)
    (query : SearchQuery) : Except SearchError (SearchPage Entry Continuation) := do
  let games ← reads.findGames first query.filter
  let found ← reads.firstMatches second query.hash (games.1.map reads.gameId)
  let matchList ← joinMatches reads games.1 found
  let continuations ← reads.openingStats third query.hash query.filter
  return ⟨query.generation, query.hash, matchList, games.2, continuations, query.filter⟩

theorem staged_eq_executeQuery (reads : Reads Database Entry Continuation) (first second third : Database)
    (query : SearchQuery) :
    ((Stage.started.next reads first query).next reads second query).next reads third query =
      .done (executeQuery reads first second third query) := by
  unfold executeQuery
  rw [Stage.next]
  cases reads.findGames first query.filter with
  | error e => rfl
  | ok games =>
    rw [Stage.next]
    change _ = Stage.done (reads.firstMatches second query.hash (games.1.map reads.gameId) >>= _)
    cases reads.firstMatches second query.hash (games.1.map reads.gameId) with
    | error e => rfl
    | ok found =>
      change _ = Stage.done (joinMatches reads games.1 found >>= _)
      dsimp only
      cases joinMatches reads games.1 found with
      | error e => rfl
      | ok matchList =>
        change _ = Stage.done (reads.openingStats third query.hash query.filter >>= _)
        dsimp only
        rw [Stage.next]
        cases reads.openingStats third query.hash query.filter with
        | error e => rfl
        | ok continuations => rfl

private theorem exists_of_bind_ok {α β : Type} {x : Except SearchError α}
    {f : α → Except SearchError β} {b : β} (h : (x >>= f) = .ok b) :
    ∃ a, x = .ok a ∧ f a = .ok b := by
  cases x with
  | error e => cases h
  | ok a => exact ⟨a, rfl, h⟩

theorem executeQuery_ok {reads : Reads Database Entry Continuation} {first second third : Database}
    {query : SearchQuery} {page : SearchPage Entry Continuation}
    (h : executeQuery reads first second third query = .ok page) :
    page.generation = query.generation ∧ page.hash = query.hash ∧ page.filter = query.filter := by
  obtain ⟨games, -, h⟩ := exists_of_bind_ok h
  obtain ⟨found, -, h⟩ := exists_of_bind_ok h
  obtain ⟨matchList, -, h⟩ := exists_of_bind_ok h
  obtain ⟨continuations, -, h⟩ := exists_of_bind_ok h
  obtain rfl := Except.ok.inj h
  exact ⟨rfl, rfl, rfl⟩

end Execution

end MotifChess.SlintApp
