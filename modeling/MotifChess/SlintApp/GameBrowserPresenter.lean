/- GID: MotifChess/SlintApp/GameBrowserPresenter
   generality: implementation
   digest: The game browser presenter: filters, pages, row selection and game activation. -/

import MotifChess.Db.SearchFilter
import MotifChess.Db.Types
import MotifChess.SlintApp.SearchPresenter
import Mathlib.Algebra.Group.Int.Defs
import Mathlib.Algebra.Group.Nat.Defs

set_option autoImplicit false
set_option relaxedAutoImplicit false

namespace MotifChess.SlintApp

open MotifChess.Db

def browserPageSize : ℕ := 100
def browserMinimumColumnWidth : ℤ := 70
def browserMaximumColumnWidth : ℤ := 600
def browserColumnCount : ℕ := 6

inductive BrowserSortColumn
  | white
  | black
  | result
  | event
  | date
  | eco
  deriving DecidableEq

/-- The columns in the order of their indices. -/
def browserSortColumns : List BrowserSortColumn := [.white, .black, .result, .event, .date, .eco]

structure BrowserError where
  code : SearchErrorCode
  message : String
  deriving DecidableEq

/-- An error of the database with the text that came with it. -/
structure DatabaseError where
  code : ErrorCode
  message : String
  deriving DecidableEq

structure BrowserQuery where
  generation : UInt64
  filter : SearchFilter
  deriving DecidableEq

structure BrowserPage (Entry : Type) where
  generation : UInt64
  games : List Entry
  totalCount : ℤ
  pageIndex : ℕ
  deriving DecidableEq

structure ActivationRequest where
  generation : UInt64
  gameId : UInt32
  deriving DecidableEq

structure LoadedGame (Game : Type) where
  generation : UInt64
  gameId : UInt32
  game : Game
  deriving DecidableEq

structure GameBrowserState (Entry Game : Type) where
  games : List Entry := []
  totalCount : ℤ := 0
  pageIndex : ℕ := 0
  hasPreviousPage : Bool := false
  hasNextPage : Bool := false
  selectedRow : Option ℕ := none
  selectedGameId : UInt32 := 0
  hasSelection : Bool := false
  activeGameId : UInt32 := 0
  activeGame : Option Game := none
  sortColumn : BrowserSortColumn := .white
  sortAscending : Bool := true
  playerFilter : String := ""
  resultFilter : String := ""
  errorText : String := ""
  queryGeneration : UInt64 := 0
  activationGeneration : UInt64 := 0
  columnWidths : List ℤ := [145, 145, 85, 170, 105, 70]
  deriving DecidableEq

/-- The database reads of the browser. SQLite keeps a database below 2^48 bytes, and so a count of rows
below that number. -/
structure BrowserReads (Database Entry Game : Type) where
  entryId : Entry → UInt32
  findGames : Database → SearchFilter → Except DatabaseError (List Entry × ℤ)
  get : Database → UInt32 → Except DatabaseError Game
  count_le : ∀ database filter games totalCount,
    findGames database filter = .ok (games, totalCount) → totalCount ≤ 2 ^ 48

def errorCodeName : ErrorCode → String
  | .ok => "ok"
  | .notFound => "not_found"
  | .schemaMismatch => "schema_mismatch"
  | .ioFailure => "io_failure"
  | .duplicate => "duplicate"
  | .notEditable => "not_editable"
  | .invalidArgument => "invalid_argument"

def fromDatabaseError (error : DatabaseError) : BrowserError :=
  ⟨.databaseFailure, if error.message = "" then errorCodeName error.code else error.message⟩

def toDatabaseSort : BrowserSortColumn → GameSortColumn
  | .white => .white
  | .black => .black
  | .result => .result
  | .event => .event
  | .date => .date
  | .eco => .eco

def nonemptyOptional (value : String) : Option String := if value = "" then none else some value

/-- The signed offset of the page after a page, as the machine computes it. -/
def nextOffset (pageIndex : ℕ) : ℤ :=
  Int.bmod (((pageIndex + 1) * browserPageSize % 2 ^ 64 : ℕ) : ℤ) (2 ^ 64)

namespace GameBrowserState

variable {Database Entry Game : Type}

/-- `fail`, and `fail_query`: an argument is refused with a text for the user. -/
def fail {α : Type} (message : String) (s : GameBrowserState Entry Game) :
    GameBrowserState Entry Game × Except BrowserError α :=
  ({ s with errorText := message }, .error ⟨.invalidArgument, message⟩)

/-- `make_query`: a query of a new generation for one page. -/
def makeQuery (pageIndex : ℕ) (s : GameBrowserState Entry Game) :
    GameBrowserState Entry Game × Except BrowserError BrowserQuery :=
  if (2 ^ 64 - 1) / browserPageSize < pageIndex then s.fail "Requested game page is too large"
  else
    let generation := s.queryGeneration + 1
    ({ s with queryGeneration := generation, errorText := "" }, .ok ⟨generation, {
      playerName := nonemptyOptional s.playerFilter
      playerColor := .either
      result := nonemptyOptional s.resultFilter
      offset := pageIndex * browserPageSize % 2 ^ 64
      limit := browserPageSize
      sortColumn := toDatabaseSort s.sortColumn
      sortAscending := s.sortAscending }⟩)

def prepareInitialLoad (s : GameBrowserState Entry Game) :
    GameBrowserState Entry Game × Except BrowserError BrowserQuery := s.makeQuery 0

def setFilters (playerName result : String) (s : GameBrowserState Entry Game) :
    GameBrowserState Entry Game × Except BrowserError BrowserQuery :=
  { s with playerFilter := playerName, resultFilter := result }.makeQuery 0

def sortGames (column : ℕ) (ascending : Bool) (s : GameBrowserState Entry Game) :
    GameBrowserState Entry Game × Except BrowserError BrowserQuery :=
  if browserColumnCount ≤ column then s.fail "Selected sort column is out of range"
  else
    { s with
      sortColumn := browserSortColumns.getD column .white
      sortAscending := ascending }.makeQuery 0

def setPage (pageIndex : ℕ) (s : GameBrowserState Entry Game) :
    GameBrowserState Entry Game × Except BrowserError BrowserQuery :=
  let total := s.totalCount.toNat
  let pageCount := if total = 0 then 1 else (total - 1) / browserPageSize + 1
  if pageCount ≤ pageIndex then s.fail "Requested game page is out of range"
  else s.makeQuery pageIndex

def nextPage (s : GameBrowserState Entry Game) :
    GameBrowserState Entry Game × Except BrowserError BrowserQuery :=
  if s.hasNextPage then s.makeQuery ((s.pageIndex + 1) % 2 ^ 64)
  else s.fail "Already at the last game page"

def previousPage (s : GameBrowserState Entry Game) :
    GameBrowserState Entry Game × Except BrowserError BrowserQuery :=
  if s.hasPreviousPage then s.makeQuery ((s.pageIndex + (2 ^ 64 - 1)) % 2 ^ 64)
  else s.fail "Already at the first game page"

/-- The first row of the shown page with the game of an id. -/
def rowOf (entryId : Entry → UInt32) (gameId : UInt32) (games : List Entry) : Option ℕ :=
  games.findIdx? fun entry => entryId entry = gameId

/-- `apply_query`: a page of the current generation becomes the shown one. -/
def applyQuery (entryId : Entry → UInt32) (page : BrowserPage Entry)
    (s : GameBrowserState Entry Game) : GameBrowserState Entry Game × Bool :=
  if page.generation ≠ s.queryGeneration then (s, false)
  else
    ({ s with
      games := page.games
      totalCount := page.totalCount
      pageIndex := page.pageIndex
      hasPreviousPage := 0 < page.pageIndex
      hasNextPage := 0 < page.totalCount && nextOffset page.pageIndex < page.totalCount
      selectedRow := if s.hasSelection then rowOf entryId s.selectedGameId page.games else none
      errorText := "" }, true)

def applyQueryError (generation : UInt64) (error : BrowserError)
    (s : GameBrowserState Entry Game) : GameBrowserState Entry Game × Bool :=
  if generation ≠ s.queryGeneration then (s, false)
  else ({ s with errorText := error.message }, true)

def selectGame (entryId : Entry → UInt32) (row : ℕ) (s : GameBrowserState Entry Game) :
    GameBrowserState Entry Game × Except BrowserError Unit :=
  match s.games[row]? with
  | none => s.fail "Selected game row is out of range"
  | some entry =>
    ({ s with
      selectedRow := some row
      selectedGameId := entryId entry
      hasSelection := true
      errorText := "" }, .ok ())

/-- The row that a move of the selection ends at. -/
def movedRow (delta : ℤ) (s : GameBrowserState Entry Game) : ℕ :=
  let current := s.selectedRow.getD (if delta < 0 then s.games.length - 1 else 0)
  if delta < 0 then (if current < delta.natAbs then 0 else current - delta.natAbs)
  else min (current + delta.natAbs) (s.games.length - 1)

def moveSelection (entryId : Entry → UInt32) (delta : ℤ) (s : GameBrowserState Entry Game) :
    GameBrowserState Entry Game × Except BrowserError ℕ :=
  if s.games.isEmpty then s.fail "No games are available for selection"
  else
    let moved := s.selectGame entryId (s.movedRow delta)
    (moved.1, moved.2.map fun _ => s.movedRow delta)

def prepareActivation (s : GameBrowserState Entry Game) :
    GameBrowserState Entry Game × Except BrowserError ActivationRequest :=
  if s.hasSelection then
    let generation := s.activationGeneration + 1
    ({ s with activationGeneration := generation, errorText := "" },
      .ok ⟨generation, s.selectedGameId⟩)
  else s.fail "Select a game before activation"

/-- `apply_activation`: the game of the latest activation, as long as it is still selected. -/
def applyActivation (loaded : LoadedGame Game) (s : GameBrowserState Entry Game) :
    GameBrowserState Entry Game × Bool :=
  if loaded.generation ≠ s.activationGeneration || !s.hasSelection ||
      loaded.gameId ≠ s.selectedGameId then (s, false)
  else ({ s with
    activeGameId := loaded.gameId
    activeGame := some loaded.game
    errorText := "" }, true)

def applyActivationError (generation : UInt64) (error : BrowserError)
    (s : GameBrowserState Entry Game) : GameBrowserState Entry Game × Bool :=
  if generation ≠ s.activationGeneration then (s, false)
  else ({ s with errorText := error.message }, true)

def prepareExternalActivation (gameId : UInt32) (s : GameBrowserState Entry Game) :
    GameBrowserState Entry Game × Except BrowserError ActivationRequest :=
  let generation := s.activationGeneration + 1
  ({ s with activationGeneration := generation, errorText := "" }, .ok ⟨generation, gameId⟩)

/-- `apply_external_activation`: the game of the latest activation becomes the selected one too. -/
def applyExternalActivation (entryId : Entry → UInt32) (loaded : LoadedGame Game)
    (s : GameBrowserState Entry Game) : GameBrowserState Entry Game × Bool :=
  if loaded.generation ≠ s.activationGeneration then (s, false)
  else ({ s with
    activeGameId := loaded.gameId
    activeGame := some loaded.game
    selectedGameId := loaded.gameId
    hasSelection := true
    selectedRow := rowOf entryId loaded.gameId s.games
    errorText := "" }, true)

def resizeColumn (column : ℕ) (width : ℤ) (s : GameBrowserState Entry Game) :
    GameBrowserState Entry Game × Except BrowserError Unit :=
  if browserColumnCount ≤ column then s.fail "Selected column is out of range"
  else
    ({ s with
      columnWidths := s.columnWidths.set column
        (max browserMinimumColumnWidth (min width browserMaximumColumnWidth))
      errorText := "" }, .ok ())

def dismissError (s : GameBrowserState Entry Game) : GameBrowserState Entry Game :=
  { s with errorText := "" }

end GameBrowserState

section Execution

variable {Database Entry Game : Type} (reads : BrowserReads Database Entry Game)

def BrowserReads.executeQuery (database : Database) (query : BrowserQuery) :
    Except BrowserError (BrowserPage Entry) :=
  match reads.findGames database query.filter with
  | .error e => .error (fromDatabaseError e)
  | .ok (games, totalCount) =>
    .ok ⟨query.generation, games, totalCount, query.filter.offset / browserPageSize⟩

def BrowserReads.executeActivation (database : Database) (request : ActivationRequest) :
    Except BrowserError (LoadedGame Game) :=
  match reads.get database request.gameId with
  | .error e => .error (fromDatabaseError e)
  | .ok game => .ok ⟨request.generation, request.gameId, game⟩

end Execution

end MotifChess.SlintApp
