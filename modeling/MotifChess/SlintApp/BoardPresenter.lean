/- GID: MotifChess/SlintApp/BoardPresenter
   generality: implementation
   digest: The board presenter: a loaded game, its current position and the highlighted squares. -/

import MotifChess.Navigator.GameNavigator
import MotifChess.SlintApp.SearchPresenter
import MotifChess.SlintApp.SquaresFromFen

set_option autoImplicit false
set_option relaxedAutoImplicit false

namespace MotifChess.SlintApp

open MotifChess.Db MotifChess.Navigator

section Squares

/-- A square, which by its type is on the board. -/
structure BoardSquare where
  file : Fin 8
  rank : Fin 8
  deriving DecidableEq

def algebraicFromSquare (square : BoardSquare) : String :=
  String.ofList [Char.ofNat ('a'.toNat + square.file), Char.ofNat ('1'.toNat + square.rank)]

/-- `square_from_algebraic`: a file from a to h and a rank from 1 to 8, and nothing else. -/
def squareFromAlgebraic (value : String) : Option BoardSquare :=
  match value.toList with
  | [file, rank] =>
    if h : (97 ≤ file.toNat ∧ file.toNat ≤ 104) ∧ 49 ≤ rank.toNat ∧ rank.toNat ≤ 56 then
      some ⟨⟨file.toNat - 97, by omega⟩, ⟨rank.toNat - 49, by omega⟩⟩
    else none
  | _ => none

/-- `index_of`: the place of a square in the flat lists of the board. -/
def BoardSquare.index (square : BoardSquare) : ℕ :=
  square.rank * boardDimension + square.file

private theorem BoardSquare.index_lt (square : BoardSquare) :
    square.index < boardDimension * boardDimension := by
  unfold index boardDimension
  omega

private theorem BoardSquare.index_inj {square other : BoardSquare} :
    square.index = other.index ↔ square = other := by
  constructor
  · intro h
    cases square
    cases other
    unfold index boardDimension at h
    dsimp only at h
    rw [BoardSquare.mk.injEq]
    omega
  · rintro rfl
    rfl

inductive SquareHighlight
  | none
  | selected
  | legalTarget
  | lastMoveFrom
  | lastMoveTo
  deriving DecidableEq

end Squares

structure BoardError where
  code : SearchErrorCode
  message : String
  deriving DecidableEq

structure BoardState where
  loaded : Bool := false
  gameId : UInt32 := 0
  fen : String := ""
  currentHash : Option UInt64 := none
  squarePieces : List String := []
  squareHighlights : List SquareHighlight := []
  currentPly : ℕ := 0
  totalPlies : ℕ := 0
  sanMoves : List String := []
  currentSan : String := ""
  whiteName : String := ""
  blackName : String := ""
  result : String := ""
  eventName : String := ""
  date : String := ""
  errorText : String := ""
  orientationFlipped : Bool := false
  panelVisible : Bool := true
  selectedSquare : Option BoardSquare := none
  lastMoveFrom : Option BoardSquare := none
  lastMoveTo : Option BoardSquare := none
  legalTargets : List BoardSquare := []
  loadGeneration : UInt64 := 0
  deriving DecidableEq

structure BoardPresenter where
  navigator : GameNavigator := {}
  state : BoardState := {}
  deriving DecidableEq

section Highlights

def unmarked : List SquareHighlight := List.replicate (boardDimension * boardDimension) .none

def mark (highlight : SquareHighlight) (squares : List SquareHighlight) (square : BoardSquare) :
    List SquareHighlight := squares.set square.index highlight

/-- The highlights of `refresh_highlights`, of which later ones replace earlier ones. -/
def highlights (lastMoveFrom lastMoveTo : Option BoardSquare) (legalTargets : List BoardSquare)
    (selectedSquare : Option BoardSquare) : List SquareHighlight :=
  let squares := lastMoveFrom.toList.foldl (mark .lastMoveFrom) unmarked
  let squares := lastMoveTo.toList.foldl (mark .lastMoveTo) squares
  let squares := legalTargets.foldl (mark .legalTarget) squares
  selectedSquare.toList.foldl (mark .selected) squares

private theorem length_foldl_mark {highlight : SquareHighlight} {marked : List BoardSquare}
    {squares : List SquareHighlight} :
    (marked.foldl (mark highlight) squares).length = squares.length := by
  induction marked generalizing squares with
  | nil => rfl
  | cons square marked ih => rw [List.foldl_cons, ih, mark, List.length_set]

private theorem getElem?_foldl_mark {highlight : SquareHighlight} {marked : List BoardSquare}
    {squares : List SquareHighlight} (hlength : squares.length = boardDimension * boardDimension)
    (square : BoardSquare) :
    (marked.foldl (mark highlight) squares)[square.index]? =
      if square ∈ marked then some highlight else squares[square.index]? := by
  induction marked generalizing squares with
  | nil => rw [List.foldl_nil, if_neg List.not_mem_nil]
  | cons first marked ih =>
    have hmark : (mark highlight squares first).length = boardDimension * boardDimension :=
      List.length_set.trans hlength
    rw [List.foldl_cons, ih hmark, mark, List.getElem?_set, hlength, if_pos first.index_lt]
    by_cases hfirst : first = square
    · subst hfirst
      rw [if_pos rfl, ite_self, if_pos List.mem_cons_self]
    · have hindex : ¬first.index = square.index := fun heq =>
        hfirst (BoardSquare.index_inj.mp heq)
      have hne : ¬square = first := fun heq => hfirst heq.symm
      simp only [hindex, if_false, List.mem_cons, hne, false_or]

/-- What a square shows: a selection before a legal target, and a legal target before the squares of
the last move. -/
theorem getElem?_highlights (lastMoveFrom lastMoveTo : Option BoardSquare)
    (legalTargets : List BoardSquare) (selectedSquare : Option BoardSquare) (square : BoardSquare) :
    (highlights lastMoveFrom lastMoveTo legalTargets selectedSquare)[square.index]? = some (
      if selectedSquare = some square then .selected
      else if square ∈ legalTargets then .legalTarget
      else if lastMoveTo = some square then .lastMoveTo
      else if lastMoveFrom = some square then .lastMoveFrom
      else .none) := by
  have hunmarked : unmarked.length = boardDimension * boardDimension := List.length_replicate
  have hplain : unmarked[square.index]? = some .none :=
    List.getElem?_replicate_of_lt square.index_lt
  unfold highlights
  rw [getElem?_foldl_mark (by simp only [length_foldl_mark, hunmarked]),
    getElem?_foldl_mark (by simp only [length_foldl_mark, hunmarked]),
    getElem?_foldl_mark (by simp only [length_foldl_mark, hunmarked]),
    getElem?_foldl_mark hunmarked, hplain]
  simp only [Option.mem_toList]
  split_ifs <;> rfl

def BoardState.refreshHighlights (s : BoardState) : BoardState :=
  { s with squareHighlights :=
      highlights s.lastMoveFrom s.lastMoveTo s.legalTargets s.selectedSquare }

end Highlights

namespace BoardPresenter

variable (library : Chess.Library)

section Helpers

/-- `reset_game_state`. -/
def resetGameState (generation : UInt64) (panelVisible : Bool) (p : BoardPresenter) :
    BoardPresenter :=
  { p with state := {
      squarePieces := List.replicate (boardDimension * boardDimension) ""
      squareHighlights := unmarked
      currentHash := p.navigator.currentHash library
      loadGeneration := generation
      panelVisible := panelVisible } }

/-- `load_game_state`. -/
def loadGameState (gameId : UInt32) (game : Game) (p : BoardPresenter) : BoardPresenter where
  navigator := GameNavigator.load game
  state := { p.state with
    loaded := true
    gameId := gameId
    whiteName := game.white.name
    blackName := game.black.name
    result := game.result
    eventName := game.eventDetails.elim "" Event.name
    date := game.date.getD ""
    errorText := "" }

def clearSelection (p : BoardPresenter) : BoardPresenter :=
  { p with state :=
      { p.state with selectedSquare := none, legalTargets := [] }.refreshHighlights }

/-- `refresh_navigation`. -/
def refreshNavigation (refreshMoveList : Bool) (p : BoardPresenter) : BoardPresenter :=
  let fen := p.navigator.currentFen library
  let shown : BoardPresenter := { p with state := { p.state with
    currentPly := p.navigator.ply
    totalPlies := p.navigator.moves.length
    fen := fen
    currentHash := p.navigator.currentHash library
    squarePieces := squaresFromFen fen
    currentSan := p.navigator.currentSan library
    sanMoves := if refreshMoveList then p.navigator.moveList library else p.state.sanMoves } }
  let cleared := shown.clearSelection
  let last := p.navigator.lastMove library
  { cleared with state := { cleared.state with
      lastMoveFrom := last.bind fun info => squareFromAlgebraic info.fromSquare
      lastMoveTo := last.bind fun info => squareFromAlgebraic info.toSquare }.refreshHighlights }

def fail (message : String) (p : BoardPresenter) : BoardPresenter × Except BoardError Unit :=
  ({ p with state := { p.state with errorText := message } },
    .error ⟨.invalidArgument, message⟩)

/-- The targets of the legal moves from a square, in the position that a text says. -/
def targetsFrom (fen : String) (square : BoardSquare) : List BoardSquare :=
  (library.parseFen fen).elim [] fun position =>
    ((library.legalMoves position).filter fun info =>
      info.fromSquare = algebraicFromSquare square).filterMap fun info =>
        squareFromAlgebraic info.toSquare

end Helpers

section Operations

/-- The constructor of the presenter. -/
def initial : BoardPresenter := resetGameState library 0 true {}

def applyLoadedGame (gameId : UInt32) (game : Game) (p : BoardPresenter) : BoardPresenter :=
  let counted : BoardPresenter :=
    { p with state := { p.state with loadGeneration := p.state.loadGeneration + 1 } }
  (counted.loadGameState gameId game).refreshNavigation library true

def dismissError (p : BoardPresenter) : BoardPresenter :=
  { p with state := { p.state with errorText := "" } }

def clear (p : BoardPresenter) : BoardPresenter :=
  let cleared : BoardPresenter := { p with navigator := GameNavigator.clear }
  cleared.resetGameState library (p.state.loadGeneration + 1) p.state.panelVisible

/-- The five navigation calls: one of the navigator, after which the position is shown. -/
def navigate (move : GameNavigator → GameNavigator) (p : BoardPresenter) : BoardPresenter :=
  BoardPresenter.refreshNavigation library false { p with navigator := move p.navigator }

def advance (p : BoardPresenter) : BoardPresenter := p.navigate library .advance

def retreat (p : BoardPresenter) : BoardPresenter := p.navigate library .retreat

def jumpToStart (p : BoardPresenter) : BoardPresenter := p.navigate library .jumpToStart

def jumpToEnd (p : BoardPresenter) : BoardPresenter := p.navigate library .jumpToEnd

def navigateTo (ply : ℕ) (p : BoardPresenter) : BoardPresenter :=
  p.navigate library (.navigateTo ply)

def selectSquare (file rank : ℤ) (p : BoardPresenter) :
    BoardPresenter × Except BoardError Unit :=
  if !p.state.loaded then p.fail "Load a game before selecting a square"
  else if h : (0 ≤ file ∧ file < 8) ∧ 0 ≤ rank ∧ rank < 8 then
    let square : BoardSquare := ⟨⟨file.toNat, by omega⟩, ⟨rank.toNat, by omega⟩⟩
    if p.state.selectedSquare = some square then (p.clearSelection, .ok ())
    else
      ({ p with state := { p.state with
          selectedSquare := some square
          legalTargets := targetsFrom library p.state.fen square
          errorText := "" }.refreshHighlights }, .ok ())
  else p.fail "Square is out of range"

def toggleOrientation (p : BoardPresenter) : BoardPresenter :=
  { p with state := { p.state with orientationFlipped := !p.state.orientationFlipped } }

def setPanelVisible (visible : Bool) (p : BoardPresenter) : BoardPresenter :=
  { p with state := { p.state with panelVisible := visible } }

/-- `async_board_runner::apply_loaded_game_at`: a game is loaded and navigated in one operation. -/
def applyLoadedGameAt (gameId : UInt32) (game : Game) (ply : ℕ) (p : BoardPresenter) :
    BoardPresenter := (p.applyLoadedGame library gameId game).navigateTo library ply

end Operations

end BoardPresenter

end MotifChess.SlintApp
