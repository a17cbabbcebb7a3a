/- GID: MotifChess/SlintApp/BoardRuns
   generality: implementation
   digest: Every run of the board presenter shows a game at a ply with a selection, and nothing else. -/

import MotifChess.SlintApp.BoardPresenter

set_option autoImplicit false
set_option relaxedAutoImplicit false

namespace MotifChess.SlintApp

open MotifChess.Db MotifChess.Navigator

section Actions

/-- The calls of a board presenter. -/
inductive BoardAction
  | load (gameId : UInt32) (game : Game)
  | loadAt (gameId : UInt32) (game : Game) (ply : ℕ)
  | clear
  | advance
  | retreat
  | jumpToStart
  | jumpToEnd
  | navigateTo (ply : ℕ)
  | selectSquare (file rank : ℤ)
  | clearSelection
  | toggleOrientation
  | setPanelVisible (visible : Bool)
  | dismissError

variable (library : Chess.Library)

def BoardPresenter.perform (p : BoardPresenter) : BoardAction → BoardPresenter
  | .load gameId game => p.applyLoadedGame library gameId game
  | .loadAt gameId game ply => p.applyLoadedGameAt library gameId game ply
  | .clear => p.clear library
  | .advance => p.advance library
  | .retreat => p.retreat library
  | .jumpToStart => p.jumpToStart library
  | .jumpToEnd => p.jumpToEnd library
  | .navigateTo ply => p.navigateTo library ply
  | .selectSquare file rank => (p.selectSquare library file rank).1
  | .clearSelection => p.clearSelection
  | .toggleOrientation => p.toggleOrientation
  | .setPanelVisible visible => p.setPanelVisible visible
  | .dismissError => p.dismissError

end Actions

section View

/-- What a user works with: a game or none, the plies that were played, a selected square and the
settings. Before the first navigation nothing is drawn. -/
structure BoardView where
  game : Option (UInt32 × Game) := none
  ply : ℕ := 0
  drawn : Bool := false
  selected : Option BoardSquare := none
  flipped : Bool := false
  panelVisible : Bool := true
  errorText : String := ""
  changes : UInt64 := 0
  deriving DecidableEq

namespace BoardView

def moves (v : BoardView) : List UInt16 := v.game.elim [] fun loaded => loaded.2.moves

/-- A load starts at ply 0 and keeps the settings. -/
def load (gameId : UInt32) (game : Game) (v : BoardView) : BoardView :=
  { v with
    game := some (gameId, game)
    ply := 0
    drawn := true
    selected := none
    errorText := ""
    changes := v.changes + 1 }

/-- A navigation ends at a ply of the game and drops the selection. -/
def goTo (ply : ℕ) (v : BoardView) : BoardView :=
  { v with ply := min ply v.moves.length, drawn := true, selected := none }

def select (square : BoardSquare) (v : BoardView) : BoardView :=
  if v.selected = some square then { v with selected := none }
  else { v with selected := some square, errorText := "" }

private theorem toNat_lt_eight {coordinate : ℤ} (h : 0 ≤ coordinate ∧ coordinate < 8) :
    coordinate.toNat < 8 := by
  omega

def selectAt (file rank : ℤ) (v : BoardView) : BoardView :=
  if v.game.isNone then { v with errorText := "Load a game before selecting a square" }
  else if h : 0 ≤ file ∧ file < 8 ∧ 0 ≤ rank ∧ rank < 8 then
    v.select ⟨⟨file.toNat, toNat_lt_eight ⟨h.1, h.2.1⟩⟩, ⟨rank.toNat, toNat_lt_eight h.2.2⟩⟩
  else { v with errorText := "Square is out of range" }

def perform (v : BoardView) : BoardAction → BoardView
  | .load gameId game => v.load gameId game
  | .loadAt gameId game ply => (v.load gameId game).goTo ply
  | .clear => { panelVisible := v.panelVisible, changes := v.changes + 1 }
  | .advance => v.goTo (v.ply + 1)
  | .retreat => v.goTo (v.ply - 1)
  | .jumpToStart => v.goTo 0
  | .jumpToEnd => v.goTo v.moves.length
  | .navigateTo ply => v.goTo ply
  | .selectSquare file rank => v.selectAt file rank
  | .clearSelection => { v with selected := none }
  | .toggleOrientation => { v with flipped := !v.flipped }
  | .setPanelVisible visible => { v with panelVisible := visible }
  | .dismissError => { v with errorText := "" }

variable (library : Chess.Library)

def navigator (v : BoardView) : GameNavigator := ⟨v.moves, v.ply⟩

def fen (v : BoardView) : String := if v.drawn then v.navigator.currentFen library else ""

def targets (v : BoardView) : List BoardSquare :=
  v.selected.elim [] (BoardPresenter.targetsFrom library (v.fen library))

def lastFrom (v : BoardView) : Option BoardSquare :=
  (v.navigator.lastMove library).bind fun info => squareFromAlgebraic info.fromSquare

def lastTo (v : BoardView) : Option BoardSquare :=
  (v.navigator.lastMove library).bind fun info => squareFromAlgebraic info.toSquare

/-- The presenter that shows a view. -/
def render (v : BoardView) : BoardPresenter where
  navigator := v.navigator
  state := {
    loaded := v.game.isSome
    gameId := v.game.elim 0 Prod.fst
    fen := v.fen library
    currentHash := v.navigator.currentHash library
    squarePieces := if v.drawn then squaresFromFen (v.fen library) else
      List.replicate (boardDimension * boardDimension) ""
    squareHighlights := highlights (v.lastFrom library) (v.lastTo library) (v.targets library)
      v.selected
    currentPly := v.ply
    totalPlies := v.moves.length
    sanMoves := v.navigator.moveList library
    currentSan := v.navigator.currentSan library
    whiteName := v.game.elim "" fun loaded => loaded.2.white.name
    blackName := v.game.elim "" fun loaded => loaded.2.black.name
    result := v.game.elim "" fun loaded => loaded.2.result
    eventName := v.game.elim "" fun loaded => loaded.2.eventDetails.elim "" Event.name
    date := v.game.elim "" fun loaded => loaded.2.date.getD ""
    errorText := v.errorText
    orientationFlipped := v.flipped
    panelVisible := v.panelVisible
    selectedSquare := v.selected
    lastMoveFrom := v.lastFrom library
    lastMoveTo := v.lastTo library
    legalTargets := v.targets library
    loadGeneration := v.changes }

/-- A view whose ply is one of its game, and which selects squares of a drawn game only. -/
structure InGame (v : BoardView) : Prop where
  ply_le : v.ply ≤ v.moves.length
  drawn : v.game.isSome → v.drawn = true
  selected : v.selected.isSome → v.game.isSome

variable {library} {v : BoardView}

private theorem render_goTo (ply : ℕ) :
    (v.render library).navigateTo library ply = (v.goTo ply).render library := rfl

private theorem inGame_load (gameId : UInt32) (game : Game) : (v.load gameId game).InGame :=
  ⟨Nat.zero_le _, fun _ => rfl, fun h => absurd h Bool.false_ne_true⟩

private theorem inGame_goTo (ply : ℕ) : (v.goTo ply).InGame :=
  ⟨Nat.min_le_right _ _, fun _ => rfl, fun h => absurd h Bool.false_ne_true⟩

private theorem InGame.selectAt (h : v.InGame) (file rank : ℤ) : (v.selectAt file rank).InGame := by
  unfold BoardView.selectAt select
  split_ifs with hgame hrange hsame
  · exact ⟨h.ply_le, h.drawn, h.selected⟩
  · exact ⟨h.ply_le, h.drawn, fun hnone => absurd hnone Bool.false_ne_true⟩
  · exact ⟨h.ply_le, h.drawn, fun _ => by simpa [Option.isSome_iff_ne_none] using hgame⟩
  · exact ⟨h.ply_le, h.drawn, h.selected⟩

theorem InGame.perform (h : v.InGame) (a : BoardAction) : (v.perform a).InGame := by
  cases a with
  | load gameId game => exact inGame_load gameId game
  | loadAt gameId game ply => exact inGame_goTo ply
  | clear => exact ⟨Nat.zero_le _, fun hnone => absurd hnone Bool.false_ne_true, fun hnone => absurd hnone Bool.false_ne_true⟩
  | advance => exact inGame_goTo _
  | retreat => exact inGame_goTo _
  | jumpToStart => exact inGame_goTo _
  | jumpToEnd => exact inGame_goTo _
  | navigateTo ply => exact inGame_goTo ply
  | selectSquare file rank => exact h.selectAt file rank
  | clearSelection => exact ⟨h.ply_le, h.drawn, fun hnone => absurd hnone Bool.false_ne_true⟩
  | toggleOrientation => exact ⟨h.ply_le, h.drawn, h.selected⟩
  | setPanelVisible visible => exact ⟨h.ply_le, h.drawn, h.selected⟩
  | dismissError => exact ⟨h.ply_le, h.drawn, h.selected⟩

private theorem render_selectAt (file rank : ℤ) :
    ((v.render library).selectSquare library file rank).1 =
      (v.selectAt file rank).render library := by
  have hloaded : (!(v.render library).state.loaded) = v.game.isNone := Option.not_isSome _
  have hselected : (v.render library).state.selectedSquare = v.selected := rfl
  have hrange : ((0 ≤ file ∧ file < 8) ∧ 0 ≤ rank ∧ rank < 8) ↔
      0 ≤ file ∧ file < 8 ∧ 0 ≤ rank ∧ rank < 8 := and_assoc
  unfold BoardPresenter.selectSquare selectAt select
  simp only [hloaded, hselected, hrange]
  split
  · rfl
  · split
    · split
      · rfl
      · rfl
    · rfl

private theorem render_perform (h : v.InGame) (a : BoardAction) :
    (v.render library).perform library a = (v.perform a).render library := by
  have hnavigate : ∀ move : GameNavigator → GameNavigator, ∀ ply : ℕ,
      move v.navigator = v.navigator.navigateTo ply →
      (v.render library).navigate library move = (v.goTo ply).render library := by
    intro move ply hmove
    rw [← render_goTo, BoardPresenter.navigateTo, BoardPresenter.navigate, BoardPresenter.navigate]
    have hnavigator : (v.render library).navigator = v.navigator := rfl
    rw [hnavigator, hmove]
  cases a with
  | load gameId game => rfl
  | loadAt gameId game ply => rfl
  | clear => rfl
  | advance => exact hnavigate _ _ (GameNavigator.advance_eq h.ply_le)
  | retreat => exact hnavigate _ _ (GameNavigator.retreat_eq h.ply_le)
  | jumpToStart => exact hnavigate _ _ GameNavigator.jumpToStart_eq
  | jumpToEnd => exact hnavigate _ _ GameNavigator.jumpToEnd_eq
  | navigateTo ply => rfl
  | selectSquare file rank => exact render_selectAt file rank
  | clearSelection => rfl
  | toggleOrientation => rfl
  | setPanelVisible visible => rfl
  | dismissError => rfl

private theorem inGame_initial : ({} : BoardView).InGame :=
  ⟨Nat.le_refl _, fun hnone => absurd hnone Bool.false_ne_true, fun hnone => absurd hnone Bool.false_ne_true⟩

/-- The view that calls mean, from the construction on. -/
def after (actions : List BoardAction) : BoardView := actions.foldl perform {}

private theorem inGame_foldl (h : v.InGame) (actions : List BoardAction) :
    (actions.foldl BoardView.perform v).InGame := by
  induction actions generalizing v with
  | nil => exact h
  | cons a actions ih => exact ih (h.perform a)

private theorem inGame_after (actions : List BoardAction) : (after actions).InGame :=
  inGame_foldl inGame_initial actions

variable (library) in
/-- After any calls the presenter shows the view that the calls mean, down to its last field. -/
theorem run_eq_render (actions : List BoardAction) :
    actions.foldl (BoardPresenter.perform library) (.initial library) =
      (after actions).render library := by
  have hrun : ∀ v : BoardView, v.InGame →
      actions.foldl (BoardPresenter.perform library) (v.render library) =
        (actions.foldl BoardView.perform v).render library := by
    induction actions with
    | nil => exact fun _ _ => rfl
    | cons a actions ih =>
      intro v hv
      rw [List.foldl_cons, List.foldl_cons, render_perform hv]
      exact ih _ (hv.perform a)
  exact hrun {} inGame_initial

end BoardView

end View

section Shown

variable (library : Chess.Library)

/-- A square that a legal move of a position goes to, from the selected square. -/
def isLegalTarget (board : library.Board) (selected : Option BoardSquare) (square : BoardSquare) :
    Bool :=
  selected.any fun origin => (library.legalMoves board).any fun info =>
    info.fromSquare = algebraicFromSquare origin && squareFromAlgebraic info.toSquare = some square

/-- A presenter that shows a game after a number of its moves: the hash, the text and the squares are
those of that position, and each square has the first highlight that applies to it. -/
structure Shows (moves : List UInt16) (ply : ℕ) (p : BoardPresenter) : Prop where
  plies : p.state.currentPly = ply ∧ p.state.totalPlies = moves.length ∧ ply ≤ moves.length
  hash : p.state.currentHash =
    some (library.hash (library.play library.start (moves.take ply)))
  fen : p.state.loaded = true →
    p.state.fen = library.writeFen (library.play library.start (moves.take ply)) ∧
      p.state.squarePieces = squaresFromFen p.state.fen
  squares : AreSquares p.state.squarePieces
  selection : p.state.selectedSquare.isSome → p.state.loaded = true
  highlights : ∀ square, p.state.squareHighlights[BoardSquare.index square]? = some (
    if p.state.selectedSquare = some square then .selected
    else if isLegalTarget library (library.play library.start (moves.take ply))
      p.state.selectedSquare square then .legalTarget
    else if p.state.lastMoveTo = some square then .lastMoveTo
    else if p.state.lastMoveFrom = some square then .lastMoveFrom
    else .none)

/-- The legal moves of a position can be read from the text of it. -/
def ReadsBack (board : library.Board) : Prop := ∃ copy,
  library.parseFen (library.writeFen board) = some copy ∧
    library.legalMoves copy = library.legalMoves board

namespace BoardView

variable {library} {v : BoardView}

private theorem fen_eq (h : v.InGame) (hgame : v.game.isSome) (hlength : v.moves.length ≤ 65535) :
    v.fen library = library.writeFen (library.play library.start (v.moves.take v.ply)) := by
  have hboard : v.navigator.boardAt library v.navigator.ply =
      some (library.play library.start (v.moves.take v.ply)) :=
    GameNavigator.boardAt_eq library h.ply_le hlength
  rw [fen, if_pos (h.drawn hgame), GameNavigator.currentFen, hboard]

private theorem mem_targets (hreads : ReadsBack library (library.play library.start (v.moves.take v.ply)))
    (h : v.InGame) (hlength : v.moves.length ≤ 65535) {square : BoardSquare} :
    square ∈ v.targets library ↔
      isLegalTarget library (library.play library.start (v.moves.take v.ply)) v.selected square := by
  unfold targets isLegalTarget
  cases hselected : v.selected with
  | none => simp
  | some origin =>
    have hgame := h.selected (by rw [hselected]; rfl)
    obtain ⟨copy, hcopy, hmoves⟩ := hreads
    rw [Option.elim_some, fen_eq h hgame hlength, BoardPresenter.targetsFrom, hcopy,
      Option.elim_some, hmoves, Option.any_some, List.any_eq_true, List.mem_filterMap]
    refine exists_congr fun info => ?_
    rw [List.mem_filter, Bool.and_eq_true, decide_eq_true_iff, decide_eq_true_iff, and_assoc]

private theorem areSquares_render : AreSquares (v.render library).state.squarePieces := by
  change AreSquares (if v.drawn = true then squaresFromFen (v.fen library) else _)
  split
  · exact areSquares_squaresFromFen _
  · exact areSquares_replicate

private theorem shows_render (hreads : ReadsBack library (library.play library.start (v.moves.take v.ply)))
    (h : v.InGame) (hlength : v.moves.length ≤ 65535) :
    Shows library v.moves v.ply (v.render library) where
  plies := ⟨rfl, rfl, h.ply_le⟩
  hash := GameNavigator.currentHash_eq (n := v.navigator) library h.ply_le hlength
  fen := by
    intro hloaded
    refine ⟨fen_eq h hloaded hlength, ?_⟩
    change (if v.drawn = true then squaresFromFen (v.fen library) else _) = _
    rw [if_pos (h.drawn hloaded)]
    rfl
  squares := areSquares_render
  selection := h.selected
  highlights := by
    intro square
    have hsquare := getElem?_highlights (v.lastFrom library) (v.lastTo library)
      (v.targets library) v.selected square
    simp only [mem_targets hreads h hlength] at hsquare
    exact hsquare

end BoardView

/-- After any calls the board shows the game of the last load since the last clear, at a ply of that
game, and highlights what can be done and what was done there. -/
theorem shows_of_run (actions : List BoardAction)
    (hreads : ReadsBack library (library.play library.start
      ((BoardView.after actions).moves.take (BoardView.after actions).ply)))
    (hlength : (BoardView.after actions).moves.length ≤ 65535) :
    Shows library (BoardView.after actions).moves (BoardView.after actions).ply
      (actions.foldl (BoardPresenter.perform library) (.initial library)) := by
  rw [BoardView.run_eq_render]
  exact BoardView.shows_render hreads (BoardView.inGame_after actions) hlength

/-- A library that knows the starting position and the one after 1. e4. -/
private def kingsPawn : Chess.Library where
  Board := Bool
  start := false
  applyEncodedMove board move := board || move = 1804
  hash board := if board then 2 else 1
  san _ _ := "e4"
  applySan _ _ := none
  writeFen board := if board then "rnbqkbnr/pppppppp/8/8/4P3/8/PPPP1PPP/RNBQKBNR b KQkq - 0 1"
    else "rnbqkbnr/pppppppp/8/8/8/8/PPPPPPPP/RNBQKBNR w KQkq - 0 1"
  parseFen text :=
    if text = "rnbqkbnr/pppppppp/8/8/4P3/8/PPPP1PPP/RNBQKBNR b KQkq - 0 1" then some true
    else if text = "rnbqkbnr/pppppppp/8/8/8/8/PPPPPPPP/RNBQKBNR w KQkq - 0 1" then some false
    else none
  legalMoves board := if board then [⟨2356, "e7e5", "e5", "e7", "e5", none⟩]
    else [⟨1804, "e2e4", "e4", "e2", "e4", none⟩, ⟨1292, "e2e3", "e3", "e2", "e3", none⟩]

private theorem readsBack_kingsPawn (board : kingsPawn.Board) : ReadsBack kingsPawn board := by
  cases board with
  | false => exact ⟨false, by simp [kingsPawn], rfl⟩
  | true => exact ⟨true, by simp [kingsPawn], rfl⟩

/-- A game is loaded, its end is passed, and the pawn on e7 is clicked. -/
private def openingActions : List BoardAction :=
  [.load 7 ⟨⟨"A", none, none, none⟩, ⟨"B", none, none, none⟩, none, none, "1-0", none, [1804], [], {}⟩,
    .advance, .advance, .selectSquare 4 6]

theorem shows_of_run_sample : Shows kingsPawn [1804] 1
    (openingActions.foldl (BoardPresenter.perform kingsPawn) (.initial kingsPawn)) :=
  shows_of_run kingsPawn openingActions (readsBack_kingsPawn _) (by decide)

end Shown

end MotifChess.SlintApp
