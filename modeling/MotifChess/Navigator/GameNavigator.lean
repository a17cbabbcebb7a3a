/- GID: MotifChess/Navigator/GameNavigator
   generality: implementation
   digest: The navigator through the moves of a game, and the position that it stands in. -/

import MotifChess.Chess.Library
import MotifChess.Db.GameTable

set_option autoImplicit false
set_option relaxedAutoImplicit false

namespace MotifChess.Navigator

open MotifChess.Db

/-- The moves of a game and the number of them that were played. -/
structure GameNavigator where
  moves : List UInt16 := []
  ply : ℕ := 0
  deriving DecidableEq

namespace GameNavigator

section Operations

def load (game : Game) : GameNavigator := ⟨game.moves, 0⟩

def clear : GameNavigator := ⟨[], 0⟩

def advance (n : GameNavigator) : GameNavigator :=
  if n.ply < n.moves.length then { n with ply := n.ply + 1 } else n

def retreat (n : GameNavigator) : GameNavigator :=
  if 0 < n.ply then { n with ply := n.ply - 1 } else n

def jumpToStart (n : GameNavigator) : GameNavigator := { n with ply := 0 }

def jumpToEnd (n : GameNavigator) : GameNavigator := { n with ply := n.moves.length }

def navigateTo (ply : ℕ) (n : GameNavigator) : GameNavigator :=
  { n with ply := min ply n.moves.length }

variable {n : GameNavigator}

theorem advance_eq (h : n.ply ≤ n.moves.length) : n.advance = n.navigateTo (n.ply + 1) := by
  unfold advance navigateTo
  split
  next hlt => rw [Nat.min_eq_left hlt]
  next hge =>
    have hlast : min (n.ply + 1) n.moves.length = n.ply := by omega
    rw [hlast]

theorem retreat_eq (h : n.ply ≤ n.moves.length) : n.retreat = n.navigateTo (n.ply - 1) := by
  have hmin : min (n.ply - 1) n.moves.length = n.ply - 1 := by omega
  unfold retreat navigateTo
  rw [hmin]
  split
  next => rfl
  next hzero =>
    have hply : n.ply - 1 = n.ply := by omega
    rw [hply]

theorem jumpToStart_eq : n.jumpToStart = n.navigateTo 0 := by
  rw [jumpToStart, navigateTo, Nat.zero_min]

theorem jumpToEnd_eq : n.jumpToEnd = n.navigateTo n.moves.length := by
  rw [jumpToEnd, navigateTo, Nat.min_self]

end Operations

section Position

variable (library : Chess.Library)

/-- The position after a number of moves, which is cut to the width of a ply. -/
def boardAt (n : GameNavigator) (ply : ℕ) : Option library.Board :=
  library.replay n.moves (UInt16.ofNat ply)

def currentFen (n : GameNavigator) : String :=
  match n.boardAt library n.ply with
  | none => ""
  | some board => library.writeFen board

def currentHash (n : GameNavigator) : Option UInt64 := (n.boardAt library n.ply).map library.hash

def currentSan (n : GameNavigator) : String :=
  if n.ply = 0 || n.moves.isEmpty then ""
  else
    match n.boardAt library (n.ply - 1) with
    | none => ""
    | some board => library.san board (n.moves.getD (n.ply - 1) 0)

/-- The texts of moves, each in the position that it is played in. -/
def sanMovesFrom (board : library.Board) : List UInt16 → List String
  | [] => []
  | move :: moves =>
    library.san board move :: sanMovesFrom (library.applyEncodedMove board move) moves

def moveList (n : GameNavigator) : List String := sanMovesFrom library library.start n.moves

def lastMove (n : GameNavigator) : Option Chess.MoveInfo :=
  if n.ply = 0 then none
  else
    match n.boardAt library (n.ply - 1) with
    | none => none
    | some board => (library.legalMoves board).find? fun info =>
        info.encodedMove = n.moves.getD (n.ply - 1) 0

theorem boardAt_eq {n : GameNavigator} {ply : ℕ} (hply : ply ≤ n.moves.length)
    (hlength : n.moves.length ≤ 65535) :
    n.boardAt library ply = some (library.play library.start (n.moves.take ply)) := by
  have hwidth : (UInt16.ofNat ply).toNat = ply := by
    rw [UInt16.toNat_ofNat']
    exact Nat.mod_eq_of_lt (by omega)
  rw [boardAt, Chess.Rules.replay, hwidth, if_neg (by omega)]

theorem currentHash_eq {n : GameNavigator} (hply : n.ply ≤ n.moves.length)
    (hlength : n.moves.length ≤ 65535) : n.currentHash library =
      some (library.hash (library.play library.start (n.moves.take n.ply))) := by
  rw [currentHash, boardAt_eq library hply hlength, Option.map_some]

end Position

end GameNavigator

end MotifChess.Navigator
