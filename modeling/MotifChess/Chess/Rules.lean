/- GID: MotifChess/Chess/Rules
   generality: general
   digest: The functions of the chess library that the program calls, and replaying a game. -/

import Mathlib.Algebra.Order.Ring.Nat

set_option autoImplicit false
set_option relaxedAutoImplicit false

namespace MotifChess.Chess

/-- A chess library: boards, the moves on them, their hashes and the texts of moves. -/
structure Rules where
  Board : Type
  start : Board
  applyEncodedMove : Board → UInt16 → Board
  hash : Board → UInt64
  san : Board → UInt16 → String
  applySan : Board → String → Option (Board × UInt16)

namespace Rules

variable (rules : Rules)

def play (board : rules.Board) (moves : List UInt16) : rules.Board :=
  moves.foldl rules.applyEncodedMove board

/-- `replay`: the board after so many moves of a game. -/
def replay (moves : List UInt16) (ply : UInt16) : Option rules.Board :=
  if moves.length < ply.toNat then none else some (rules.play rules.start (moves.take ply.toNat))

/-- The boards that one hash stands for go on in fewer than `2 ^ 32` ways, where a way is a move with
the hash that it leads to. A Zobrist hash has this property: the hash of the board after a move is
that of the board before it, changed by keys that depend on the move and on what stands on its two
squares, the castling rights and the en passant file. -/
def ContinuationsFit : Prop :=
  ∀ hash (ways : List (UInt16 × UInt64)), ways.Nodup →
    (∀ way ∈ ways, ∃ board, rules.hash board = hash ∧
      rules.hash (rules.applyEncodedMove board way.1) = way.2) → ways.length < 2 ^ 32

/-- Rules for samples: a board is the sum of the moves that led to it, so that the order of moves
makes no difference. -/
def ofSums : Rules where
  Board := UInt64
  start := 0
  applyEncodedMove board move := board + move.toUInt64
  hash board := board
  san _ _ := ""
  applySan _ _ := none

end Rules

end MotifChess.Chess
