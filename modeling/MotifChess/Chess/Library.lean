/- GID: MotifChess/Chess/Library
   generality: general
   digest: The rest of the chess library: the texts of positions and the legal moves in them. -/

import MotifChess.Chess.Rules

set_option autoImplicit false
set_option relaxedAutoImplicit false

namespace MotifChess.Chess

structure MoveInfo where
  encodedMove : UInt16
  uci : String
  san : String
  fromSquare : String
  toSquare : String
  promotion : Option String
  deriving DecidableEq

/-- A chess library that also writes and reads positions and generates the moves in them. -/
structure Library extends Rules where
  writeFen : Board → String
  parseFen : String → Option Board
  legalMoves : Board → List MoveInfo

end MotifChess.Chess
