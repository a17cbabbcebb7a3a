/- GID: MotifChess/Http/PgnExport
   generality: implementation
   digest: The PGN text of a stored game. -/

import MotifChess.Chess.Rules
import MotifChess.Db.GameTable

set_option autoImplicit false
set_option relaxedAutoImplicit false

namespace MotifChess.Http

open MotifChess.Chess MotifChess.Db

/-- `append_tag`, which writes keys and values as they are. -/
def tagLine (tag : String × String) : String := "[" ++ tag.1 ++ " \"" ++ tag.2 ++ "\"]\n"

def optionalTag (key : String) (value : Option String) : List (String × String) :=
  value.toList.map fun value => (key, value)

/-- The tags that come from the fields of a game, and two of the exporter's own. -/
def fieldTags (id : ℕ) (game : Game) : List (String × String) :=
  [("Event", game.eventDetails.elim "?" Event.name),
    ("Site", (game.eventDetails.bind Event.site).getD "?"),
    ("Date", game.date.getD "????.??.??"),
    ("Round", "?"),
    ("White", game.white.name),
    ("Black", game.black.name),
    ("Result", game.result)] ++
  optionalTag "WhiteElo" (game.white.elo.map fun elo => toString elo.toInt) ++
  optionalTag "BlackElo" (game.black.elo.map fun elo => toString elo.toInt) ++
  optionalTag "WhiteTitle" game.white.title ++
  optionalTag "BlackTitle" game.black.title ++
  optionalTag "ECO" game.eco ++
  [("MotifGameId", toString id)]

def exportTags (id : ℕ) (game : Game) : List (String × String) :=
  fieldTags id game ++ game.extraTags

/-- The moves as texts, with the number of a move before each move of White. -/
def moveTokens (rules : Rules) : rules.Board → UInt32 → Bool → List UInt16 → List String
  | _, _, _, [] => []
  | board, number, whiteToMove, move :: moves =>
    (if whiteToMove then [toString number.toNat ++ "."] else []) ++
      rules.san board move :: moveTokens rules (rules.applyEncodedMove board move)
        (if whiteToMove then number else number + 1) (!whiteToMove) moves

/-- `game_to_pgn`. -/
def gameToPgn (rules : Rules) (id : ℕ) (game : Game) : String :=
  String.join ((exportTags id game).map tagLine) ++ "\n" ++
    " ".intercalate (moveTokens rules rules.start 1 true game.moves) ++
    (if game.moves.isEmpty then "" else " ") ++ game.result ++ "\n"

/-- The texts of the moves alone. -/
def sanLine (rules : Rules) : rules.Board → List UInt16 → List String
  | _, [] => []
  | board, move :: moves =>
    rules.san board move :: sanLine rules (rules.applyEncodedMove board move) moves

end MotifChess.Http
