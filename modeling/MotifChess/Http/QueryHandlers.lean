/- GID: MotifChess/Http/QueryHandlers
   generality: implementation
   digest: The handlers that list games, find positions and replay games over HTTP. -/

import MotifChess.Chess.Library
import MotifChess.Codec.Decimal
import MotifChess.Db.Bundle.PositionMatches
import MotifChess.Http.GameHandlers
import MotifChess.Http.PgnExport
import MotifChess.Import.Pgn
import Mathlib.Algebra.Group.Nat.Defs

set_option autoImplicit false
set_option relaxedAutoImplicit false

namespace MotifChess.Http

open MotifChess.Codec MotifChess.Db

section Parameters

/-- The parameters of a request, of which the first under a name counts. -/
abbrev Params := List (String × String)

def parseSize (text : String) : Option ℕ :=
  if text = "" then none else Decimal.readWhole (2 ^ 64 - 1) text.toList

def parseInt32 (text : String) : Option Int32 :=
  if text = "" then none else (Import.fromChars text.toList).map Int32.ofInt

def parseUint64 (text : String) : Option UInt64 :=
  if text = "" then none else (Decimal.readWhole (2 ^ 64 - 1) text.toList).map UInt64.ofNat

def parsePlayerColor (text : String) : Option PlayerColor :=
  if text = "either" then some .either
  else if text = "white" then some .white
  else if text = "black" then some .black
  else none

def parseGameId (text : String) : Option UInt32 :=
  if text = "" then none
  else
    (Decimal.readWhole (2 ^ 64 - 1) text.toList).bind fun value =>
      if value = 0 ∨ 2 ^ 32 - 1 < value then none else some (.ofNat value)

/-- A parameter as it is parsed, or a default where it is not given. -/
def readParam {α : Type} (params : Params) (name : String) (parse : String → Option α) (default : α)
    (message : String) : Except Response α :=
  match params.lookup name with
  | none => .ok default
  | some text => (parse text).elim (.error (jsonError 400 message)) .ok

/-- A parameter that counts as not given where it is empty. -/
def readNonempty {α : Type} (params : Params) (name : String) (parse : String → Option α)
    (default : α) (message : String) : Except Response α :=
  let text := (params.lookup name).getD ""
  if text = "" then .ok default else (parse text).elim (.error (jsonError 400 message)) .ok

def toFilter (text : String) : Option String := if text = "" then none else some text

end Parameters

section Listing

/-- The filter of `GET /api/games`. -/
def gameListFilter (params : Params) : Except Response SearchFilter := do
  let limit ← readParam params "limit" (fun text => (parseSize text).map fun limit =>
    min limit maxSearchLimit) defaultSearchLimit "invalid pagination parameters"
  let offset ← readParam params "offset" parseSize 0 "invalid pagination parameters"
  let minElo ← readParam params "min_elo" (fun text => (parseInt32 text).map some) none
    "invalid elo filter"
  let maxElo ← readParam params "max_elo" (fun text => (parseInt32 text).map some) none
    "invalid elo filter"
  let playerColor ← readParam params "color" parsePlayerColor .either "invalid color filter"
  let position ← readParam params "position_hash" (fun text => (parseUint64 text).map some) none
    "invalid position hash"
  return {
    playerName := (params.lookup "player").bind toFilter
    playerColor, minElo, maxElo
    result := (params.lookup "result").bind toFilter
    ecoPrefix := (params.lookup "eco").bind toFilter
    position, offset, limit }

/-- `GET /api/games`. -/
def getGames (findGames : SearchFilter → Result GameListResult) (params : Params) :
    Except Response GameListResult :=
  (gameListFilter params).bind fun filter =>
    (findGames filter).mapError fun _ => jsonError 500 "game list query failed"

end Listing

section Positions

def defaultMatchLimit : ℕ := 100

def maxMatchLimit : ℕ := 500

/-- The hash in a path, which is parsed where it stands. -/
def pathHash (text : String) : Except Response UInt64 :=
  ((Decimal.readWhole (2 ^ 64 - 1) text.toList).map UInt64.ofNat).elim
    (.error (jsonError 400 "invalid zobrist hash")) .ok

/-- `GET /api/positions/:zobrist_hash`. -/
def getPositionMatches (query : UInt64 → ℕ → ℕ → Result (List PositionMatch)) (hashText : String)
    (params : Params) : Except Response (List PositionMatch) := do
  let hash ← pathHash hashText
  let limit ← readNonempty params "limit" (fun text => (parseSize text).map fun limit =>
    min limit maxMatchLimit) defaultMatchLimit "invalid pagination parameters"
  let offset ← readNonempty params "offset" parseSize 0 "invalid pagination parameters"
  if (params.lookup "limit").isSome && limit = 0 then return []
  else (query hash limit offset).mapError fun _ => jsonError 500 "search failed"

/-- The texts of a replayed game: the position that it starts from, and after each move the position and
its hash, with the text of the move. -/
structure GamePositions where
  startingHash : String
  fens : List String
  sans : List String
  hashes : List String
  deriving DecidableEq

/-- What the loop of `game_to_positions` appends for the moves from a board on. -/
def replayTexts (library : Chess.Library) : library.Board → List UInt16 →
    List (String × String × String)
  | _, [] => []
  | board, move :: moves =>
    let next := library.applyEncodedMove board move
    (library.writeFen next, library.san board move, toString (library.hash next).toNat) ::
      replayTexts library next moves

def gameToPositions (library : Chess.Library) (game : Game) : GamePositions where
  startingHash := toString (library.hash library.start).toNat
  fens := (replayTexts library library.start game.moves).map fun texts => texts.1
  sans := (replayTexts library library.start game.moves).map fun texts => texts.2.1
  hashes := (replayTexts library library.start game.moves).map fun texts => texts.2.2

end Positions

section Games

def retrievalError (e : ErrorCode) : Response :=
  match e with
  | .notFound => jsonError 404 "not_found"
  | _ => jsonError 500 "game retrieval failed"

/-- What the three handlers of a stored game share: its id from the path, and the game. -/
def retrieveGame (get : ℕ → Result Game) (idText : String) : Except Response (UInt32 × Game) :=
  match parseGameId idText with
  | none => .error (jsonError 400 "invalid game id")
  | some id => ((get id.toNat).map fun game => (id, game)).mapError retrievalError

/-- `GET /api/games/:id`, of which the response holds the id and the fields of the game. -/
def getGame (get : ℕ → Result Game) (idText : String) : Except Response (UInt32 × Game) :=
  retrieveGame get idText

/-- `GET /api/games/:id/pgn`. -/
def getGamePgn (rules : Chess.Rules) (get : ℕ → Result Game) (idText : String) :
    Except Response String :=
  (retrieveGame get idText).map fun found => gameToPgn rules found.1.toNat found.2

/-- `GET /api/games/:id/positions`. -/
def getGamePositions (library : Chess.Library) (get : ℕ → Result Game) (idText : String) :
    Except Response GamePositions :=
  (retrieveGame get idText).map fun found => gameToPositions library found.2

end Games

end MotifChess.Http
