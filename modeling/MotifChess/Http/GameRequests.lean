/- GID: MotifChess/Http/GameRequests
   generality: implementation
   digest: The locked sections of the requests on stored games, and the runs that any requests make of them. -/

import MotifChess.Http.QueryHandlers
import MotifChess.Import.ImportWorker

set_option autoImplicit false
set_option relaxedAutoImplicit false

namespace MotifChess.Http

open MotifChess.Db MotifChess.Import

section Adding

/-- The body of a request that adds a game. -/
structure CreateGameRequest where
  pgn : String
  sourceLabel : Option String := none
  reviewStatus : Option String := none

structure CreateGameResponse where
  id : UInt32
  sourceType : String
  sourceLabel : Option String
  reviewStatus : String
  deriving DecidableEq

/-- What the file system and SQLite do while a game is added, and while it is removed again. -/
structure CreateIO where
  stale : Bundle.StaleIO := {}
  inserts : Bool := true
  setsProvenance : Bool := true
  staleAgain : Bundle.StaleIO := {}
  removes : Bool := true

/-- The request, its review status and its only game, before the database is asked. -/
def readCreateRequest (parsePgn : String → Option (List PgnGame)) (body : Option CreateGameRequest) :
    Except Response (CreateGameRequest × String × PgnGame) :=
  match body with
  | none => .error (jsonError 400 "invalid request body")
  | some request =>
    if request.pgn = "" then .error (jsonError 400 "pgn is required")
    else if !validReviewStatuses.contains (request.reviewStatus.getD "new") then
      .error (jsonError 400 "invalid review_status; allowed: new, needs_review, studied, archived")
    else
      match parsePgn request.pgn with
      | none => .error (jsonError 400 "pgn parse error: invalid PGN syntax")
      | some [] => .error (jsonError 400 "no game found in PGN")
      | some [game] => .ok (request, request.reviewStatus.getD "new", game)
      | some (_ :: _ :: _) => .error (jsonError 400 "only one game per request is supported")

def createError (e : Import.ErrorCode) : Response :=
  match e with
  | .duplicate => jsonError 409 "duplicate game"
  | .parseError => jsonError 400 "pgn parse error: invalid SAN move"
  | .emptyGame => jsonError 400 "game has no moves"
  | _ => jsonError 500 "game creation failed"

variable {ix : Indexes} (rules : Chess.Rules) (moveHash : List UInt16 → UInt64)

/-- `import_worker::process` on an open bundle. -/
def processGame (stale : Bundle.StaleIO) (inserts : Bool) (pgn : PgnGame) (b : Bundle ix) :
    Bundle ix × Except Import.ErrorCode ℕ :=
  if pgn.moves = [] then (b, .error .emptyGame)
  else if 65535 < pgn.moves.length then (b, .error .ioFailure)
  else
    match applySans rules rules.start pgn.moves with
    | none => (b, .error .parseError)
    | some moves =>
      match b.insertGame moveHash stale inserts { extractGame pgn with moves } with
      | (b, .ok id) => (b, .ok id)
      | (b, .error .duplicate) => (b, .error .duplicate)
      | (b, .error _) => (b, .error .ioFailure)

/-- `POST /api/games`. A game whose provenance cannot be set is removed again. -/
def createGame (parsePgn : String → Option (List PgnGame)) (io : CreateIO)
    (body : Option CreateGameRequest) (b : Bundle ix) : Bundle ix × Except Response CreateGameResponse :=
  match readCreateRequest parsePgn body with
  | .error refusal => (b, .error refusal)
  | .ok (request, reviewStatus, game) =>
    match processGame rules moveHash io.stale io.inserts game b with
    | (b, .error e) => (b, .error (createError e))
    | (b, .ok rowId) =>
      let id := UInt32.ofNat rowId
      match b.setManualGameProvenance io.setsProvenance id.toNat request.sourceLabel reviewStatus with
      | (b, .error _) =>
        ((b.removeGame io.staleAgain io.removes id.toNat).1, .error (jsonError 500 "game creation failed"))
      | (b, .ok ()) => (b, .ok ⟨id, "manual", request.sourceLabel, reviewStatus⟩)

end Adding

section Changing

variable {ix : Indexes} (moveHash : List UInt16 → UInt64)

/-- `PATCH /api/games/:id` up to the end of its first locked section: the id of the patched game, which
a second section reads for the answer. -/
def patchGameSection (stale : Bundle.StaleIO) (works : Bool) (idText : String)
    (body : Option GamePatch) (b : Bundle ix) : Bundle ix × Except Response UInt32 :=
  match parseGameId idText with
  | none => (b, .error (jsonError 400 "invalid game id"))
  | some id =>
    match body with
    | none => (b, .error (jsonError 400 "invalid request body"))
    | some patch =>
      match patchRefusal patch with
      | some refusal => (b, .error refusal)
      | none =>
        match b.patchGameMetadata moveHash stale works id.toNat patch with
        | (b, .error e) => (b, .error (patchError e))
        | (b, .ok ()) => (b, .ok id)

/-- The second locked section of `PATCH /api/games/:id`. -/
def patchedGame (get : ℕ → Result Game) (id : UInt32) : Except Response (UInt32 × Game) :=
  ((get id.toNat).map fun game => (id, game)).mapError
    fun _ => jsonError 500 "game retrieval failed after patch"

/-- `DELETE /api/games/:id`. -/
def deleteGameSection (stale : Bundle.StaleIO) (works : Bool) (idText : String) (b : Bundle ix) :
    Bundle ix × Except Response UInt32 :=
  match parseGameId idText with
  | none => (b, .error (jsonError 400 "invalid game id"))
  | some id =>
    match b.removeUserGame stale works id.toNat with
    | (b, .error e) => (b, .error (deleteError e))
    | (b, .ok ()) => (b, .ok id)

/-- `GET /api/games/count`. -/
def getGameCount (countGames : Result ℕ) : Except Response ℕ :=
  countGames.mapError fun _ => jsonError 500 "game count query failed"

/-- `POST /api/positions/rebuild`. -/
def rebuildPositions (io : Bundle.RebuildIO) (b : Bundle ix) : Bundle ix × Except Response Unit :=
  match b.rebuildPositionPostings io with
  | (b, .error _) => (b, .error (jsonError 500 "position store rebuild failed"))
  | (b, .ok ()) => (b, .ok ())

end Changing

/-- The locked sections of the requests on games, with what the file system and SQLite do in them. A
patch that is accepted is followed by a read of the patched game, between any other sections. -/
inductive GameRequest
  | create (io : CreateIO) (body : Option CreateGameRequest)
  | patch (stale : Bundle.StaleIO) (works : Bool) (idText : String) (body : Option GamePatch)
  | readPatched (works : Bool) (id : UInt32)
  | delete (stale : Bundle.StaleIO) (works : Bool) (idText : String)
  | read (works : Bool) (idText : String)
  | count (works : Bool)
  | rebuild (io : Bundle.RebuildIO)

inductive Answer
  | refused (response : Response)
  | created (game : CreateGameResponse)
  | patched (id : UInt32)
  | deleted (id : UInt32)
  | game (id : UInt32) (game : Game)
  | count (games : ℕ)
  | rebuilt
  deriving DecidableEq

def answer {α : Type} (accepted : α → Answer) : Except Response α → Answer
  | .error refusal => .refused refusal
  | .ok a => accepted a

section Serving

variable {ix : Indexes} (parsePgn : String → Option (List PgnGame)) (rules : Chess.Rules)
  (moveHash : List UInt16 → UInt64)

/-- A read of the tables that SQLite may fail. -/
def reading {α : Type} (works : Bool) (r : Result α) : Result α :=
  if works then r else .error .ioFailure

def serve (b : Bundle ix) : GameRequest → Bundle ix × Answer
  | .create io body => (createGame rules moveHash parsePgn io body b).map id (answer .created)
  | .patch stale works idText body =>
    (patchGameSection moveHash stale works idText body b).map id (answer .patched)
  | .readPatched works id =>
    (b, answer (fun found => .game found.1 found.2) (patchedGame (fun id => reading works (b.tables.get id)) id))
  | .delete stale works idText => (deleteGameSection stale works idText b).map id (answer .deleted)
  | .read works idText =>
    (b, answer (fun found => .game found.1 found.2) (getGame (fun id => reading works (b.tables.get id)) idText))
  | .count works => (b, answer .count (getGameCount (reading works (.ok b.tables.countGames))))
  | .rebuild io => (rebuildPositions io b).map id (answer fun _ => .rebuilt)

/-- The bundle after some requests, and what each of them was answered. -/
def serveAll (b : Bundle ix) : List GameRequest → Bundle ix × List (GameRequest × Answer)
  | [] => (b, [])
  | request :: requests =>
    let (b, answer) := serve parsePgn rules moveHash b request
    let (b, served) := serveAll b requests
    (b, (request, answer) :: served)

end Serving

end MotifChess.Http
