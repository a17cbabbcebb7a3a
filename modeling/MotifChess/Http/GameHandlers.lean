/- GID: MotifChess/Http/GameHandlers
   generality: implementation
   digest: The handlers that patch and delete a game over HTTP, with their statuses and messages. -/

import MotifChess.Db.Bundle.DatabaseManager

set_option autoImplicit false
set_option relaxedAutoImplicit false

namespace MotifChess.Http

open MotifChess.Db

/-- A status and, when the request failed, the message of the error body. -/
structure Response where
  status : ℕ
  error : Option String
  deriving DecidableEq

def jsonError (status : ℕ) (message : String) : Response := ⟨status, some message⟩

def validResults : List String := ["1-0", "0-1", "1/2-1/2", "*"]

def validReviewStatuses : List String := ["new", "needs_review", "studied", "archived"]

/-- What a patch request is refused for before the database is asked. -/
def patchRefusal (patch : GamePatch) : Option Response :=
  if patch.result.any fun result => !validResults.contains result then
    some (jsonError 400 "invalid result; allowed: 1-0, 0-1, 1/2-1/2, *")
  else if patch.reviewStatus.any fun status => !validReviewStatuses.contains status then
    some (jsonError 400 "invalid review_status; allowed: new, needs_review, studied, archived")
  else none

def patchError (e : ErrorCode) : Response :=
  match e with
  | .notFound => jsonError 404 "not_found"
  | .notEditable => jsonError 409 "game is not user-added and cannot be modified"
  | .duplicate => jsonError 409 "patch would create a duplicate game"
  | _ => jsonError 500 "patch failed"

def deleteError (e : ErrorCode) : Response :=
  match e with
  | .notFound => jsonError 404 "not_found"
  | .notEditable => jsonError 409 "game is not user-added and cannot be deleted"
  | _ => jsonError 500 "delete failed"

variable {ix : Indexes}

/-- `PATCH /api/games/:id`, after its id and body were parsed. -/
def patchGame (moveHash : List UInt16 → UInt64) (io : Bundle.StaleIO) (works : Bool) (id : ℕ)
    (patch : GamePatch) (b : Bundle ix) : Bundle ix × Response :=
  match patchRefusal patch with
  | some refusal => (b, refusal)
  | none =>
    match b.patchGameMetadata moveHash io works id patch with
    | (b, .error e) => (b, patchError e)
    | (b, .ok ()) =>
      match b.tables.get id with
      | .error _ => (b, jsonError 500 "game retrieval failed after patch")
      | .ok _ => (b, ⟨200, none⟩)

/-- `DELETE /api/games/:id`, after its id was parsed. -/
def deleteGame (io : Bundle.StaleIO) (works : Bool) (id : ℕ) (b : Bundle ix) : Bundle ix × Response :=
  match b.removeUserGame io works id with
  | (b, .error e) => (b, deleteError e)
  | (b, .ok ()) => (b, ⟨204, none⟩)

end MotifChess.Http
