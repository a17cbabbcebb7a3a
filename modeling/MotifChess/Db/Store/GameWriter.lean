/- GID: MotifChess/Db/Store/GameWriter
   generality: implementation
   digest: Inserts with their id caches, inside a transaction of their own or a caller's batch. -/

import MotifChess.Db.Store.Schema
import MotifChess.System.Stateful

set_option autoImplicit false
set_option relaxedAutoImplicit false

namespace MotifChess.Db.Store

open MotifChess.System

/-- The ids that an object remembers by name, for players, events and tags. -/
abbrev IdCaches : Type := NameKind → List (String × ℕ)

namespace IdCaches

def empty : IdCaches := fun _ => []

def find (kind : NameKind) (name : String) (caches : IdCaches) : Option ℕ :=
  ((caches kind).find? fun entry => entry.1 = name).map Prod.snd

def emplace (kind : NameKind) (name : String) (id : ℕ) (caches : IdCaches) : IdCaches :=
  Function.update caches kind ((name, id) :: caches kind)

end IdCaches

variable {moveHash : List UInt16 → UInt64}

/-- What a call works on: the tables, the caches of its object, and whether SQLite will carry out
the next statements. -/
structure CallState (moveHash : List UInt16 → UInt64) where
  db : Database moveHash
  caches : IdCaches
  works : List Bool

abbrev Call (moveHash : List UInt16 → UInt64) (α : Type) : Type :=
  Stateful (CallState moveHash) ErrorCode α

namespace CallState

def nextWorks (s : CallState moveHash) : Bool := s.works.headD true

def passed (s : CallState moveHash) : CallState moveHash := { s with works := s.works.tail }

end CallState

section Statements

/-- One statement: it is refused, fails, breaks a constraint, or changes the rows. -/
def exec (change : Rows → Result Rows) : Call moveHash Unit := fun s =>
  if !s.nextWorks then (.error .ioFailure, s.passed)
  else
    match change s.db.toRows with
    | .error e => (.error e, s.passed)
    | .ok rows =>
      if h : rows.Consistent moveHash then (.ok (), { s.passed with db := ⟨rows, h⟩ })
      else (.error .ioFailure, s.passed)

def remember (kind : NameKind) (name : String) (id : ℕ) : Call moveHash Unit :=
  Stateful.modify fun s => { s with caches := s.caches.emplace kind name id }

/-- `txn_guard` and `cache_rollback_guard` around a body: a transaction of its own is undone when
the body or the commit fails, one that was joined is not; the caches are emptied in both cases. -/
def guarded {α : Type} (joined : Bool) (body : Call moveHash α) : Call moveHash α := fun s =>
  if joined then
    match body s with
    | (.ok a, s') => (.ok a, s')
    | (.error e, s') => (.error e, { s' with caches := .empty })
  else if !s.nextWorks then (.error .ioFailure, s.passed)
  else
    match body s.passed with
    | (.error e, s') => (.error e, { s' with db := s.db, caches := .empty })
    | (.ok a, s') =>
      if s'.nextWorks then (.ok a, s'.passed)
      else (.error .ioFailure, { s'.passed with db := s.db, caches := .empty })

end Statements

section Names

/-- The id of the row with a name: from the cache, from the table, or of a new row. -/
def findOrInsert (kind : NameKind) (row : kind.Row) : Call moveHash ℕ := do
  match ← Stateful.read fun s => s.caches.find kind (kind.nameOf row) with
  | some id => return id
  | none =>
    match ← Stateful.read fun s => s.db.idOf kind (kind.nameOf row) with
    | some id =>
      remember kind (kind.nameOf row) id
      return id
    | none =>
      let id ← Stateful.read fun s => s.db.nextId kind
      exec fun rows => .ok (rows.insertNamed kind row)
      remember kind (kind.nameOf row) id
      return id

def findOrInsertPlayer (player : Player) : Call moveHash ℕ := findOrInsert .player player

def findOrInsertEvent (event : Event) : Call moveHash ℕ := findOrInsert .event event

def findOrInsertTag (name : String) : Call moveHash ℕ := findOrInsert .tag name

def insertGameTags (gameId : ℕ) : List (String × String) → Call moveHash Unit
  | [] => return ()
  | (name, value) :: tags => do
    let tagId ← findOrInsertTag name
    exec fun rows => .ok (rows.insertGameTag ⟨gameId, tagId, value⟩)
    insertGameTags gameId tags

end Names

section Inserts

/-- `game_id`: 32 bits of a row id. -/
def toGameId (rowId : ℕ) : ℕ := rowId % 4294967296

/-- The row of a game under its ids, before it has an id and a collision number of its own. -/
def columnsOf (game : Game) (whiteId blackId : ℕ) (eventId : Option ℕ) : GameRow where
  id := 0
  whiteId
  blackId
  eventId
  date := game.date
  result := game.result
  eco := game.eco
  moves := game.moves
  identityCollision := 0
  provenance := game.provenance
  whiteElo := game.white.elo
  blackElo := game.black.elo

/-- The rows that `insert_game_sql` and the deduplication take for the same game. -/
def sameGame (moveHash : List UInt16 → UInt64) (a b : GameRow) : Bool :=
  a.slot moveHash = b.slot moveHash && a.moves = b.moves

/-- `COALESCE(MAX(identity_collision) + 1, 0)` over the rows of a slot. -/
def nextCollision (moveHash : List UInt16 → UInt64) (columns : GameRow) (rows : Rows) : ℕ :=
  rows.games.foldl (fun m row =>
    if row.slot moveHash = columns.slot moveHash then max m (row.identityCollision + 1) else m) 0

/-- `insert_game_sql`, which rejects an exact duplicate, or `insert_game_raw_sql`. -/
def insertGameRow (raw : Bool) (columns : GameRow) (rows : Rows) : Result Rows :=
  let id := rows.nextGameId
  if raw then .ok (rows.addGame { columns with id })
  else if rows.games.any fun row => sameGame moveHash row columns then .error .duplicate
  else
    let identityCollision := nextCollision moveHash columns rows
    .ok (rows.addGame { columns with id, identityCollision })

def eventIdOf : Option Event → Call moveHash (Option ℕ)
  | none => return none
  | some event => do
    let id ← findOrInsertEvent event
    return some id

/-- What `insert` and `insert_raw` do up to the game row. -/
def insertGame (raw : Bool) (game : Game) : Call moveHash ℕ := do
  let whiteId ← findOrInsertPlayer game.white
  let blackId ← findOrInsertPlayer game.black
  let eventId ← eventIdOf game.eventDetails
  let id ← Stateful.read fun s => s.db.nextGameId
  exec (@insertGameRow moveHash raw (columnsOf game whiteId blackId eventId))
  return toGameId id

def insertBody (raw : Bool) (game : Game) : Call moveHash ℕ := do
  let id ← insertGame raw game
  insertGameTags id game.extraTags
  return id

/-- `game_writer::insert`. -/
def insert (joined : Bool) (game : Game) : Call moveHash ℕ := guarded joined (insertBody false game)

/-- `game_writer::insert_raw`. -/
def insertRaw (joined : Bool) (game : Game) : Call moveHash ℕ :=
  guarded joined (insertBody true game)

end Inserts

section Identity

def dropIdentityIndex : Call moveHash Unit :=
  exec fun rows => .ok { rows with identityIndex := false }

/-- `dedup_delete_sql`: the row of lowest id of every game stays. -/
def dedupDelete (moveHash : List UInt16 → UInt64) (rows : Rows) : Rows :=
  rows.keepGames fun row => rows.games.all fun other =>
    !sameGame moveHash other row || row.id ≤ other.id

/-- `dedup_reassign_collision_sql`: the ranks within a slot. -/
def dedupReassign (moveHash : List UInt16 → UInt64) (rows : Rows) : Rows :=
  { rows with games := rows.games.map fun row => { row with
    identityCollision := rows.games.countP fun other =>
      other.slot moveHash = row.slot moveHash && other.id < row.id } }

/-- The statements of `deduplicate`; a rebuilt index is checked like any other constraint. -/
def deduplicateBody : Call moveHash ℕ := do
  let before ← Stateful.read fun s => s.db.games.length
  exec fun rows => .ok (dedupDelete moveHash rows)
  let after ← Stateful.read fun s => s.db.games.length
  exec fun rows => .ok (dedupReassign moveHash rows)
  exec fun rows => .ok { rows with identityIndex := true }
  return before - after

/-- `game_writer::deduplicate`, whose transaction guard leaves the caches alone. -/
def deduplicate (joined : Bool) : Call moveHash ℕ := fun s =>
  match guarded joined deduplicateBody s with
  | (r, s') => (r, { s' with caches := s.caches })

end Identity

end MotifChess.Db.Store
