/- GID: MotifChess/Db/Store/Session
   generality: implementation
   digest: Runs over one connection: two writers, the store, a batch, and what every game should be. -/

import MotifChess.Db.Store.Calls
import MotifChess.System.Run

set_option autoImplicit false
set_option relaxedAutoImplicit false

namespace MotifChess.Db.Store

open MotifChess.System Stateful

/-- The writer inside the game store, and the one that imports use. -/
inductive WriterName
  | embedded
  | bulk
  deriving DecidableEq

instance : Fintype WriterName := ⟨{.embedded, .bulk}, by rintro (_ | _) <;> decide⟩

/-- One connection with the objects that work on it. An open batch has the writer that began it
and the rows that it began with. -/
structure Session (moveHash : List UInt16 → UInt64) where
  db : Database moveHash
  batch : Option (WriterName × Database moveHash)
  writers : WriterName → IdCaches
  store : IdCaches

/-- The statements of a call that SQLite will carry out, and whether a statement that fails makes it
roll an open transaction back by itself, as a full disk does. -/
structure Statements where
  works : List Bool := []
  undoes : Bool := false

/-- The calls of a run, with what SQLite does for them. -/
inductive Command
  | begin (writer : WriterName) (works : Bool)
  | commit (writer : WriterName) (works undoes : Bool)
  | rollback (writer : WriterName) (works : Bool)
  | insert (writer : WriterName) (game : Game) (sqlite : Statements)
  | insertRaw (writer : WriterName) (game : Game) (sqlite : Statements)
  | patch (id : ℕ) (patch : GamePatch) (sqlite : Statements)
  | setManualProvenance (id : ℕ) (sourceLabel : Option String) (reviewStatus : String)
      (sqlite : Statements)
  | remove (id : ℕ) (sqlite : Statements)
  | deduplicate (writer : WriterName) (sqlite : Statements)
  | dropIdentityIndex (writer : WriterName) (sqlite : Statements)
  | clearInsertCaches (writer : WriterName)

variable {moveHash : List UInt16 → UInt64}

namespace Session

def new : Session moveHash := ⟨.empty moveHash, none, fun _ => .empty, .empty⟩

/-- `sqlite3_get_autocommit` says that a transaction is open. -/
def joined (s : Session moveHash) : Bool := s.batch.isSome

/-- No batch is open that another writer began. -/
def free (writer : WriterName) (s : Session moveHash) : Bool :=
  s.batch.all fun batch => batch.1 = writer

/-- The rows that come back when the open batch is rolled back. -/
def rolledBack (works : Bool) (s : Session moveHash) : Option (Database moveHash) :=
  if works then s.batch.map Prod.snd else none

/-- SQLite rolls the open batch back by itself, which no object notices. -/
def undone (undoes : Bool) (s : Session moveHash) : Session moveHash :=
  match s.rolledBack undoes with
  | some db => { s with db, batch := none }
  | none => s

/-- What a call leaves: only a call that SQLite fails can lose the open batch. -/
def ended {α : Type} (sqlite : Statements) : Result α → Session moveHash → Session moveHash
  | .error .ioFailure, s => s.undone sqlite.undoes
  | _, s => s

/-- A call of a writer, which works on the rows and on the caches of the writer. -/
def callWriter {α : Type} (writer : WriterName) (call : Call moveHash α) (sqlite : Statements)
    (s : Session moveHash) : Result α × Session moveHash :=
  match call ⟨s.db, s.writers writer, sqlite.works⟩ with
  | (r, c) => (r, ended sqlite r
      { s with db := c.db, writers := Function.update s.writers writer c.caches })

/-- A call of the store, which has caches of its own for patches. -/
def callStore {α : Type} (call : Call moveHash α) (sqlite : Statements) (s : Session moveHash) :
    Result α × Session moveHash :=
  match call ⟨s.db, s.store, sqlite.works⟩ with
  | (r, c) => (r, ended sqlite r { s with db := c.db, store := c.caches })

/-- `clear_insert_caches` of the store, which clears both caches, or of the other writer. -/
def clearInsertCaches (writer : WriterName) (s : Session moveHash) : Session moveHash :=
  let writers := Function.update s.writers writer .empty
  match writer with
  | .embedded => { s with writers, store := .empty }
  | .bulk => { s with writers }

def beginTransaction (writer : WriterName) (works : Bool) (s : Session moveHash) :
    Result (Session moveHash) :=
  if s.joined || !works then .error .ioFailure else .ok { s with batch := some (writer, s.db) }

/-- A commit that fails leaves the batch open, unless SQLite has rolled it back. -/
def commitTransaction (works undoes : Bool) (s : Session moveHash) : Session moveHash :=
  if works then { s with batch := none } else s.undone undoes

end Session

/-- A session, the records that the calls so far promise, and whether SQLite has failed in the middle
of a call inside the open batch, so that a part of the call may be left there. -/
structure Ledger (moveHash : List UInt16 → UInt64) extends Session moveHash where
  expected : ℕ → Option GameRecord
  saved : ℕ → Option GameRecord
  spoiled : Bool

namespace Ledger

def new : Ledger moveHash := ⟨.new, fun _ => none, fun _ => none, false⟩

/-- A call that promises nothing new, after which the batch may be gone, with what it promised, or
may hold a part of the call. -/
def called (risk : Bool) (s : Session moveHash) (l : Ledger moveHash) : Ledger moveHash :=
  if l.joined && !s.joined then
    { l with toSession := s, expected := l.saved, spoiled := false }
  else { l with toSession := s, spoiled := l.spoiled || (l.joined && risk) }

/-- A failed call, which may have left a part of itself in the open batch. -/
def failed (risk : Bool) (e : ErrorCode) (s : Session moveHash) (l : Ledger moveHash) :
    Ledger moveHash :=
  l.called (risk && e = .ioFailure) s

/-- A successful insert says what the game under its id is from now on. -/
def inserted (game : Game) (sqlite : Statements) (l : Ledger moveHash) :
    Result ℕ × Session moveHash → Ledger moveHash
  | (.ok id, s) =>
    { l with toSession := s, expected := Function.update l.expected id (some (.ofGame game)) }
  | (.error e, s) => l.failed (insertRisk game sqlite.works) e s

/-- A successful patch changes what its game is. -/
def patched (id : ℕ) (patch : GamePatch) (sqlite : Statements) (l : Ledger moveHash) :
    Result Unit × Session moveHash → Ledger moveHash
  | (.ok (), s) =>
    { l with
      toSession := s
      expected := Function.update l.expected id ((l.expected id).map (GameRecord.patched patch)) }
  | (.error e, s) => l.failed (patchRisk moveHash id patch l.db.toRows sqlite.works) e s

/-- One call. While a batch is open, only the writer that began it is called. -/
def step (l : Ledger moveHash) : Command → Option (Ledger moveHash)
  | .begin writer works =>
    match l.beginTransaction writer works with
    | .ok s => some { l with toSession := s, saved := l.expected }
    | .error _ => some l
  | .commit writer works undoes =>
    if l.free writer then
      let s := l.commitTransaction works undoes
      some (if works then { l with toSession := s, spoiled := false } else l.called false s)
    else none
  | .rollback writer works =>
    if l.free writer then
      match l.rolledBack works with
      | some db => some { l with
          toSession := { l.toSession with db, batch := none }.clearInsertCaches writer
          expected := l.saved
          spoiled := false }
      | none => some { l with toSession := l.clearInsertCaches writer }
    else none
  | .insert writer game sqlite =>
    if l.free writer then
      some (l.inserted game sqlite (l.callWriter writer (Store.insert l.joined game) sqlite))
    else none
  | .insertRaw writer game sqlite =>
    if l.free writer then
      some (l.inserted game sqlite (l.callWriter writer (Store.insertRaw l.joined game) sqlite))
    else none
  | .patch id patch sqlite =>
    some (l.patched id patch sqlite (l.callStore (patchMetadata l.joined id patch) sqlite))
  | .setManualProvenance id sourceLabel reviewStatus sqlite =>
    some (l.called false
      (l.callStore (Store.setManualProvenance id sourceLabel reviewStatus) sqlite).2)
  | .remove id sqlite => some (l.called false (l.callStore (Store.remove id) sqlite).2)
  | .deduplicate writer sqlite =>
    if l.free writer then
      some (l.called false (l.callWriter writer (Store.deduplicate l.joined) sqlite).2)
    else none
  | .dropIdentityIndex writer sqlite =>
    if l.free writer then
      some (l.called false (l.callWriter writer Store.dropIdentityIndex sqlite).2)
    else none
  | .clearInsertCaches writer => some { l with toSession := l.toSession.clearInsertCaches writer }

/-- Unless a call was left half done in the open batch, every game that is there reads as the calls
promise; and every cached id stands for its name. -/
structure Faithful (l : Ledger moveHash) : Prop where
  games : l.spoiled = false → ∀ id ∈ l.db.games.map GameRow.id, ∃ game record,
    l.db.get id = .ok game ∧ l.expected id = some record ∧ .ofGame game = record.read
  writers : ∀ writer, l.db.Cached (l.writers writer)
  store : l.db.Cached l.store

/-- Ids fit 32 bits, a batch in which a call may have been left half done is not committed, and when
a batch is rolled back, the caches that nobody empties have no id that the batch added: those of the
store when the import writer or a failed insert gives up, those of the writers after a failed patch,
and both when SQLite rolls back in a call that empties none. -/
def Sound (l : Ledger moveHash) : Command → Prop
  | .insert _ _ sqlite | .insertRaw _ _ sqlite =>
    l.db.nextGameId < 4294967296 ∧ ∀ db ∈ l.rolledBack sqlite.undoes, db.Cached l.store
  | .patch _ _ sqlite =>
    ∀ db ∈ l.rolledBack sqlite.undoes, ∀ writer, db.Cached (l.writers writer)
  | .commit _ works undoes => (works = true → l.spoiled = false) ∧
    ∀ db ∈ l.rolledBack undoes, db.Cached l.store ∧ ∀ writer, db.Cached (l.writers writer)
  | .setManualProvenance _ _ _ sqlite | .remove _ sqlite | .deduplicate _ sqlite
  | .dropIdentityIndex _ sqlite =>
    ∀ db ∈ l.rolledBack sqlite.undoes, db.Cached l.store ∧ ∀ writer, db.Cached (l.writers writer)
  | .rollback .bulk works => ∀ db ∈ l.rolledBack works, db.Cached l.store
  | _ => True

instance (l : Ledger moveHash) (command : Command) : Decidable (l.Sound command) := by
  unfold Sound
  split <;> infer_instance

end Ledger

end MotifChess.Db.Store
