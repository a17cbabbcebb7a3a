/- GID: MotifChess/Import/ImportPipeline
   generality: implementation
   digest: The bulk import: its start, the interleaved stages of its pipeline, and its end. -/

import MotifChess.Db.GameTable
import MotifChess.Import.PgnReader
import MotifChess.Import.PrepareGame
import MotifChess.System.Run
import Mathlib.Algebra.Group.Int.Defs
import Mathlib.Algebra.Group.Nat.Defs

/-! Counts of games stay far below the limits of their types, so that only a count below zero wraps
around.  A step of the pipeline is one stage on one token, but stage 0 has two: its checks, and the
read that follows them while later stages go on. -/

set_option autoImplicit false
set_option relaxedAutoImplicit false

namespace MotifChess.Import

open MotifChess.Chess MotifChess.Db

section Model

structure ImportConfig where
  numWorkers : ℕ
  numLines : ℕ
  buildPositionPostingsAfterImport : Bool := true
  buildOpeningTreeIndexAfterImport : Bool := false
  batchSize : ℕ := 500

structure ImportCheckpoint where
  sourcePath : String
  byteOffset : ℕ
  gamesCommitted : ℤ
  lastGameId : ℤ
  deriving DecidableEq

structure ImportSummary where
  totalAttempted : ℕ
  committed : ℕ
  skipped : ℕ
  errors : ℕ
  duplicatesRemoved : ℕ
  deriving DecidableEq

/-- The calls that fail in a step for reasons of their own. -/
structure ImportFailures where
  prepareCanonicalMutation : Bool := false
  readCheckpoint : Bool := false
  identityIndexExists : Bool := false
  countGames : Bool := false
  dropIdentityIndex : Bool := false
  beginTransaction : Bool := false
  insert : Bool := false
  commitTransaction : Bool := false
  writeCheckpoint : Bool := false
  deduplicate : Bool := false
  rebuildPositionPostings : Bool := false
  rebuildOpeningTreeIndex : Bool := false

/-- The tables as the writer's connection sees them, those that a rollback brings back while a
transaction is open, and the checkpoint file. -/
structure ImportStore where
  tables : Tables
  saved : Option Tables := none
  checkpoint : Option ImportCheckpoint := none
  deriving DecidableEq

/-- What an import is given, and how the games of its source are read, prepared and hashed. -/
structure ImportSource where
  rules : Rules
  moveHash : List UInt16 → UInt64
  normal : String → String
  importStream : List Char → List StreamItem
  file : Option (List Char)
  pgnPath : String
  config : ImportConfig

/-- A slot between the stages: read, rejected by the reader or its preparation, or prepared. -/
inductive PipelineSlot
  | ready (pgnGame : PgnGame) (nextGameOffset : ℕ)
  | parseError
  | prepared (gameRow : Game) (nextGameOffset : ℕ)

/-- The game of a slot that stage 1 has prepared. -/
def PipelineSlot.gameRow : PipelineSlot → Option Game
  | .prepared game _ => some game
  | _ => none

/-- The members of the pipeline and the variables of `run_from`. -/
structure ImportRun where
  store : ImportStore
  reader : PgnReader
  preCommitted : ℤ
  reading : Bool := false
  slots : List PipelineSlot := []
  ended : Bool := false
  lastGameId : ℤ
  committed : ℤ
  batchPending : ℕ := 0
  eofReached : Bool := false
  stopped : Bool := false
  checkpointOffset : ℕ
  fatalError : Option ErrorCode := none
  stopRequested : Bool
  gamesProcessed : ℕ := 0
  gamesCommitted : ℕ := 0
  gamesSkipped : ℕ := 0
  gamesErrored : ℕ := 0

def ReadError.errorCode : ReadError → ErrorCode
  | .ioFailure => .ioFailure
  | .eof => .eof
  | .parseError => .parseError

/-- A signed count as a `std::size_t`. -/
def toSize (count : ℤ) : ℕ := if 0 ≤ count then count.toNat else (2 ^ 64 + count).toNat

/-- `fetch_sub` on a counter. -/
def fetchSub (counter n : ℕ) : ℕ := if n ≤ counter then counter - n else 2 ^ 64 + counter - n

end Model

namespace ImportStore

variable (moveHash : List UInt16 → UInt64) (failures : ImportFailures) (store : ImportStore)

/-- `begin_sqlite_batch`. -/
def beginBatch : ImportStore × Bool :=
  if store.saved.isSome then (store, true)
  else if failures.beginTransaction then (store, false)
  else ({ store with saved := some store.tables }, true)

/-- `rollback_sqlite_batch`. -/
def rollbackBatch : ImportStore := { store with tables := store.saved.getD store.tables, saved := none }

/-- `commit_sqlite_batch`. -/
def commitBatch : ImportStore × Bool :=
  if store.saved.isNone then (store, true)
  else if failures.commitTransaction then (store, false)
  else ({ store with saved := none }, true)

/-- `game_writer::deduplicate`, and how many rows it has removed. -/
def deduplicate : ImportStore × Option ℕ :=
  if failures.deduplicate then (store, none)
  else
    match store.tables.deduplicate moveHash with
    | .ok (tables, removed) => ({ store with tables }, some removed)
    | .error _ => (store, none)

/-- An insert, in the open transaction or in one of its own. -/
def insertGame (rawMode : Bool) (game : Game) : ImportStore × Result ℕ :=
  if failures.insert then (store, .error .ioFailure)
  else
    let write := if rawMode then Tables.insertRaw moveHash game else Tables.insert moveHash game
    let (tables, inserted) := if store.saved.isSome then write store.tables else store.tables.alone write
    ({ store with tables }, inserted)

end ImportStore

namespace ImportRun

variable (source : ImportSource)

def rawMode (run : ImportRun) : Bool := run.preCommitted = 0

/-- `write_progress_checkpoint`; a failure is only logged. -/
def writeProgressCheckpoint (failures : ImportFailures) (run : ImportRun) : ImportRun :=
  if failures.writeCheckpoint then run
  else
    let checkpoint := ⟨source.pgnPath, run.checkpointOffset, run.committed, run.lastGameId⟩
    { run with store.checkpoint := some checkpoint }

/-- `restore_identity_index`. -/
def restoreIdentityIndex (failures : ImportFailures) (run : ImportRun) : ImportRun :=
  if run.rawMode then { run with store := (run.store.deduplicate source.moveHash failures).1 } else run

/-- The writer has failed: nothing more is read, and the run ends with an error. -/
def fail (run : ImportRun) : ImportRun :=
  { run with fatalError := some .ioFailure, eofReached := true }

section Stages

/-- The checks of stage 0, on a line that is free. -/
def takeLine (run : ImportRun) : Option ImportRun :=
  if run.ended ∨ run.reading ∨ source.config.numLines ≤ run.slots.length then none
  else if run.stopRequested then some { run with stopped := true, eofReached := true, ended := true }
  else if run.eofReached then some { run with ended := true }
  else some { run with reading := true }

/-- The rest of stage 0: the next game of the source. -/
def read (run : ImportRun) : Option ImportRun :=
  if !run.reading then none
  else
    match run.reader.next with
    | (.ok pgnGame, reader) => some { run with
      reader, reading := false, slots := run.slots ++ [.ready pgnGame reader.byteOffset] }
    | (.error .parseError, reader) => some { run with
      reader, reading := false, slots := run.slots ++ [.parseError] }
    | (.error e, reader) => some { run with
      reader, reading := false, fatalError := some e.errorCode, eofReached := true, ended := true }

/-- Stage 1 on a slot that has been read. -/
def prepare (i : ℕ) (run : ImportRun) : Option ImportRun :=
  match run.slots[i]? with
  | some (.ready pgnGame nextGameOffset) =>
    match prepareGame source.rules pgnGame with
    | .ok game => some { run with slots := run.slots.set i (.prepared game nextGameOffset) }
    | .error _ => some { run with slots := run.slots.set i .parseError }
  | _ => none

/-- The end of a batch: commit it, write a checkpoint, and begin another one unless stopped. -/
def endBatch (failures : ImportFailures) (run : ImportRun) : ImportRun :=
  match run.store.commitBatch failures with
  | (store, false) => { run with store := store.rollbackBatch }.fail
  | (store, true) =>
    let run := { { run with store }.writeProgressCheckpoint source failures with batchPending := 0 }
    if run.stopRequested then { run with stopped := true, eofReached := true }
    else
      match run.store.beginBatch failures with
      | (store, false) => { run with store }.fail
      | (store, true) => { run with store }

/-- A game is in the store. -/
def noteInserted (id nextGameOffset : ℕ) (run : ImportRun) : ImportRun :=
  { run with
    checkpointOffset := nextGameOffset
    lastGameId := id
    committed := run.committed + 1
    batchPending := run.batchPending + 1
    gamesCommitted := run.gamesCommitted + 1 }

/-- Stage 2 on the oldest slot. -/
def write (failures : ImportFailures) (run : ImportRun) : Option ImportRun :=
  match run.slots with
  | [] | .ready _ _ :: _ => none
  | .parseError :: slots => some { run with
    slots
    gamesProcessed := run.gamesProcessed + 1
    gamesSkipped := run.gamesSkipped + 1
    gamesErrored := run.gamesErrored + 1 }
  | .prepared game nextGameOffset :: slots =>
    let run := { run with slots, gamesProcessed := run.gamesProcessed + 1 }
    match run.store.insertGame source.moveHash failures run.rawMode game with
    | (store, .error .duplicate) => some { run with store, gamesSkipped := run.gamesSkipped + 1 }
    | (store, .error _) => some { run with
      store := store.rollbackBatch, gamesErrored := run.gamesErrored + 1 }.fail
    | (store, .ok id) =>
      let run := { run with store }.noteInserted id nextGameOffset
      if source.config.batchSize ≤ run.batchPending then some (run.endBatch source failures) else some run

end Stages

/-- A step of the pipeline, or a request to stop it from another thread. -/
inductive Action
  | requestStop
  | takeLine
  | read
  | prepare (i : ℕ)
  | write (failures : ImportFailures)

def step (run : ImportRun) : Action → Option ImportRun
  | .requestStop => some { run with stopRequested := true }
  | .takeLine => run.takeLine source
  | .read => run.read
  | .prepare i => run.prepare source i
  | .write failures => run.write source failures

/-- The pipeline is over: stage 0 has ended it and every token has gone through it, or a stage has
called `stop` for a stop request or an error, which may drop the tokens in flight. -/
def Drained (run : ImportRun) : Prop :=
  run.reading = false ∧
    (run.ended = true ∧ run.slots = [] ∨ run.stopped = true ∨ run.fatalError = some .ioFailure)

instance (run : ImportRun) : Decidable run.Drained :=
  inferInstanceAs (Decidable (_ ∧ (_ ∧ run.slots = [] ∨ _)))

section End

def summary (duplicatesRemoved : ℕ) (run : ImportRun) : ImportSummary where
  totalAttempted := run.gamesProcessed
  committed := toSize (run.committed - run.preCommitted)
  skipped := run.gamesSkipped
  errors := run.gamesErrored
  duplicatesRemoved := duplicatesRemoved

/-- The counts after so many duplicates have been removed. -/
def noteRemoved (removed : ℕ) (run : ImportRun) : ImportRun :=
  { run with
    committed := run.committed - removed
    gamesCommitted := fetchSub run.gamesCommitted removed
    gamesSkipped := run.gamesSkipped + removed }

/-- What `run_from` does after the duplicates are gone: a stopped run leaves a checkpoint, any other
one rebuilds the indexes and deletes it. -/
def conclude (failures : ImportFailures) (duplicatesRemoved : ℕ) (run : ImportRun) :
    ImportRun × Except ErrorCode ImportSummary :=
  if run.stopped || run.stopRequested then
    let run := run.writeProgressCheckpoint source failures
    (run, .ok (run.summary duplicatesRemoved))
  else if source.config.buildPositionPostingsAfterImport && failures.rebuildPositionPostings then
    (run, .error .ioFailure)
  else if source.config.buildOpeningTreeIndexAfterImport && failures.rebuildOpeningTreeIndex then
    (run, .error .ioFailure)
  else
    let run := { run with store.checkpoint := none }
    (run, .ok (run.summary duplicatesRemoved))

/-- What `run_from` does once the pipeline has drained. -/
def finish (failures : ImportFailures) (run : ImportRun) :
    ImportRun × Except ErrorCode ImportSummary :=
  let abandon (store : ImportStore) (e : ErrorCode) : ImportRun × Except ErrorCode ImportSummary :=
    ({ run with store := store.rollbackBatch }.restoreIdentityIndex source failures, .error e)
  match run.fatalError.filter (· ≠ .eof) with
  | some e => abandon run.store e
  | none =>
    match run.store.commitBatch failures with
    | (store, false) => abandon store .ioFailure
    | (store, true) =>
      if run.rawMode then
        match store.deduplicate source.moveHash failures with
        | (store, none) => ({ run with store }, .error .ioFailure)
        | (store, some removed) =>
          ({ run with store }.noteRemoved removed).conclude source failures removed
      else { run with store }.conclude source failures 0

end End

end ImportRun

section Start

variable (source : ImportSource) (failures : ImportFailures) (stopRequested : Bool)

/-- `run_from` up to its pipeline. -/
def runFrom (startOffset : ℕ) (preCommitted preLastGameId : ℤ) (store : ImportStore) :
    ImportStore × Except ErrorCode ImportRun :=
  if failures.prepareCanonicalMutation then (store, .error .ioFailure)
  else if source.config.numWorkers = 0 ∨ source.config.numLines = 0 then (store, .error .invalidState)
  else
    let reader := PgnReader.new source.importStream source.file
    let (sought, reader) := if 0 < startOffset then
      PgnReader.seekToOffset source.importStream source.file startOffset reader else (.ok (), reader)
    match sought with
    | .error _ => (store, .error .ioFailure)
    | .ok () =>
      let rawMode : Bool := preCommitted = 0
      if rawMode && failures.dropIdentityIndex then (store, .error .ioFailure)
      else
        let store := if rawMode then { store with tables := store.tables.dropIdentityIndex } else store
        match store.beginBatch failures with
        | (store, false) =>
          (if rawMode then (store.deduplicate source.moveHash failures).1 else store, .error .ioFailure)
        | (store, true) => (store, .ok {
          store, reader, preCommitted, stopRequested
          lastGameId := preLastGameId
          committed := preCommitted
          checkpointOffset := startOffset })

/-- `resume_from_checkpoint`. Without its identity index, the database is reconciled first. -/
def resumeFromCheckpoint (checkpoint : ImportCheckpoint) (store : ImportStore) :
    ImportStore × Except ErrorCode ImportRun :=
  if source.normal checkpoint.sourcePath ≠ source.normal source.pgnPath then
    (store, .error .invalidState)
  else if failures.identityIndexExists then (store, .error .ioFailure)
  else if store.tables.identityIndex then
    runFrom source failures stopRequested checkpoint.byteOffset checkpoint.gamesCommitted
      checkpoint.lastGameId store
  else
    match store.deduplicate source.moveHash failures with
    | (store, none) => (store, .error .ioFailure)
    | (store, some _) =>
      if failures.countGames then (store, .error .ioFailure)
      else runFrom source failures stopRequested checkpoint.byteOffset store.tables.games.length
        checkpoint.lastGameId store

/-- `import_pipeline::run` up to its pipeline. -/
def run (store : ImportStore) : ImportStore × Except ErrorCode ImportRun :=
  if source.config.numWorkers = 0 ∨ source.config.numLines = 0 then (store, .error .invalidState)
  else if failures.readCheckpoint then (store, .error .ioFailure)
  else
    match store.checkpoint with
    | none => runFrom source failures stopRequested 0 0 0 store
    | some checkpoint =>
      if source.normal checkpoint.sourcePath = source.normal source.pgnPath then
        match resumeFromCheckpoint source failures stopRequested checkpoint store with
        | (store, .error .invalidState) =>
          runFrom source failures stopRequested 0 0 0 { store with checkpoint := none }
        | resumed => resumed
      else runFrom source failures stopRequested 0 0 0 store

/-- `import_pipeline::resume` up to its pipeline. -/
def resume (store : ImportStore) : ImportStore × Except ErrorCode ImportRun :=
  if failures.readCheckpoint then (store, .error .ioFailure)
  else
    match store.checkpoint with
    | none => (store, .error .ioFailure)
    | some checkpoint => resumeFromCheckpoint source failures stopRequested checkpoint store

end Start

end MotifChess.Import
