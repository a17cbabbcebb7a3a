/- GID: MotifChess/Import/Sessions
   generality: implementation
   digest: The sessions of one import: started, resumed, failed, stopped, finished and cut by crashes. -/

import MotifChess.Db.Deduplicate
import MotifChess.Import.ImportPipeline
import MotifChess.Import.SourceReads

/-! The configuration may change from one session to the next. A crash inside the start of a session
leaves what a failed call there leaves, and one inside a step of stage 2 what a failed checkpoint
followed by a crash leaves; only the end of a run needs a crash of its own. -/

set_option autoImplicit false
set_option relaxedAutoImplicit false

namespace MotifChess.Import

open MotifChess.Chess MotifChess.Db

section Model

namespace ImportStore

/-- What another connection sees, and what a crash leaves: the tables without the open transaction. -/
def durable (store : ImportStore) : Tables := store.saved.getD store.tables

end ImportStore

/-- The same source, imported under a configuration. -/
def ImportSource.under (config : ImportConfig) (source : ImportSource) : ImportSource :=
  { source with config }

namespace ImportRun

variable (source : ImportSource)

/-- The writer fails in a step of the pipeline: it does not store a game that is new, or does not
commit the batch that the game fills. -/
def writerFails (run : ImportRun) : Action → Bool
  | .write failures =>
    (run.slots.head?.bind PipelineSlot.gameRow).any fun game =>
      let (store, inserted) := run.store.insertGame source.moveHash failures run.rawMode game
      match inserted with
      | .ok _ => decide (source.config.batchSize ≤ run.batchPending + 1) && !(store.commitBatch failures).2
      | .error e => decide (e ≠ .duplicate)
  | _ => false

/-- The store of a run between its last commit and what it does about the checkpoint. -/
def settle (failures : ImportFailures) (run : ImportRun) : ImportStore :=
  match run.store.commitBatch failures with
  | (store, false) => store
  | (store, true) =>
    if run.rawMode then (store.deduplicate source.moveHash failures).1 else store

/-- The pipeline has ended without an error of its own. -/
def Ends (run : ImportRun) : Prop := run.Drained ∧ run.fatalError.filter (· ≠ .eof) = none

instance (run : ImportRun) : Decidable run.Ends := inferInstanceAs (Decidable (_ ∧ _))

end ImportRun

/-- The import of a source between two sessions, or inside one: its configuration, its run, and
whether its writer has failed in it. -/
inductive Session
  | idle (store : ImportStore)
  | importing (config : ImportConfig) (run : ImportRun) (writerFailed : Bool)

namespace Session

def store : Session → ImportStore
  | .idle store => store
  | .importing _ run _ => run.store

inductive Action
  | run (config : ImportConfig) (failures : ImportFailures) (stopRequested : Bool)
  | resume (config : ImportConfig) (failures : ImportFailures) (stopRequested : Bool)
  | pipeline (action : ImportRun.Action)
  | finish (failures : ImportFailures)
  | crash
  | crashAtEnd (failures : ImportFailures)

/-- The session that a call starts, unless it returns an error. -/
def opened (config : ImportConfig) : ImportStore × Except ErrorCode ImportRun → Session
  | (_, .ok run) => .importing config run false
  | (store, .error _) => .idle store

def step (source : ImportSource) : Session → Action → Option Session
  | .idle store, .run config failures stopRequested =>
    some (opened config (Import.run (source.under config) failures stopRequested store))
  | .idle store, .resume config failures stopRequested =>
    some (opened config (Import.resume (source.under config) failures stopRequested store))
  | .importing config run writerFailed, .pipeline action =>
    (run.step (source.under config) action).map fun run' =>
      .importing config run' (writerFailed || run.writerFails (source.under config) action)
  | .importing config run _, .finish failures =>
    if run.Drained then some (.idle (run.finish (source.under config) failures).1.store) else none
  | .importing config run _, .crashAtEnd failures =>
    if run.Ends then some (.idle (run.settle (source.under config) failures).rollbackBatch) else none
  | session, .crash => some (.idle session.store.rollbackBatch)
  | _, _ => none

/-- The sessions that a run of allowed actions reaches from a store. -/
def Reaches (source : ImportSource) (allowed : Session → Action → Prop) (store : ImportStore)
    (session : Session) : Prop :=
  System.Reaches (step source) allowed (.idle store) session

end Session

end Model

section Stores

variable {moveHash : List UInt16 → UInt64} {failures : ImportFailures} {store store' : ImportStore}

namespace ImportStore

theorem durable_of_none (h : store.saved = none) : store.durable = store.tables := by
  rw [durable, h, Option.getD_none]

theorem durable_of_some {saved : Tables} (h : store.saved = some saved) : store.durable = saved := by
  rw [durable, h, Option.getD_some]

/-- In the same transaction nothing lasts that has not lasted, and outside of any all of it does. -/
theorem durable_of_saved (h : store'.saved = store.saved) :
    store'.durable = store.durable ∨ store'.durable = store'.tables := by
  cases hsaved : store.saved with
  | none => exact .inr (durable_of_none (h.trans hsaved))
  | some saved =>
    rw [durable_of_some hsaved, durable_of_some (h.trans hsaved)]
    exact .inl rfl

@[simp] theorem rollbackBatch_tables : store.rollbackBatch.tables = store.durable := rfl

@[simp] theorem rollbackBatch_saved : store.rollbackBatch.saved = none := rfl

@[simp] theorem rollbackBatch_durable : store.rollbackBatch.durable = store.durable := rfl

@[simp] theorem rollbackBatch_checkpoint : store.rollbackBatch.checkpoint = store.checkpoint := rfl

theorem beginBatch_cases (store : ImportStore) (failures : ImportFailures) :
    store.beginBatch failures = (store, true) ∨
      (failures.beginTransaction = true ∧ store.beginBatch failures = (store, false)) ∨
      store.saved = none ∧
        store.beginBatch failures = ({ store with saved := some store.tables }, true) := by
  rw [beginBatch]
  split_ifs with hopen hfails
  · exact .inl rfl
  · exact .inr (.inl ⟨hfails, rfl⟩)
  · exact .inr (.inr ⟨Option.not_isSome_iff_eq_none.mp hopen, rfl⟩)

theorem commitBatch_cases (store : ImportStore) (failures : ImportFailures) :
    store.commitBatch failures = ({ store with saved := none }, true) ∨
      failures.commitTransaction = true ∧ store.commitBatch failures = (store, false) := by
  rw [commitBatch]
  split_ifs with hnone hfails
  · refine .inl ?_
    rw [← Option.isNone_iff_eq_none.mp hnone]
  · exact .inr ⟨hfails, rfl⟩
  · exact .inl rfl

theorem commitBatch_eq (h : failures.commitTransaction = false) (store : ImportStore) :
    store.commitBatch failures = ({ store with saved := none }, true) := by
  rcases store.commitBatch_cases failures with hok | ⟨hfails, -⟩
  · exact hok
  · rw [h] at hfails
    cases hfails

theorem deduplicate_cases (moveHash : List UInt16 → UInt64) (store : ImportStore)
    (failures : ImportFailures) :
    store.deduplicate moveHash failures = (store, none) ∨
      ∃ tables removed, store.tables.deduplicate moveHash = .ok (tables, removed) ∧
        store.deduplicate moveHash failures = ({ store with tables }, some removed) := by
  rw [deduplicate]
  split_ifs
  · exact .inl rfl
  · refine .inr ⟨_, _, Tables.deduplicate_eq, ?_⟩
    rw [Tables.deduplicate_eq]

private theorem write_spec (rawMode : Bool) (game : Game) (t : Tables) :
    let write := if rawMode then Tables.insertRaw moveHash game else Tables.insert moveHash game
    (∃ collision id, write t = ((t.findOrInsertNames game).addRow collision (.ofGame game), .ok id)) ∨
      (rawMode = false ∧ t.Holds game ∧ write t = (t.findOrInsertNames game, .error .duplicate)) ∨
      ∃ u, write t = (u, .error .ioFailure) := by
  intro write
  cases rawMode with
  | true =>
    have hcases : write t = _ ∨ ∃ u, write t = (u, _) := Tables.insertRaw_cases
    exact hcases.imp (fun hok => ⟨_, _, hok⟩) .inr
  | false =>
    have hcases : (∃ collision, write t = (Tables.addRow collision _ _, _)) ∨
        (t.Holds game ∧ write t = _) ∨ ∃ u, write t = (u, _) := Tables.insert_cases
    exact hcases.imp (fun ⟨collision, hok⟩ => ⟨collision, _, hok⟩)
      (Or.imp (fun hduplicate => ⟨rfl, hduplicate⟩) id)

/-- What an insert leaves of a store; outside a transaction a failed one leaves all of it. -/
theorem insertGame_spec (moveHash : List UInt16 → UInt64) (failures : ImportFailures)
    (rawMode : Bool) (game : Game) :
    (∃ collision id, store.insertGame moveHash failures rawMode game = ({ store with
        tables := (store.tables.findOrInsertNames game).addRow collision (.ofGame game) }, .ok id) ∧
        (if rawMode then Tables.insertRaw moveHash game else Tables.insert moveHash game) store.tables =
          ((store.tables.findOrInsertNames game).addRow collision (.ofGame game), .ok id)) ∨
      (rawMode = false ∧ store.tables.Holds game ∧ ∃ tables,
        (tables = store.tables ∨ tables = store.tables.findOrInsertNames game) ∧
        store.insertGame moveHash failures rawMode game =
          ({ store with tables }, .error .duplicate)) ∨
      ∃ tables, (store.saved = none → tables = store.tables) ∧
        store.insertGame moveHash failures rawMode game =
          ({ store with tables }, .error .ioFailure) := by
  rw [insertGame]
  by_cases hfails : failures.insert = true
  · rw [if_pos hfails]
    exact .inr (.inr ⟨store.tables, fun _ => rfl, rfl⟩)
  rw [if_neg hfails]
  have hcases := @write_spec moveHash rawMode game store.tables
  dsimp only at hcases ⊢
  by_cases hopen : store.saved.isSome = true
  · have hsaved : store.saved ≠ none := Option.isSome_iff_ne_none.mp hopen
    simp only [hopen, if_true]
    rcases hcases with ⟨collision, id, hok⟩ | ⟨hraw, hholds, hduplicate⟩ | ⟨tables, herror⟩
    · rw [hok]
      exact .inl ⟨collision, id, rfl, rfl⟩
    · rw [hduplicate]
      exact .inr (.inl ⟨hraw, hholds, _, .inr rfl, rfl⟩)
    · rw [herror]
      exact .inr (.inr ⟨tables, fun hnone => absurd hnone hsaved, rfl⟩)
  · simp only [hopen, Tables.alone]
    rcases hcases with ⟨collision, id, hok⟩ | ⟨hraw, hholds, hduplicate⟩ | ⟨tables, herror⟩
    · rw [hok]
      exact .inl ⟨collision, id, rfl, rfl⟩
    · rw [hduplicate]
      exact .inr (.inl ⟨hraw, hholds, _, .inl rfl, rfl⟩)
    · rw [herror]
      exact .inr (.inr ⟨_, fun _ => rfl, rfl⟩)

end ImportStore

end Stores

end MotifChess.Import
