/- GID: MotifChess/Import/SessionSteps
   generality: implementation
   digest: What the steps of an import session can do: its start, stage 2, and its end. -/

import MotifChess.Import.Sessions

set_option autoImplicit false
set_option relaxedAutoImplicit false

namespace MotifChess.Import

open MotifChess.Chess MotifChess.Db

variable {source : ImportSource} {failures : ImportFailures} {stopRequested : Bool}
variable {store : ImportStore} {run run' : ImportRun}

namespace ImportRun

section Writing

/-- A step of stage 2 leaves the reader alone, and only ever raises the flags that end the reading. -/
structure KeepsReading (run run' : ImportRun) : Prop where
  reader : run'.reader = run.reader
  reading : run'.reading = run.reading
  ended : run'.ended = run.ended
  preCommitted : run'.preCommitted = run.preCommitted
  fatalError : run'.fatalError = run.fatalError ∨ run'.fatalError = some .ioFailure
  stopped : run.stopped = true → run'.stopped = true
  eofReached : run'.eofReached = true →
    run.eofReached = true ∨ run'.stopped = true ∨ run'.fatalError = some .ioFailure

/-- One token more has gone through stage 2, and so many games more count as committed and skipped. -/
structure Counts (committed skipped : ℕ) (run run' : ImportRun) : Prop where
  processed : run'.gamesProcessed = run.gamesProcessed + 1
  games : run'.gamesCommitted = run.gamesCommitted + committed
  skipped : run'.gamesSkipped = run.gamesSkipped + skipped
  committed : run'.committed = run.committed + committed

/-- What stage 2 does with a slot. -/
inductive Writes (source : ImportSource) (failures : ImportFailures) (run run' : ImportRun) :
    PipelineSlot → Prop
  | skipped (hstore : run'.store = run.store)
      (hoffset : run'.checkpointOffset = run.checkpointOffset)
      (hcounts : run.Counts 0 1 run')
      (hworks : run.writerFails source (.write failures) = false) :
      Writes source failures run run' .parseError
  | duplicate {game : Game} {nextGameOffset : ℕ} {tables : Tables}
      (hraw : run.rawMode = false) (hholds : run.store.tables.Holds game)
      (htables : tables = run.store.tables ∨ tables = run.store.tables.findOrInsertNames game)
      (hstore : run'.store = { run.store with tables })
      (hoffset : run'.checkpointOffset = run.checkpointOffset)
      (hcounts : run.Counts 0 1 run')
      (hworks : run.writerFails source (.write failures) = false) :
      Writes source failures run run' (.prepared game nextGameOffset)
  | failed {game : Game} {nextGameOffset : ℕ}
      (hfails : run.writerFails source (.write failures) = true)
      (hstore : run'.store = run.store.rollbackBatch)
      (hcounts : run.Counts 0 0 run' ∨ run.Counts 1 0 run') :
      Writes source failures run run' (.prepared game nextGameOffset)
  | stored {game : Game} {nextGameOffset collision id : ℕ}
      (hwrite : (if run.rawMode then Tables.insertRaw source.moveHash game
        else Tables.insert source.moveHash game) run.store.tables = (run'.store.tables, .ok id))
      (htables : run'.store.tables =
        (run.store.tables.findOrInsertNames game).addRow collision (.ofGame game))
      (hoffset : run'.checkpointOffset = nextGameOffset)
      (hcounts : run.Counts 1 0 run')
      (hbatch : run'.store.saved = run.store.saved ∧ run'.store.checkpoint = run.store.checkpoint ∨
        source.config.batchSize ≤ run.batchPending + 1 ∧
          run'.store.durable = run'.store.tables ∧
          (run'.store.checkpoint = run.store.checkpoint ∨ ∃ lastGameId, run'.store.checkpoint =
            some ⟨source.pgnPath, nextGameOffset, run.committed + 1, lastGameId⟩))
      (hworks : run.writerFails source (.write failures) = false) :
      Writes source failures run run' (.prepared game nextGameOffset)

/-- The end of a batch that is committed: the checkpoint is written or not, and another batch begun
or the reading ended. -/
private theorem endBatch_committed (hcommit : (run.store.commitBatch failures).2 = true) :
    ∃ saved checkpoint stopped eofReached fatalError,
      run.endBatch source failures = { run with
        store := ⟨run.store.tables, saved, checkpoint⟩, batchPending := 0
        stopped, eofReached, fatalError } ∧
      (saved = none ∨ saved = some run.store.tables) ∧
      (checkpoint = run.store.checkpoint ∨ checkpoint =
        some ⟨source.pgnPath, run.checkpointOffset, run.committed, run.lastGameId⟩) ∧
      (fatalError = run.fatalError ∨ fatalError = some .ioFailure) ∧
      (run.stopped = true → stopped = true) ∧
      (eofReached = true → run.eofReached = true ∨ stopped = true ∨ fatalError = some .ioFailure) := by
  unfold endBatch
  rcases run.store.commitBatch_cases failures with hok | ⟨hfails, hfailed⟩
  · rw [hok]
    dsimp only
    obtain ⟨checkpoint, hcheckpoint, hwritten⟩ : ∃ checkpoint,
        (checkpoint = run.store.checkpoint ∨ checkpoint =
          some ⟨source.pgnPath, run.checkpointOffset, run.committed, run.lastGameId⟩) ∧
        { run with store.saved := none }.writeProgressCheckpoint source failures =
          { run with store := ⟨run.store.tables, none, checkpoint⟩ } := by
      unfold writeProgressCheckpoint
      split_ifs
      · exact ⟨_, .inl rfl, rfl⟩
      · exact ⟨_, .inr rfl, rfl⟩
    rw [hwritten]
    dsimp only
    split_ifs with hstop
    · exact ⟨none, checkpoint, true, true, run.fatalError, rfl, .inl rfl, hcheckpoint, .inl rfl,
        fun _ => rfl, fun _ => .inr (.inl rfl)⟩
    · rcases ImportStore.beginBatch_cases ⟨run.store.tables, none, checkpoint⟩ failures with
        hopen | ⟨-, hfailed⟩ | ⟨-, hbegun⟩
      · rw [hopen]
        exact ⟨none, checkpoint, run.stopped, run.eofReached, run.fatalError, rfl, .inl rfl,
          hcheckpoint, .inl rfl, id, .inl⟩
      · rw [hfailed]
        exact ⟨none, checkpoint, run.stopped, true, some .ioFailure, rfl, .inl rfl, hcheckpoint,
          .inr rfl, id, fun _ => .inr (.inr rfl)⟩
      · rw [hbegun]
        exact ⟨some run.store.tables, checkpoint, run.stopped, run.eofReached, run.fatalError, rfl,
          .inr rfl, hcheckpoint, .inl rfl, id, .inl⟩
  · rw [hfailed] at hcommit
    cases hcommit

private theorem endBatch_failed (hcommit : (run.store.commitBatch failures).2 = false) :
    run.endBatch source failures = { run with store := run.store.rollbackBatch }.fail := by
  unfold endBatch
  rcases run.store.commitBatch_cases failures with hok | ⟨hfails, hfailed⟩
  · rw [hok] at hcommit
    cases hcommit
  · rw [hfailed]

theorem writerFails_of_ok {game : Game} {id : ℕ}
    (hgame : run.slots.head?.bind PipelineSlot.gameRow = some game)
    (hok : (run.store.insertGame source.moveHash failures run.rawMode game).2 = .ok id) :
    run.writerFails source (.write failures) =
      (decide (source.config.batchSize ≤ run.batchPending + 1) &&
        !((run.store.insertGame source.moveHash failures run.rawMode game).1.commitBatch failures).2) := by
  simp only [writerFails, hgame, Option.any_some, hok]

theorem writerFails_of_error {game : Game} {e : Db.ErrorCode}
    (hgame : run.slots.head?.bind PipelineSlot.gameRow = some game)
    (herror : (run.store.insertGame source.moveHash failures run.rawMode game).2 = .error e) :
    run.writerFails source (.write failures) = decide (e ≠ .duplicate) := by
  simp only [writerFails, hgame, Option.any_some, herror]

/-- Stage 2 takes the oldest slot, and leaves the reading to the other stages. -/
theorem writes_of_write (h : run.write source failures = some run') : ∃ slot,
    run.slots = slot :: run'.slots ∧ run.KeepsReading run' ∧ Writes source failures run run' slot := by
  unfold write at h
  split at h
  · cases h
  · cases h
  next slots hslots =>
    obtain rfl := Option.some.inj h
    exact ⟨_, hslots, ⟨rfl, rfl, rfl, rfl, .inl rfl, id, .inl⟩,
      .skipped rfl rfl ⟨rfl, rfl, rfl, (Int.add_zero _).symm⟩ (by rw [writerFails, hslots]; rfl)⟩
  next game nextGameOffset slots hslots =>
    have hgame : run.slots.head?.bind PipelineSlot.gameRow = some game := by
      rw [hslots]
      rfl
    have hfailsOk := @writerFails_of_ok source failures run game
    have hfailsError := @writerFails_of_error source failures run game
    unfold rawMode at h hfailsOk hfailsError
    dsimp only at h
    rcases run.store.insertGame_spec _ failures (decide (run.preCommitted = 0)) game with
      ⟨collision, id, hok, hwrite⟩ | ⟨hraw, hholds, tables, htables, hduplicate⟩ |
      ⟨tables, hsame, herror⟩
    · have hfails := hfailsOk hgame (congrArg Prod.snd hok)
      rw [hok] at h hfails
      dsimp only at h hfails
      split_ifs at h with hfull
      · obtain rfl := Option.some.inj h
        have hfull' : source.config.batchSize ≤ run.batchPending + 1 := hfull
        generalize hnoted : ({ run with
          store := { run.store with
            tables := (run.store.tables.findOrInsertNames game).addRow collision (.ofGame game) }
          slots, gamesProcessed := run.gamesProcessed + 1 } : ImportRun).noteInserted id
            nextGameOffset = noted
        cases hcommit : (noted.store.commitBatch failures).2 with
        | true =>
          obtain ⟨saved, checkpoint, stopped, eofReached, fatalError, hended, hsaved, hcheckpoint,
            hfatal, hstopped, heof⟩ := @endBatch_committed source failures noted hcommit
          rw [hended]
          subst hnoted
          refine ⟨_, hslots, ⟨rfl, rfl, rfl, rfl, hfatal, hstopped, heof⟩,
            .stored hwrite rfl rfl ⟨rfl, rfl, rfl, rfl⟩ (.inr ⟨hfull', ?_, ?_⟩) ?_⟩
          · rcases hsaved with rfl | rfl <;> rfl
          · rcases hcheckpoint with hkept | hnew
            · exact .inl hkept
            · exact .inr ⟨_, hnew⟩
          · rw [hfails, decide_eq_true hfull', Bool.true_and]
            exact congrArg not hcommit
        | false =>
          rw [endBatch_failed hcommit]
          subst hnoted
          refine ⟨_, hslots, ⟨rfl, rfl, rfl, rfl, .inr rfl, fun hs => hs, fun _ => .inr (.inr rfl)⟩,
            .failed ?_ ?_ (.inr ⟨rfl, rfl, rfl, rfl⟩)⟩
          · rw [hfails, decide_eq_true hfull', Bool.true_and]
            exact congrArg not hcommit
          · cases hsaved : run.store.saved with
            | none =>
              rw [ImportStore.commitBatch, if_pos (by simp [noteInserted, hsaved])] at hcommit
              cases hcommit
            | some tables => simp [ImportStore.rollbackBatch, noteInserted, fail, hsaved]
      · obtain rfl := Option.some.inj h
        have hfull' : ¬source.config.batchSize ≤ run.batchPending + 1 := hfull
        refine ⟨_, hslots, ⟨rfl, rfl, rfl, rfl, .inl rfl, fun hs => hs, .inl⟩,
          .stored hwrite rfl rfl ⟨rfl, rfl, rfl, rfl⟩ (.inl ⟨rfl, rfl⟩) ?_⟩
        rw [hfails, decide_eq_false hfull', Bool.false_and]
    · have hfails := hfailsError hgame (congrArg Prod.snd hduplicate)
      rw [hduplicate] at h
      obtain rfl := Option.some.inj h
      exact ⟨_, hslots, ⟨rfl, rfl, rfl, rfl, .inl rfl, fun hs => hs, .inl⟩,
        .duplicate hraw hholds htables rfl rfl ⟨rfl, rfl, rfl, (Int.add_zero _).symm⟩
          (by rw [hfails]; rfl)⟩
    · have hfails := hfailsError hgame (congrArg Prod.snd herror)
      rw [herror] at h
      obtain rfl := Option.some.inj h
      refine ⟨_, hslots, ⟨rfl, rfl, rfl, rfl, .inr rfl, fun hs => hs, fun _ => .inr (.inr rfl)⟩,
        .failed (by rw [hfails]; rfl) ?_ (.inl ⟨rfl, rfl, rfl, (Int.add_zero _).symm⟩)⟩
      cases hsaved : run.store.saved with
      | none => simp [ImportStore.rollbackBatch, fail, hsaved, hsame hsaved]
      | some saved => simp [ImportStore.rollbackBatch, fail, hsaved]

theorem store_of_step {action : Action} (h : run.step source action = some run')
    (hreads : ∀ failures, action ≠ .write failures) :
    run'.store = run.store ∧ run'.preCommitted = run.preCommitted := by
  cases action with
  | requestStop =>
    obtain rfl := Option.some.inj h
    exact ⟨rfl, rfl⟩
  | takeLine =>
    simp only [step, takeLine] at h
    split_ifs at h <;>
    · obtain rfl := Option.some.inj h
      exact ⟨rfl, rfl⟩
  | read =>
    simp only [step, read] at h
    split_ifs at h
    split at h <;>
    · obtain rfl := Option.some.inj h
      exact ⟨rfl, rfl⟩
  | prepare i =>
    simp only [step, prepare] at h
    split at h
    · split at h <;>
      · obtain rfl := Option.some.inj h
        exact ⟨rfl, rfl⟩
    · cases h
  | write failures => exact absurd rfl (hreads failures)

end Writing

section Ending

/-- The tables after the deduplication that ends a raw run, which may have failed. -/
def Reconciled (source : ImportSource) (failures : ImportFailures) (run : ImportRun)
    (before after : Tables) : Prop :=
  after = before ∧ (run.rawMode = true → failures.deduplicate = true) ∨
    run.rawMode = true ∧ ∃ removed, before.deduplicate source.moveHash = .ok (after, removed)

/-- The tables after a deduplication that has not failed, or after none when the run is not raw. -/
def Deduplicated (source : ImportSource) (run : ImportRun) (before after : Tables) : Prop :=
  run.rawMode = false ∧ after = before ∨
    run.rawMode = true ∧ ∃ removed, before.deduplicate source.moveHash = .ok (after, removed)

/-- How a run ends: with an error of its pipeline or its last commit, with one behind that commit,
with a checkpoint because it was stopped, or complete. -/
inductive Finishes (source : ImportSource) (failures : ImportFailures) (run : ImportRun) :
    ImportStore × Except ErrorCode ImportSummary → Prop
  | abandoned {after : Tables} {e : ErrorCode}
      (hafter : Reconciled source failures run run.store.durable after) :
      Finishes source failures run (⟨after, none, run.store.checkpoint⟩, .error e)
  | failed {after : Tables} {e : ErrorCode} (hends : run.fatalError.filter (· ≠ .eof) = none)
      (hafter : Reconciled source failures run run.store.tables after) :
      Finishes source failures run (⟨after, none, run.store.checkpoint⟩, .error e)
  | stopped {after : Tables} {checkpoint : Option ImportCheckpoint} {summary : ImportSummary}
      (hends : run.fatalError.filter (· ≠ .eof) = none)
      (hstopped : (run.stopped || run.stopRequested) = true)
      (hafter : Deduplicated source run run.store.tables after)
      (hcheckpoint : checkpoint = run.store.checkpoint ∨ ∃ committed, checkpoint =
        some ⟨source.pgnPath, run.checkpointOffset, committed, run.lastGameId⟩) :
      Finishes source failures run (⟨after, none, checkpoint⟩, .ok summary)
  | completed {after : Tables} {summary : ImportSummary}
      (hends : run.fatalError.filter (· ≠ .eof) = none)
      (hstopped : (run.stopped || run.stopRequested) = false)
      (hafter : Deduplicated source run run.store.tables after) :
      Finishes source failures run (⟨after, none, none⟩, .ok summary)

theorem Deduplicated.reconciled {before after : Tables} (h : Deduplicated source run before after)
    (failures : ImportFailures) : Reconciled source failures run before after := by
  rcases h with ⟨hraw, hsame⟩ | hraw
  · refine .inl ⟨hsame, fun htrue => ?_⟩
    rw [hraw] at htrue
    cases htrue
  · exact .inr hraw

private theorem reconciled_deduplicate (hraw : run.rawMode = true) (store : ImportStore) :
    ∃ after, Reconciled source failures run store.tables after ∧
      (store.deduplicate source.moveHash failures).1 = { store with tables := after } := by
  by_cases hfails : failures.deduplicate = true
  · refine ⟨store.tables, .inl ⟨rfl, fun _ => hfails⟩, ?_⟩
    rw [ImportStore.deduplicate, if_pos hfails]
  · refine ⟨_, .inr ⟨hraw, _, Tables.deduplicate_eq⟩, ?_⟩
    rw [ImportStore.deduplicate, if_neg hfails, Tables.deduplicate_eq]

private theorem finishes_abandon (e : ErrorCode) : Finishes source failures run
    (({ run with store := run.store.rollbackBatch }.restoreIdentityIndex source failures).store,
      .error e) := by
  unfold restoreIdentityIndex
  split_ifs with hraw
  · obtain ⟨after, hafter, hstore⟩ := @reconciled_deduplicate source failures run hraw
      run.store.rollbackBatch
    dsimp only
    rw [hstore]
    exact .abandoned hafter
  · exact .abandoned (.inl ⟨rfl, fun htrue => absurd htrue hraw⟩)

private theorem finishes_conclude {after : Tables} {ended : ImportRun} (removed : ℕ)
    (hends : run.fatalError.filter (· ≠ .eof) = none)
    (hafter : Deduplicated source run run.store.tables after)
    (hstore : ended.store = ⟨after, none, run.store.checkpoint⟩)
    (hstopped : (ended.stopped || ended.stopRequested) = (run.stopped || run.stopRequested))
    (hoffset : ended.checkpointOffset = run.checkpointOffset)
    (hlast : ended.lastGameId = run.lastGameId) :
    Finishes source failures run ((ended.conclude source failures removed).1.store,
      (ended.conclude source failures removed).2) := by
  unfold conclude
  split_ifs with hstop
  · rw [hstopped] at hstop
    unfold writeProgressCheckpoint
    split_ifs
    · rw [hstore]
      exact .stopped hends hstop hafter (.inl rfl)
    · dsimp only
      rw [hstore, hoffset, hlast]
      exact .stopped hends hstop hafter (.inr ⟨_, rfl⟩)
  · rw [hstore]
    exact .failed hends (hafter.reconciled failures)
  · rw [hstore]
    exact .failed hends (hafter.reconciled failures)
  · rw [hstopped, Bool.not_eq_true] at hstop
    dsimp only
    rw [hstore]
    exact .completed hends hstop hafter

theorem finishes_finish (source : ImportSource) (failures : ImportFailures) (run : ImportRun) :
    Finishes source failures run
      ((run.finish source failures).1.store, (run.finish source failures).2) := by
  unfold finish
  dsimp only
  cases hfatal : run.fatalError.filter (· ≠ .eof) with
  | some e => exact finishes_abandon e
  | none =>
    dsimp only
    rcases run.store.commitBatch_cases failures with hok | ⟨hfails, hfailed⟩
    · rw [hok]
      dsimp only
      by_cases hraw : run.rawMode = true
      · rw [if_pos hraw]
        rcases ImportStore.deduplicate_cases source.moveHash
          { run.store with saved := none } failures with hfails | ⟨after, removed, hafter, hremoved⟩
        · have hflag : failures.deduplicate = true := by
            by_contra hnot
            rw [ImportStore.deduplicate, if_neg hnot, Tables.deduplicate_eq] at hfails
            cases congrArg Prod.snd hfails
          rw [hfails]
          exact .failed hfatal (.inl ⟨rfl, fun _ => hflag⟩)
        · rw [hremoved]
          exact finishes_conclude removed hfatal (.inr ⟨hraw, removed, hafter⟩) rfl rfl rfl rfl
      · rw [if_neg hraw]
        exact finishes_conclude 0 hfatal (.inl ⟨Bool.not_eq_true _ ▸ hraw, rfl⟩) rfl rfl rfl rfl
    · rw [hfailed]
      exact finishes_abandon _

/-- What a crash at the end of a run leaves. -/
theorem settle_cases (source : ImportSource) (failures : ImportFailures) (run : ImportRun) :
    failures.commitTransaction = true ∧
        (run.settle source failures).rollbackBatch = ⟨run.store.durable, none, run.store.checkpoint⟩ ∨
      ∃ after, Reconciled source failures run run.store.tables after ∧
        (run.settle source failures).rollbackBatch = ⟨after, none, run.store.checkpoint⟩ := by
  unfold settle
  rcases run.store.commitBatch_cases failures with hok | ⟨hfails, hfailed⟩
  · rw [hok]
    dsimp only
    split_ifs with hraw
    · obtain ⟨after, hafter, hstore⟩ := @reconciled_deduplicate source failures run hraw
        { run.store with saved := none }
      rw [hstore]
      exact .inr ⟨after, hafter, rfl⟩
    · exact .inr ⟨_, .inl ⟨rfl, fun htrue => absurd htrue hraw⟩, rfl⟩
  · rw [hfailed]
    exact .inl ⟨hfails, rfl⟩

end Ending

end ImportRun

section Starting

/-- A checkpoint of the source. -/
def ImportSource.Owns (source : ImportSource) (checkpoint : ImportCheckpoint) : Prop :=
  source.normal checkpoint.sourcePath = source.normal source.pgnPath

instance (checkpoint : ImportCheckpoint) : Decidable (source.Owns checkpoint) :=
  inferInstanceAs (Decidable (_ = _))

/-- Where a session starts, how many games it counts as committed, and in which tables: anew, from a
checkpoint of the source, or from one after the identity index was missing. -/
inductive StartPoint (source : ImportSource) (store : ImportStore) : ℕ → ℤ → Tables → Prop
  | fresh (hnone : ∀ checkpoint, store.checkpoint = some checkpoint → ¬source.Owns checkpoint) :
      StartPoint source store 0 0 store.tables
  | resumed {checkpoint : ImportCheckpoint} (hcheckpoint : store.checkpoint = some checkpoint)
      (howns : source.Owns checkpoint) (hindex : store.tables.identityIndex = true) :
      StartPoint source store checkpoint.byteOffset checkpoint.gamesCommitted store.tables
  | repaired {checkpoint : ImportCheckpoint} {tables : Tables} {removed : ℕ}
      (hcheckpoint : store.checkpoint = some checkpoint) (howns : source.Owns checkpoint)
      (hindex : store.tables.identityIndex = false)
      (hrepaired : store.tables.deduplicate source.moveHash = .ok (tables, removed)) :
      StartPoint source store checkpoint.byteOffset tables.games.length tables

/-- The reader of a session: a new one, or one that has sought its offset. -/
def Sought (source : ImportSource) (startOffset : ℕ) (reader : PgnReader) : Prop :=
  startOffset = 0 ∧ reader = .new source.importStream source.file ∨
    0 < startOffset ∧ PgnReader.seekToOffset source.importStream source.file startOffset
      (.new source.importStream source.file) = (.ok (), reader)

/-- The tables in which a session starts to write. -/
def rawTables (preCommitted : ℤ) (tables : Tables) : Tables :=
  if preCommitted = 0 then tables.dropIdentityIndex else tables

/-- What the start of a session leaves. -/
inductive Opens (source : ImportSource) (failures : ImportFailures) (stopRequested : Bool)
    (store : ImportStore) : ImportStore × Except ErrorCode ImportRun → Prop
  | refused {e : ErrorCode} : Opens source failures stopRequested store (store, .error e)
  | refusedRepaired {tables : Tables} {removed : ℕ} {e : ErrorCode}
      (hrepaired : store.tables.deduplicate source.moveHash = .ok (tables, removed)) :
      Opens source failures stopRequested store ({ store with tables }, .error e)
  | unbegun {startOffset : ℕ} {preCommitted : ℤ} {tables after : Tables} {e : ErrorCode}
      (hfails : failures.beginTransaction = true)
      (hpoint : StartPoint source store startOffset preCommitted tables)
      (hafter : after = rawTables preCommitted tables ∧
          (preCommitted = 0 → failures.deduplicate = true) ∨
        preCommitted = 0 ∧ ∃ removed,
          tables.dropIdentityIndex.deduplicate source.moveHash = .ok (after, removed)) :
      Opens source failures stopRequested store ({ store with tables := after }, .error e)
  | started {startOffset : ℕ} {preCommitted preLastGameId : ℤ} {tables : Tables} {reader : PgnReader}
      (hpoint : StartPoint source store startOffset preCommitted tables)
      (hsought : Sought source startOffset reader) {saved : Option Tables} {run : ImportRun}
      (hsaved : saved.getD (rawTables preCommitted tables) = rawTables preCommitted tables)
      (hrun : run = {
        store := ⟨rawTables preCommitted tables, saved, store.checkpoint⟩
        reader, preCommitted, stopRequested
        lastGameId := preLastGameId
        committed := preCommitted
        checkpointOffset := startOffset }) :
      Opens source failures stopRequested store (run.store, .ok run)

variable {startOffset : ℕ} {preCommitted preLastGameId : ℤ} {tables : Tables}

private theorem opens_runFrom (hsaved : store.saved = none)
    (hpoint : StartPoint source store startOffset preCommitted tables)
    (hrefused : ∀ e, Opens source failures stopRequested store ({ store with tables }, .error e)) :
    Opens source failures stopRequested store
      (runFrom source failures stopRequested startOffset preCommitted preLastGameId
        { store with tables }) := by
  have hraw : (if (decide (preCommitted = 0)) = true then
      { store with tables := tables.dropIdentityIndex } else { store with tables } : ImportStore) =
      { store with tables := rawTables preCommitted tables } := by
    unfold rawTables
    by_cases hzero : preCommitted = 0
    · rw [if_pos hzero, if_pos (decide_eq_true hzero)]
    · rw [if_neg hzero, if_neg (by simpa using hzero)]
  unfold runFrom
  dsimp only
  rw [hraw]
  split
  · exact hrefused _
  split
  · exact hrefused _
  generalize hsought : (if 0 < startOffset then PgnReader.seekToOffset source.importStream source.file
    startOffset (.new source.importStream source.file)
    else (.ok (), .new source.importStream source.file) : Except ReadError Unit × PgnReader) = sought
  obtain ⟨outcome, reader⟩ := sought
  cases outcome with
  | error e => exact hrefused _
  | ok =>
    have hreader : Sought source startOffset reader := by
      split_ifs at hsought with hpos
      · exact .inr ⟨hpos, hsought⟩
      · exact .inl ⟨Nat.eq_zero_of_not_pos hpos, (Prod.mk.inj hsought).2.symm⟩
    dsimp only
    split
    · exact hrefused _
    rcases ImportStore.beginBatch_cases { store with tables := rawTables preCommitted tables }
      failures with hopen | ⟨hfails, hfailed⟩ | ⟨-, hbegun⟩
    · rw [hopen]
      exact .started hpoint hreader (by rw [hsaved]; rfl) rfl
    · rw [hfailed]
      dsimp only
      by_cases hzero : preCommitted = 0
      · rw [if_pos (decide_eq_true hzero)]
        have hdropped : rawTables preCommitted tables = tables.dropIdentityIndex := if_pos hzero
        by_cases hlost : failures.deduplicate = true
        · rw [ImportStore.deduplicate, if_pos hlost]
          exact .unbegun hfails hpoint (.inl ⟨rfl, fun _ => hlost⟩)
        · rw [ImportStore.deduplicate, if_neg hlost, Tables.deduplicate_eq, hdropped]
          exact .unbegun hfails hpoint (.inr ⟨hzero, _, Tables.deduplicate_eq⟩)
      · rw [if_neg (by simpa using hzero)]
        exact .unbegun hfails hpoint (.inl ⟨rfl, fun h => absurd h hzero⟩)
    · rw [hbegun]
      exact .started hpoint hreader rfl rfl

private theorem opens_resumeFromCheckpoint {checkpoint : ImportCheckpoint} (hsaved : store.saved = none)
    (hcheckpoint : store.checkpoint = some checkpoint) :
    Opens source failures stopRequested store
      (resumeFromCheckpoint source failures stopRequested checkpoint store) := by
  unfold resumeFromCheckpoint
  split
  · exact .refused
  next howns =>
    rw [not_not] at howns
    split
    · exact .refused
    split
    next hindex =>
      exact opens_runFrom hsaved (.resumed hcheckpoint howns hindex) fun _ => .refused
    next hindex =>
      rcases ImportStore.deduplicate_cases source.moveHash store failures with
        hfails | ⟨repaired, removed, hrepaired, hok⟩
      · rw [hfails]
        exact .refused
      · rw [hok]
        dsimp only
        split
        · exact .refusedRepaired hrepaired
        · exact opens_runFrom hsaved
            (.repaired hcheckpoint howns (eq_false_of_ne_true hindex) hrepaired)
            fun _ => .refusedRepaired hrepaired

private theorem runFrom_ne_invalidState
    (hconfig : ¬(source.config.numWorkers = 0 ∨ source.config.numLines = 0)) :
    (runFrom source failures stopRequested startOffset preCommitted preLastGameId store).2 ≠
      .error .invalidState := by
  intro h
  unfold runFrom at h
  dsimp only at h
  split at h
  · cases h
  split at h
  · cases h
  split at h
  · cases h
  split at h <;> cases h

private theorem resumeFromCheckpoint_ne_invalidState {checkpoint : ImportCheckpoint}
    (hconfig : ¬(source.config.numWorkers = 0 ∨ source.config.numLines = 0))
    (hsource : source.normal checkpoint.sourcePath = source.normal source.pgnPath) :
    (resumeFromCheckpoint source failures stopRequested checkpoint store).2 ≠
      .error .invalidState := by
  intro h
  unfold resumeFromCheckpoint at h
  rw [if_neg (not_not.mpr hsource)] at h
  split at h
  · cases h
  split at h
  · exact runFrom_ne_invalidState hconfig h
  split at h
  · cases h
  split at h
  · cases h
  · exact runFrom_ne_invalidState hconfig h

theorem opens_run (hsaved : store.saved = none) : Opens source failures stopRequested store
    (Import.run source failures stopRequested store) := by
  unfold Import.run
  split
  · exact .refused
  next hconfig =>
    split
    · exact .refused
    split
    next hnone =>
      refine opens_runFrom hsaved (.fresh fun checkpoint hsome => ?_) fun _ => .refused
      rw [hnone] at hsome
      cases hsome
    next checkpoint hcheckpoint =>
      split
      next howns =>
        split
        next hinvalid =>
          exact absurd (congrArg Prod.snd hinvalid) (resumeFromCheckpoint_ne_invalidState hconfig howns)
        next => exact opens_resumeFromCheckpoint hsaved hcheckpoint
      next hforeign =>
        refine opens_runFrom hsaved (.fresh fun other hsome => ?_) fun _ => .refused
        rw [hcheckpoint] at hsome
        exact Option.some.inj hsome ▸ hforeign

theorem opens_resume (hsaved : store.saved = none) : Opens source failures stopRequested store
    (Import.resume source failures stopRequested store) := by
  unfold Import.resume
  split
  · exact .refused
  split
  · exact .refused
  next checkpoint hcheckpoint => exact opens_resumeFromCheckpoint hsaved hcheckpoint

end Starting

end MotifChess.Import
