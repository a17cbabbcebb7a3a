/- GID: MotifChess/Import/CheckpointSafety
   generality: implementation
   digest: When the checkpoint on disk covers only games that are committed or rejected. -/

import MotifChess.Import.Progress

set_option autoImplicit false
set_option relaxedAutoImplicit false

namespace MotifChess.Import

open MotifChess.Chess MotifChess.Db

section Safety

/-- The game of a read, if it has one, is stored, or was rejected because it is stored already. -/
def SettledIn (rules : Rules) (t : Tables) (read : SourceRead) : Prop :=
  ∀ game, preparedOf rules read = some game → t.Holds game

/-- Every read that ends at or before the offset of a checkpoint of the source is settled for good. -/
def CheckpointSafe (source : ImportSource) (text : List Char) (store : ImportStore) : Prop :=
  ∀ checkpoint, store.checkpoint = some checkpoint → source.Owns checkpoint →
    ∀ read ∈ sourceReads source.importStream text, read.2 ≤ checkpoint.byteOffset →
      SettledIn source.rules store.durable read

/-- A seek to the checkpoint of the source fails, or comes to stand at its offset. -/
def FoundAgain (source : ImportSource) (store : ImportStore) : Prop :=
  ∀ checkpoint, store.checkpoint = some checkpoint → source.Owns checkpoint →
    0 < checkpoint.byteOffset → ∀ reader, PgnReader.seekToOffset source.importStream source.file checkpoint.byteOffset
      (.new source.importStream source.file) = (.ok (), reader) →
    reader.byteOffset = checkpoint.byteOffset

/-- The session does not take the branches that go wrong: it does not resume from an offset that the
reader misses, and once its writer has failed, no game in flight fills a batch, and it does not end
as a stopped one. -/
def Session.Prudent (source : ImportSource) : Session → Action → Prop
  | .idle store, .run _ _ _ => FoundAgain source store
  | .idle store, .resume _ _ _ => FoundAgain source store
  | .importing config run true, .pipeline (.write _) =>
    (run.slots.head?.bind PipelineSlot.gameRow).isSome → run.batchPending + 1 < config.batchSize
  | .importing _ run true, .finish _ =>
    ¬((run.stopped || run.stopRequested) = true ∧ run.fatalError.filter (· ≠ .eof) = none)
  | _, _ => True

end Safety

section Retention

/-- No game that is stored in the first tables is missing from the second. -/
def Retains (t u : Tables) : Prop := ∀ game, t.Holds game → u.Holds game

variable {t u : Tables} {moveHash : List UInt16 → UInt64} {rules : Rules} {read : SourceRead}

theorem Retains.refl : Retains t t := fun _ => id

theorem Retains.trans {v : Tables} (h : Retains t u) (h' : Retains u v) : Retains t v :=
  fun game hholds => h' game (h game hholds)

private theorem retains_of_games (h : t.games ⊆ u.games) : Retains t u :=
  fun _ hholds => List.map_subset _ h hholds

private theorem retains_of_contents (h : u.contents = t.contents) : Retains t u := by
  intro game hholds
  rw [Tables.holds_iff_contents] at hholds ⊢
  rwa [h]

private theorem retains_deduplicate {removed : ℕ} (h : t.deduplicate moveHash = .ok (u, removed)) :
    Retains t u := retains_of_contents (Tables.contents_deduplicate h)

private theorem retains_dropIdentityIndex : Retains t t.dropIdentityIndex :=
  retains_of_games (List.Subset.refl t.games)

private theorem retains_rawTables (preCommitted : ℤ) : Retains t (rawTables preCommitted t) := by
  unfold rawTables
  split_ifs
  · exact retains_dropIdentityIndex
  · exact .refl

private theorem retains_addRow (game : Game) (collision : ℕ) :
    Retains t ((t.findOrInsertNames game).addRow collision (.ofGame game)) := by
  apply retains_of_games
  rw [Tables.addRow_games, Tables.findOrInsertNames_games]
  exact List.subset_append_left _ _

private theorem holds_addRow (game : Game) (collision : ℕ) :
    ((t.findOrInsertNames game).addRow collision (.ofGame game)).Holds game := by
  rw [Tables.Holds, Tables.addRow_games, List.map_append]
  exact List.mem_append_right _ List.mem_cons_self

theorem SettledIn.mono (h : SettledIn rules t read) (hretains : Retains t u) :
    SettledIn rules u read := fun game hgame => hretains game (h game hgame)

private theorem ImportRun.Reconciled.retains {source : ImportSource} {failures : ImportFailures} {run : ImportRun}
    (h : ImportRun.Reconciled source failures run t u) : Retains t u := by
  rcases h with ⟨rfl, -⟩ | ⟨-, removed, hdeduplicate⟩
  · exact .refl
  · exact retains_deduplicate hdeduplicate

end Retention

section Invariant

variable {source : ImportSource} {text : List Char} {store store' : ImportStore}

/-- A checkpoint of the source stands where a read ends. -/
def OnBoundary (source : ImportSource) (text : List Char) (store : ImportStore) : Prop :=
  ∀ checkpoint, store.checkpoint = some checkpoint → source.Owns checkpoint →
    IsBoundary source.importStream text checkpoint.byteOffset

/-- What holds of the store in every session. -/
structure Guarded (source : ImportSource) (text : List Char) (store : ImportStore) : Prop where
  safe : CheckpointSafe source text store
  boundary : OnBoundary source text store
  retained : Retains store.durable store.tables

/-- What stage 2 has done, as long as the writer has not failed. -/
structure Written (source : ImportSource) (text : List Char) (run : ImportRun)
    (written : List SourceRead) : Prop where
  settled : ∀ read ∈ written, SettledIn source.rules run.store.tables read
  boundary : IsBoundary source.importStream text run.checkpointOffset
  covers : ∀ read ∈ sourceReads source.importStream text,
    read.2 ≤ run.checkpointOffset → read ∈ written

def Session.Guards (source : ImportSource) (text : List Char) : Session → Prop
  | .idle store => store.saved = none ∧ Guarded source text store
  | .importing config run writerFailed => Guarded source text run.store ∧ ∃ written,
    run.Progress (source.under config) text (sourceReads source.importStream text) written ∧
      (writerFailed = false → Written source text run written)

theorem Guarded.mono (h : Guarded source text store) (hcheckpoint : store'.checkpoint = store.checkpoint)
    (hdurable : Retains store.durable store'.durable)
    (hretained : Retains store'.durable store'.tables) : Guarded source text store' where
  safe checkpoint hsome howns read hread hle :=
    (h.safe checkpoint (hcheckpoint ▸ hsome) howns read hread hle).mono hdurable
  boundary checkpoint hsome howns := h.boundary checkpoint (hcheckpoint ▸ hsome) howns
  retained := hretained

theorem Guarded.written (h : Guarded source text store) (hsaved : store'.saved = store.saved)
    (hcheckpoint : store'.checkpoint = store.checkpoint)
    (hretains : Retains store.tables store'.tables) : Guarded source text store' := by
  have hretained := h.retained
  cases hopen : store.saved with
  | none =>
    rw [hopen] at hsaved
    refine h.mono hcheckpoint ?_ ?_
    · rw [ImportStore.durable_of_none hopen, ImportStore.durable_of_none hsaved]
      exact hretains
    · rw [ImportStore.durable_of_none hsaved]
      exact .refl
  | some saved =>
    rw [hopen] at hsaved
    rw [ImportStore.durable_of_some hopen] at hretained
    refine h.mono hcheckpoint ?_ ?_
    · rw [ImportStore.durable_of_some hopen, ImportStore.durable_of_some hsaved]
      exact .refl
    · rw [ImportStore.durable_of_some hsaved]
      exact hretained.trans hretains

private theorem guarded_of_checkpoint {checkpoint : ImportCheckpoint}
    (hcheckpoint : store'.checkpoint = some checkpoint)
    (hsettled : ∀ read ∈ sourceReads source.importStream text, read.2 ≤ checkpoint.byteOffset →
      SettledIn source.rules store'.durable read)
    (hboundary : IsBoundary source.importStream text checkpoint.byteOffset)
    (hretained : Retains store'.durable store'.tables) : Guarded source text store' where
  safe other hsome _ read hread hle := by
    obtain rfl := Option.some.inj (hcheckpoint.symm.trans hsome)
    exact hsettled read hread hle
  boundary other hsome _ := by
    obtain rfl := Option.some.inj (hcheckpoint.symm.trans hsome)
    exact hboundary
  retained := hretained

theorem Guarded.idle {tables : Tables} (h : Guarded source text store)
    (hretains : Retains store.durable tables) :
    Guarded source text ⟨tables, none, store.checkpoint⟩ :=
  h.mono rfl hretains .refl

end Invariant

section Steps

variable {source : ImportSource} {text : List Char} {config : ImportConfig}
variable {failures : ImportFailures} {store : ImportStore} {run run' : ImportRun}
variable {written rest : List SourceRead} {read : SourceRead}

theorem mem_of_end_le (hreads : ReadsInOrder source.importStream
      (text.drop (PgnReader.new source.importStream (some text)).baseOffset))
    (hsplit : sourceReads source.importStream text = written ++ read :: rest) {other : SourceRead}
    (hother : other ∈ sourceReads source.importStream text) (hle : other.2 ≤ read.2) :
    other ∈ written ++ [read] := by
  have hpairwise := pairwise_sourceReads hreads
  rw [hsplit, List.pairwise_append] at hpairwise
  rw [hsplit] at hother
  rcases List.mem_append.mp hother with hother | hother
  · exact List.mem_append_left _ hother
  · rcases List.mem_cons.mp hother with rfl | hother
    · exact List.mem_append_right _ List.mem_cons_self
    · have hlt := (List.pairwise_cons.mp hpairwise.2.1).1 other hother
      omega

theorem Written.stored (hwritten : Written source text run written)
    (hreads : ReadsInOrder source.importStream
      (text.drop (PgnReader.new source.importStream (some text)).baseOffset))
    (hsplit : sourceReads source.importStream text = written ++ read :: rest)
    (hretains : Retains run.store.tables run'.store.tables)
    (hread : SettledIn source.rules run'.store.tables read)
    (hoffset : run'.checkpointOffset = read.2) :
    Written source text run' (written ++ [read]) where
  settled other hother := by
    rcases List.mem_append.mp hother with hother | hother
    · exact (hwritten.settled other hother).mono hretains
    · exact List.mem_singleton.mp hother ▸ hread
  boundary := by
    rw [hoffset, IsBoundary, hsplit]
    exact .inr ⟨read, List.mem_append_right _ List.mem_cons_self, rfl⟩
  covers _ hother hle := mem_of_end_le hreads hsplit hother (hoffset ▸ hle)

theorem Written.kept (hwritten : Written source text run written)
    (hretains : Retains run.store.tables run'.store.tables)
    (hread : SettledIn source.rules run'.store.tables read)
    (hoffset : run'.checkpointOffset = run.checkpointOffset) :
    Written source text run' (written ++ [read]) where
  settled other hother := by
    rcases List.mem_append.mp hother with hother | hother
    · exact (hwritten.settled other hother).mono hretains
    · exact List.mem_singleton.mp hother ▸ hread
  boundary := hoffset ▸ hwritten.boundary
  covers other hother hle := List.mem_append_left _ (hwritten.covers other hother (hoffset ▸ hle))

private theorem guarded_of_writes (hguarded : Guarded source text run.store)
    (hreads : ReadsInOrder source.importStream
      (text.drop (PgnReader.new source.importStream (some text)).baseOffset))
    (hsplit : sourceReads source.importStream text = written ++ read :: rest) {slot : PipelineSlot}
    (hslot : run.slots.head? = some slot) (hcarries : slot.Carries source.rules read)
    (hwrites : ImportRun.Writes (source.under config) failures run run' slot) {writerFailed : Bool}
    (hwritten : writerFailed = false → Written source text run written)
    (hprudent : writerFailed = true →
      (run.slots.head?.bind PipelineSlot.gameRow).isSome → run.batchPending + 1 < config.batchSize) :
    Guarded source text run'.store ∧
      ((writerFailed || run.writerFails (source.under config) (.write failures)) = false →
        Written source text run' (written ++ [read])) := by
  cases hwrites with
  | skipped hstore hoffset hcommitted =>
    rw [hstore]
    refine ⟨hguarded, fun hnot => ?_⟩
    refine (hwritten (Bool.or_eq_false_iff.mp hnot).1).kept ?_ ?_ hoffset
    · rw [hstore]
      exact .refl
    · intro game hgame
      rw [hcarries] at hgame
      cases hgame
  | @duplicate game nextGameOffset tables hraw hholds htables hstore hoffset hcommitted =>
    have hretains : Retains run.store.tables tables := by
      rcases htables with rfl | rfl
      · exact .refl
      · exact retains_of_games (by rw [Tables.findOrInsertNames_games]; exact List.Subset.refl _)
    refine ⟨?_, fun hnot => ?_⟩
    · rw [hstore]
      exact hguarded.written rfl rfl hretains
    · refine (hwritten (Bool.or_eq_false_iff.mp hnot).1).kept ?_ ?_ hoffset
      · rw [hstore]
        exact hretains
      · intro other hother
        obtain rfl := Option.some.inj (hcarries.2.symm.trans hother)
        rw [hstore]
        exact hretains game hholds
  | failed hfails hstore =>
    rw [hstore]
    refine ⟨hguarded.mono rfl .refl .refl, fun hnot => ?_⟩
    rw [hfails, Bool.or_true] at hnot
    cases hnot
  | @stored game nextGameOffset collision id hwrite htables hoffset hcommitted hbatch =>
    have hretains : Retains run.store.tables run'.store.tables := by
      rw [htables]
      exact retains_addRow game collision
    have hread : SettledIn source.rules run'.store.tables read := by
      intro other hother
      obtain rfl := Option.some.inj (hcarries.2.symm.trans hother)
      rw [htables]
      exact holds_addRow game collision
    have hnew := fun hnot : writerFailed = false => (hwritten hnot).stored hreads hsplit hretains hread
      (hoffset.trans hcarries.1.symm)
    refine ⟨?_, fun hnot => hnew (Bool.or_eq_false_iff.mp hnot).1⟩
    rcases hbatch with ⟨hsaved, hcheckpoint⟩ | ⟨hfull, hcommitted', hcheckpoint⟩
    · exact hguarded.written hsaved hcheckpoint hretains
    · have hkept : Retains run.store.durable run'.store.durable := by
        rw [hcommitted']
        exact hguarded.retained.trans hretains
      have hretained : Retains run'.store.durable run'.store.tables := by
        rw [hcommitted']
        exact .refl
      rcases hcheckpoint with hsame | ⟨lastGameId, hwrote⟩
      · exact hguarded.mono hsame hkept hretained
      · cases hflag : writerFailed with
        | true =>
          have hroom := hprudent hflag (by rw [hslot]; rfl)
          exact absurd hfull (by simpa [ImportSource.under] using hroom)
        | false =>
          have hafter := hnew hflag
          refine guarded_of_checkpoint hwrote (fun other hother hle => ?_) ?_ hretained
          · rw [hcommitted']
            exact hafter.settled other (hafter.covers other hother (hoffset ▸ hle))
          · have hboundary := hafter.boundary
            rwa [hoffset] at hboundary

private theorem guards_of_opens {stopRequested : Bool} (hfile : source.file = some text)
    (hreads : ReadsInOrder source.importStream
      (text.drop (PgnReader.new source.importStream (some text)).baseOffset))
    (hguards : (Session.idle store).Guards source text) (hfound : FoundAgain source store)
    {result : ImportStore × Except ErrorCode ImportRun}
    (hopens : Opens (source.under config) failures stopRequested store result) :
    (Session.opened config result).Guards source text := by
  obtain ⟨hsaved, hguarded⟩ := hguards
  have hdurable := ImportStore.durable_of_none hsaved
  have hidle : ∀ tables, Retains store.tables tables →
      (Session.idle { store with tables }).Guards source text := by
    intro tables hretains
    refine ⟨hsaved, ?_⟩
    rw [hsaved]
    exact hguarded.idle (hdurable ▸ hretains)
  cases hopens with
  | refused => exact ⟨hsaved, hguarded⟩
  | refusedRepaired hrepaired => exact hidle _ (retains_deduplicate hrepaired)
  | @unbegun startOffset preCommitted tables after e hfails hpoint hafter =>
    have htables : Retains store.tables tables := by
      cases hpoint with
      | fresh => exact .refl
      | resumed => exact .refl
      | repaired _ _ _ hrepaired => exact retains_deduplicate hrepaired
    apply hidle
    rcases hafter with ⟨rfl, -⟩ | ⟨-, removed, hdeduplicate⟩
    · exact htables.trans (retains_rawTables _)
    · exact (htables.trans retains_dropIdentityIndex).trans (retains_deduplicate hdeduplicate)
  | @started startOffset preCommitted preLastGameId tables reader hpoint hsought saved run hsame hrun =>
    have htables : Retains store.tables (rawTables preCommitted tables) := by
      refine Retains.trans ?_ (retains_rawTables _)
      cases hpoint with
      | fresh => exact .refl
      | resumed => exact .refl
      | repaired _ _ _ hrepaired => exact retains_deduplicate hrepaired
    have hstart : IsBoundary source.importStream text startOffset ∧
        (0 < startOffset → reader.byteOffset = startOffset) ∧
        ∀ read ∈ sourceReads source.importStream text, read.2 ≤ startOffset →
          SettledIn source.rules store.tables read := by
      have hcheckpoint : ∀ checkpoint, store.checkpoint = some checkpoint → source.Owns checkpoint →
          startOffset = checkpoint.byteOffset → IsBoundary source.importStream text startOffset ∧
          (0 < startOffset → reader.byteOffset = startOffset) ∧
          ∀ read ∈ sourceReads source.importStream text, read.2 ≤ startOffset →
            SettledIn source.rules store.tables read := by
        rintro checkpoint hsome howns rfl
        refine ⟨hguarded.boundary _ hsome howns, fun hpos => ?_, fun read hread hle => ?_⟩
        · rcases hsought with ⟨hzero, -⟩ | ⟨-, hseek⟩
          · omega
          · exact hfound _ hsome howns hpos reader hseek
        · exact hdurable ▸ hguarded.safe _ hsome howns read hread hle
      cases hpoint with
      | fresh =>
        refine ⟨.inl rfl, fun hpos => absurd hpos (Nat.lt_irrefl 0), fun read hread hle => ?_⟩
        have hpos := pos_of_mem_sourceReads hreads hread
        omega
      | resumed hsome howns => exact hcheckpoint _ hsome howns rfl
      | repaired hsome howns => exact hcheckpoint _ hsome howns rfl
    obtain ⟨hboundary, hstands, hsettled⟩ := hstart
    obtain ⟨written, left, hsplit, hleaves, hbefore, hbehind⟩ :=
      exists_split hreads hfile hboundary hsought hstands
    subst hrun
    refine ⟨hguarded.mono rfl ?_ ?_, written, ⟨⟨[], _, hsplit, .nil, fun _ => ⟨left, hleaves, rfl⟩,
      fun hfatal => ?_⟩, fun hended => ?_⟩, fun _ => ⟨fun read hread => ?_, hboundary,
      fun read hread hle => ?_⟩⟩
    · rw [hdurable, ImportStore.durable]
      dsimp only
      rw [hsame]
      exact htables
    · rw [ImportStore.durable]
      dsimp only
      rw [hsame]
      exact .refl
    · cases hfatal
    · rcases hended with hended | hended <;> cases hended
    · exact (hsettled read (hsplit ▸ List.mem_append_left _ hread) (hbefore read hread)).mono htables
    · rw [hsplit] at hread
      rcases List.mem_append.mp hread with hread | hread
      · exact hread
      · exact absurd hle (Nat.not_le.mpr (hbehind read hread))

private theorem guards_of_finishes {writerFailed : Bool} (hguarded : Guarded source text run.store)
    (hwritten : writerFailed = false → Written source text run written)
    (hprudent : writerFailed = true →
      ¬((run.stopped || run.stopRequested) = true ∧ run.fatalError.filter (· ≠ .eof) = none))
    {result : ImportStore × Except ErrorCode ImportSummary}
    (hfinishes : ImportRun.Finishes (source.under config) failures run result) :
    (Session.idle result.1).Guards source text := by
  refine ⟨by cases hfinishes <;> rfl, ?_⟩
  cases hfinishes with
  | abandoned hafter => exact hguarded.idle hafter.retains
  | failed hends hafter => exact hguarded.idle (hguarded.retained.trans hafter.retains)
  | @stopped after checkpoint summary hends hstopped hafter hcheckpoint =>
    have hretains : Retains run.store.tables after :=
      (hafter.reconciled failures).retains
    rcases hcheckpoint with rfl | ⟨committed, rfl⟩
    · exact hguarded.idle (hguarded.retained.trans hretains)
    · cases hflag : writerFailed with
      | true => exact absurd ⟨hstopped, hends⟩ (hprudent hflag)
      | false =>
        obtain ⟨hsettled, hboundary, hcovers⟩ := hwritten hflag
        refine guarded_of_checkpoint rfl (fun read hread hle => ?_) hboundary .refl
        exact (hsettled read (hcovers read hread hle)).mono hretains
  | completed hends hstopped hafter =>
    refine ⟨?_, ?_, .refl⟩ <;>
    · intro checkpoint hsome
      cases hsome

private theorem guards_step {session session' : Session} {action : Session.Action}
    (hfile : source.file = some text)
    (hreads : ReadsInOrder source.importStream
      (text.drop (PgnReader.new source.importStream (some text)).baseOffset))
    (hguards : session.Guards source text) (hprudent : session.Prudent source action)
    (hstep : session.step source action = some session') : session'.Guards source text := by
  cases session with
  | idle store =>
    cases action with
    | run config failures stopRequested =>
      obtain rfl := Option.some.inj hstep
      exact guards_of_opens hfile hreads hguards hprudent (opens_run hguards.1)
    | resume config failures stopRequested =>
      obtain rfl := Option.some.inj hstep
      exact guards_of_opens hfile hreads hguards hprudent (opens_resume hguards.1)
    | crash =>
      obtain rfl := Option.some.inj hstep
      exact ⟨rfl, hguards.2.mono rfl .refl .refl⟩
    | pipeline => cases hstep
    | finish => cases hstep
    | crashAtEnd => cases hstep
  | importing config run writerFailed =>
    obtain ⟨hguarded, written, hprogress, hwritten⟩ := hguards
    cases action with
    | pipeline action =>
      obtain ⟨run', hrun, rfl⟩ := Option.map_eq_some_iff.mp hstep
      rcases hprogress.step hrun with ⟨hprogress', hstore, -, -, hoffset, hfails⟩ |
        ⟨failures, slot, read, rest, rfl, hsplit, hslot, hcarries, hwrites, -, hprogress'⟩
      · refine ⟨hstore ▸ hguarded, written, hprogress', fun hnot => ?_⟩
        obtain ⟨hsettled, hboundary, hcovers⟩ := hwritten (Bool.or_eq_false_iff.mp hnot).1
        exact ⟨hstore ▸ hsettled, hoffset ▸ hboundary, hoffset ▸ hcovers⟩
      · obtain ⟨hguarded', hwritten'⟩ := guarded_of_writes hguarded hreads hsplit hslot hcarries
          hwrites hwritten fun hflag => by
            subst hflag
            exact hprudent
        exact ⟨hguarded', _, hprogress', hwritten'⟩
    | finish failures =>
      obtain ⟨-, hfinished⟩ := Option.ite_none_right_eq_some.mp hstep
      obtain rfl := Option.some.inj hfinished
      exact guards_of_finishes hguarded hwritten (fun hflag => by subst hflag; exact hprudent)
        (ImportRun.finishes_finish _ failures run)
    | crash =>
      obtain rfl := Option.some.inj hstep
      exact ⟨rfl, hguarded.mono rfl .refl .refl⟩
    | crashAtEnd failures =>
      obtain ⟨-, hsettled⟩ := Option.ite_none_right_eq_some.mp hstep
      obtain rfl := Option.some.inj hsettled
      rcases ImportRun.settle_cases (source.under config) failures run with ⟨-, hcut⟩ | ⟨after, hafter, hcut⟩
      · rw [hcut]
        exact ⟨rfl, hguarded.idle .refl⟩
      · rw [hcut]
        exact ⟨rfl, hguarded.idle (hguarded.retained.trans hafter.retains)⟩
    | run => cases hstep
    | resume => cases hstep

/-- The checkpoint on disk is safe in every run that resumes only where the reader finds the offset
again, and writes no checkpoint behind a failure of its writer. -/
theorem checkpointSafe_of_reaches {session : Session} (hfile : source.file = some text)
    (hreads : ReadsInOrder source.importStream
      (text.drop (PgnReader.new source.importStream (some text)).baseOffset))
    (hidle : store.saved = none)
    (hnew : ∀ checkpoint, store.checkpoint = some checkpoint → ¬source.Owns checkpoint)
    (h : Session.Reaches source (Session.Prudent source) store session) :
    CheckpointSafe source text session.store := by
  have hstart : (Session.idle store).Guards source text := by
    refine ⟨hidle, fun checkpoint hsome howns => absurd howns (hnew _ hsome),
      fun checkpoint hsome howns => absurd howns (hnew _ hsome), ?_⟩
    rw [ImportStore.durable_of_none hidle]
    exact .refl
  have hguards : session.Guards source text := System.Reaches.invariant h hstart
    fun _ _ _ hguards hprudent hstep => guards_step hfile hreads hguards hprudent hstep
  cases session with
  | idle store => exact hguards.2.safe
  | importing config run writerFailed => exact hguards.1.safe

end Steps

section Samples

/-- A file with two games, and one with the second of them. -/
def firstText : List Char := "[Event \"A\"]\n\n1. e4 *\n\n".toList

def secondText : List Char := "[Event \"B\"]\n\n1. e4 *\n".toList

def gameNamed (event : String) : PgnGame := ⟨[("Event", event)], ["e4"], .unknown⟩

def pairSource : ImportSource where
  rules := onlyE4
  moveHash _ := 0
  normal path := path
  importStream text :=
    if text = firstText ++ secondText then
      [(0, .ok (gameNamed "A")), (firstText.length, .ok (gameNamed "B"))]
    else if text = secondText then [(0, .ok (gameNamed "B"))]
    else []
  file := some (firstText ++ secondText)
  pgnPath := "pair.pgn"
  config := ⟨1, 2, true, false, 1⟩

theorem readsInOrder_pairSource : ReadsInOrder pairSource.importStream
    ((firstText ++ secondText).drop
      (PgnReader.new pairSource.importStream (some (firstText ++ secondText))).baseOffset) :=
  ⟨by decide +kernel, by decide +kernel, by decide +kernel⟩

/-- Both games are read and prepared before the first one is written. -/
private def bothRead : List Session.Action :=
  [.run pairSource.config {} false, .pipeline .takeLine, .pipeline .read, .pipeline .takeLine,
    .pipeline .read, .pipeline (.prepare 0), .pipeline (.prepare 1)]

/-- Nothing has gone wrong yet that a prudent step looks at. -/
private def unhurt : Session → Bool
  | .idle store => store.checkpoint.isNone
  | .importing _ _ writerFailed => !writerFailed

private theorem prudent_of_unhurt {session : Session} (action : Session.Action)
    (h : unhurt session = true) : session.Prudent pairSource action := by
  cases session with
  | idle store =>
    have hfound : FoundAgain pairSource store := by
      intro checkpoint hsome
      rw [unhurt, hsome] at h
      cases h
    cases action <;> first | exact hfound | exact trivial
  | importing config run writerFailed =>
    rw [unhurt, Bool.not_eq_true'] at h
    subst h
    cases action <;> exact trivial

def emptyStore : ImportStore := ⟨.empty, none, none⟩

/-- The checkpoint behind the first game, after that game has been written. -/
theorem checkpointSafe_of_reaches_sample : ∃ session checkpoint,
    Session.Reaches pairSource (Session.Prudent pairSource) emptyStore session ∧
      session.store.checkpoint = some checkpoint ∧ checkpoint.byteOffset = 22 ∧
      CheckpointSafe pairSource (firstText ++ secondText) session.store := by
  obtain ⟨session, hrun, hcheckpoint⟩ := (Option.any_eq_true (fun session : Session =>
    session.store.checkpoint.any fun checkpoint => decide (checkpoint.byteOffset = 22))
    (System.run (Session.step pairSource) (fun s _ => unhurt s = true) (.idle emptyStore)
      (bothRead ++ [.pipeline (.write {})]))).mp (by decide +kernel)
  obtain ⟨checkpoint, hsome, hoffset⟩ := (Option.any_eq_true _ _).mp hcheckpoint
  have hreaches : Session.Reaches pairSource (Session.Prudent pairSource) emptyStore session :=
    (System.reaches_of_run hrun).mono fun _ action hunhurt => prudent_of_unhurt action hunhurt
  refine ⟨session, checkpoint, hreaches, hsome, of_decide_eq_true hoffset, ?_⟩
  refine checkpointSafe_of_reaches rfl readsInOrder_pairSource rfl ?_ hreaches
  intro checkpoint hsome
  cases hsome

/-- The insert of the first game fails, and the second one in flight takes the checkpoint past it. -/
theorem not_checkpointSafe : ∃ session,
    Session.Reaches pairSource (fun _ _ => True) emptyStore session ∧
      ¬CheckpointSafe pairSource (firstText ++ secondText) session.store := by
  obtain ⟨session, hrun, hlost⟩ := (Option.any_eq_true (fun session : Session =>
    session.store.checkpoint.any fun checkpoint => decide (pairSource.Owns checkpoint) &&
      decide (∃ read ∈ sourceReads pairSource.importStream (firstText ++ secondText),
        read.2 ≤ checkpoint.byteOffset ∧ ∃ game ∈ preparedOf pairSource.rules read,
          ¬session.store.durable.Holds game))
    (System.run (Session.step pairSource) (fun _ _ => True) (.idle emptyStore)
      (bothRead ++ [.pipeline (.write { insert := true }), .pipeline (.write {})]))).mp
        (by decide +kernel)
  obtain ⟨checkpoint, hsome, hfound⟩ := (Option.any_eq_true _ _).mp hlost
  obtain ⟨howns, hmissing⟩ := Bool.and_eq_true_iff.mp hfound
  obtain ⟨read, hread, hle, game, hgame, hnot⟩ := of_decide_eq_true hmissing
  refine ⟨session, System.reaches_of_run hrun, fun hsafe => ?_⟩
  exact hnot (hsafe checkpoint hsome (of_decide_eq_true howns) read hread hle game hgame)

end Samples

end MotifChess.Import
