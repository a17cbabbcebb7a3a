/- GID: MotifChess/Import/ResumedImport
   generality: implementation
   digest: An import that is stopped and cut any number of times stores what one without a break does. -/

import MotifChess.Import.WritableTables

set_option autoImplicit false
set_option relaxedAutoImplicit false

namespace MotifChess.Import

open MotifChess.Chess MotifChess.Db

section Progress

variable {source : ImportSource} {text : List Char} {start : Contents}
variable {kept progress written rest : List SourceRead} {read : SourceRead}

/-- The games that reads offer to the store. -/
def gamesOf (rules : Rules) (reads : List SourceRead) : List Game :=
  reads.filterMap (preparedOf rules)

/-- Tables that hold the contents of the start and the games of these reads. -/
def Holding (source : ImportSource) (start : Contents) (reads : List SourceRead) (t : Tables) : Prop :=
  t.contents = start.addAll (gamesOf source.rules reads)

/-- A checkpoint of the source stands where a read ends, and covers only these reads. -/
def Resumable (source : ImportSource) (text : List Char) (kept : List SourceRead)
    (store : ImportStore) : Prop :=
  ∀ checkpoint, store.checkpoint = some checkpoint → source.Owns checkpoint →
    IsBoundary source.importStream text checkpoint.byteOffset ∧
      ∀ read ∈ sourceReads source.importStream text, read.2 ≤ checkpoint.byteOffset → read ∈ kept

private theorem prefix_of_subset {reads : List SourceRead} (hordered : reads.Pairwise fun a b => a.2 < b.2)
    (hwritten : written <+: reads) (hprogress : progress <+: reads) (hsubset : written ⊆ progress) :
    written <+: progress := by
  rcases List.prefix_or_prefix_of_prefix hwritten hprogress with hle | ⟨more, rfl⟩
  · exact hle
  · cases more with
    | nil => rw [List.append_nil]
    | cons read more =>
      have hread : read ∈ progress :=
        hsubset (List.mem_append_right _ List.mem_cons_self)
      have hpairwise := hordered.sublist hwritten.sublist
      rw [List.pairwise_append] at hpairwise
      exact absurd (hpairwise.2.2 read hread read List.mem_cons_self) (Nat.lt_irrefl _)

private theorem exists_progress {t u : Tables} (hholding : Holding source start progress t)
    (hwritten : written <+: progress) (hprogress : progress <+: written ++ read :: rest)
    (hcontents : u.contents = (preparedOf source.rules read).elim t.contents t.contents.add) :
    ∃ progress', progress <+: progress' ∧ progress' <+: written ++ read :: rest ∧
      written ++ [read] <+: progress' ∧ Holding source start progress' u := by
  obtain ⟨more, rfl⟩ := hwritten
  rw [List.prefix_append_right_inj] at hprogress
  cases more with
  | nil =>
    rw [List.append_nil] at hholding ⊢
    refine ⟨written ++ [read], List.prefix_append _ _, ?_, List.prefix_rfl, ?_⟩
    · rw [List.prefix_append_right_inj]
      exact ⟨rest, rfl⟩
    · rw [Holding, gamesOf, List.filterMap_append, Contents.addAll_append, hcontents]
      change t.contents = start.addAll (written.filterMap _) at hholding
      rw [← hholding]
      cases hgame : preparedOf source.rules read <;> simp [hgame, Contents.addAll]
  | cons other more =>
    obtain ⟨rfl, hmore⟩ := List.cons_prefix_cons.mp hprogress
    refine ⟨written ++ other :: more, List.prefix_rfl, ?_, ?_, ?_⟩
    · rw [List.prefix_append_right_inj, List.cons_prefix_cons]
      exact ⟨rfl, hmore⟩
    · rw [List.prefix_append_right_inj, List.cons_prefix_cons]
      exact ⟨rfl, List.nil_prefix⟩
    · rw [Holding, hcontents]
      cases hgame : preparedOf source.rules other with
      | none => exact hholding
      | some game =>
        have hmem : game ∈ gamesOf source.rules (written ++ other :: more) :=
          List.mem_filterMap.mpr ⟨other, List.mem_append_right _ List.mem_cons_self, hgame⟩
        rw [Option.elim_some, hholding]
        exact Contents.add_of_knows (Contents.knows_addAll hmem)

/-- A store between two sessions. -/
structure Between (source : ImportSource) (text : List Char) (start : Contents)
    (store : ImportStore) : Prop where
  saved : store.saved = none
  reachable : store.tables.Reachable source.moveHash
  unique : ∀ checkpoint, store.checkpoint = some checkpoint → source.Owns checkpoint →
    store.tables.identityIndex = true → store.tables.Unique
  holds : ∃ kept, kept <+: sourceReads source.importStream text ∧
    Holding source start kept store.tables ∧ Resumable source text kept store

/-- A run inside a session: what it has written, what its tables hold, and what a crash leaves. -/
structure During (source : ImportSource) (text : List Char) (start : Contents) (run : ImportRun)
    (written : List SourceRead) : Prop where
  tables : Writable source.moveHash run.rawMode run.store.tables
  durable : Writable source.moveHash run.rawMode run.store.durable
  holds : ∃ kept progress, kept <+: progress ∧ progress <+: sourceReads source.importStream text ∧
    written <+: progress ∧ Holding source start kept run.store.durable ∧
    Holding source start progress run.store.tables ∧ Resumable source text kept run.store
  boundary : IsBoundary source.importStream text run.checkpointOffset
  covers : ∀ read ∈ sourceReads source.importStream text,
    read.2 ≤ run.checkpointOffset → read ∈ written

def Session.Holds (source : ImportSource) (text : List Char) (start : Contents) : Session → Prop
  | .idle store => Between source text start store
  | .importing config run _ => ∃ written,
    run.Progress (source.under config) text (sourceReads source.importStream text) written ∧
      During source text start run written

theorem Resumable.mono {store store' : ImportStore} (h : Resumable source text kept store)
    (hcheckpoint : store'.checkpoint = store.checkpoint) (hsubset : kept ⊆ progress) :
    Resumable source text progress store' := by
  intro checkpoint hsome howns
  obtain ⟨hboundary, hcovers⟩ := h checkpoint (hcheckpoint ▸ hsome) howns
  exact ⟨hboundary, fun read hread hle => hsubset (hcovers read hread hle)⟩

private theorem resumable_of_checkpoint {store : ImportStore} {checkpoint : ImportCheckpoint}
    (hcheckpoint : store.checkpoint = some checkpoint)
    (hboundary : IsBoundary source.importStream text checkpoint.byteOffset)
    (hcovers : ∀ read ∈ sourceReads source.importStream text,
      read.2 ≤ checkpoint.byteOffset → read ∈ kept) : Resumable source text kept store := by
  intro other hsome _
  obtain rfl := Option.some.inj (hcheckpoint.symm.trans hsome)
  exact ⟨hboundary, hcovers⟩

end Progress

section Steps

variable {source : ImportSource} {text : List Char} {start : Contents} {config : ImportConfig}
variable {failures : ImportFailures} {store : ImportStore} {run run' : ImportRun}
variable {kept progress written rest : List SourceRead} {read : SourceRead}

/-- No insert of a step fails, and no commit of a batch. -/
def Session.WriterWorks : Session → Action → Prop
  | _, .pipeline (.write failures) => failures.insert = false ∧ failures.commitTransaction = false
  | _, _ => True

private theorem extraTags_of_preparedOf {game : Game} (h : preparedOf source.rules read = some game) :
    game.extraTags = [] := by
  obtain ⟨found, offset⟩ := read
  cases found with
  | error e => cases h
  | ok pgnGame =>
    change (prepareGame source.rules pgnGame).toOption = some game at h
    cases hprepared : prepareGame source.rules pgnGame with
    | error e =>
      rw [hprepared] at h
      cases h
    | ok prepared =>
      rw [hprepared] at h
      obtain rfl := Option.some.inj h
      obtain ⟨-, -, moves, -, rfl⟩ := prepareGame_eq_ok.mp hprepared
      rfl

private theorem writerFails_eq_false {slot : PipelineSlot}
    (hworks : failures.insert = false ∧ failures.commitTransaction = false)
    (htables : Writable source.moveHash run.rawMode run.store.tables)
    (hslot : run.slots.head? = some slot) (hcarries : slot.Carries source.rules read) :
    run.writerFails (source.under config) (.write failures) = false := by
  cases slot with
  | ready pgnGame nextGameOffset =>
    rw [ImportRun.writerFails, hslot]
    rfl
  | parseError =>
    rw [ImportRun.writerFails, hslot]
    rfl
  | prepared game nextGameOffset =>
    have hne := write_ne_ioFailure htables (extraTags_of_preparedOf hcarries.2)
    have hgame : run.slots.head?.bind PipelineSlot.gameRow = some game := by
      rw [hslot]
      rfl
    rcases run.store.insertGame_spec (source.under config).moveHash failures run.rawMode game with
      ⟨collision, id, hok, -⟩ | ⟨-, -, tables, -, hduplicate⟩ | ⟨tables, -, herror⟩
    · rw [ImportRun.writerFails_of_ok hgame (congrArg Prod.snd hok),
        ImportStore.commitBatch_eq hworks.2, Bool.not_true, Bool.and_false]
    · rw [ImportRun.writerFails_of_error hgame (congrArg Prod.snd hduplicate)]
      rfl
    · exfalso
      have hresult := congrArg Prod.snd herror
      rw [ImportStore.insertGame, if_neg (by rw [hworks.1]; exact Bool.false_ne_true)] at hresult
      dsimp only at hresult
      split at hresult
      · exact hne hresult
      · rw [Tables.alone] at hresult
        split at hresult
        · cases hresult
        next e hwrite =>
          obtain rfl := Except.error.inj hresult
          exact hne (congrArg Prod.snd hwrite)

theorem During.advance (hduring : During source text start run written)
    (hsplit : sourceReads source.importStream text = written ++ read :: rest)
    (hraw : run'.rawMode = run.rawMode)
    (htables : Writable source.moveHash run.rawMode run'.store.tables)
    (hcontents : run'.store.tables.contents = (preparedOf source.rules read).elim
      run.store.tables.contents run.store.tables.contents.add)
    (hdurable : run'.store.durable = run.store.durable ∨ run'.store.durable = run'.store.tables)
    (hcheckpoint : run'.store.checkpoint = run.store.checkpoint ∨
      run'.store.durable = run'.store.tables ∧
        Resumable source text (written ++ [read]) run'.store)
    (hboundary : IsBoundary source.importStream text run'.checkpointOffset)
    (hcovers : ∀ other ∈ sourceReads source.importStream text,
      other.2 ≤ run'.checkpointOffset → other ∈ written ++ [read]) :
    During source text start run' (written ++ [read]) := by
  obtain ⟨-, hkeptWritable, ⟨kept, progress, hkept, hprogress, hwritten, hholdsKept, hholds,
    hresumable⟩, -, -⟩ := hduring
  rw [hsplit] at hprogress
  obtain ⟨progress', hmore, hprogress', hwritten', hholds'⟩ :=
    exists_progress hholds hwritten hprogress hcontents
  rw [← hsplit] at hprogress'
  refine ⟨hraw ▸ htables, ?_, ?_, hboundary, hcovers⟩
  · rw [hraw]
    rcases hdurable with hsame | hall
    · exact hsame ▸ hkeptWritable
    · exact hall ▸ htables
  · have hforGood : run'.store.durable = run'.store.tables →
        Resumable source text progress' run'.store → ∃ kept progress, kept <+: progress ∧
          progress <+: sourceReads source.importStream text ∧ written ++ [read] <+: progress ∧
          Holding source start kept run'.store.durable ∧
          Holding source start progress run'.store.tables ∧
          Resumable source text kept run'.store := by
      intro hall hresumable'
      exact ⟨progress', progress', List.prefix_rfl, hprogress', hwritten', hall ▸ hholds', hholds',
        hresumable'⟩
    rcases hcheckpoint with hsame | ⟨hall, hresumable'⟩
    · rcases hdurable with hkeeps | hall
      · exact ⟨kept, progress', hkept.trans hmore, hprogress', hwritten', hkeeps ▸ hholdsKept,
          hholds', hresumable.mono hsame (List.Subset.refl kept)⟩
      · exact hforGood hall (hresumable.mono hsame (hkept.trans hmore).subset)
    · exact hforGood hall fun checkpoint hsome howns =>
        ⟨(hresumable' checkpoint hsome howns).1, fun other hother hle =>
          hwritten'.subset ((hresumable' checkpoint hsome howns).2 other hother hle)⟩

theorem During.write (hduring : During source text start run written)
    (hreads : ReadsInOrder source.importStream
      (text.drop (PgnReader.new source.importStream (some text)).baseOffset))
    (hworks : failures.insert = false ∧ failures.commitTransaction = false)
    (hsplit : sourceReads source.importStream text = written ++ read :: rest) {slot : PipelineSlot}
    (hslot : run.slots.head? = some slot) (hcarries : slot.Carries source.rules read)
    (hwrites : ImportRun.Writes (source.under config) failures run run' slot)
    (hpre : run'.preCommitted = run.preCommitted) :
    During source text start run' (written ++ [read]) := by
  have htables := hduring.tables
  have hraw : run'.rawMode = run.rawMode := by rw [ImportRun.rawMode, hpre, ImportRun.rawMode]
  have hkeeps : ∀ other ∈ sourceReads source.importStream text,
      other.2 ≤ run.checkpointOffset → other ∈ written ++ [read] :=
    fun other hother hle => List.mem_append_left _ (hduring.covers other hother hle)
  cases hwrites with
  | skipped hstore hoffset hcommitted =>
    refine hduring.advance hsplit hraw ?_ ?_ (.inl ?_) (.inl ?_) (hoffset ▸ hduring.boundary)
      (hoffset ▸ hkeeps)
    · rwa [hstore]
    · rw [hstore, hcarries]
      rfl
    · rw [hstore]
    · rw [hstore]
  | @duplicate game nextGameOffset tables hchecked hholds hsame hstore hoffset hcommitted =>
    rw [hchecked] at htables
    obtain ⟨htables', hcontents⟩ := htables.duplicate hholds hsame
    refine hduring.advance hsplit hraw ?_ ?_ ?_ (.inl ?_) (hoffset ▸ hduring.boundary)
      (hoffset ▸ hkeeps)
    · rw [hstore, hchecked]
      exact htables'
    · rw [hstore, hcarries.2]
      exact hcontents
    · exact ImportStore.durable_of_saved (by rw [hstore])
    · rw [hstore]
  | failed hfails hstore =>
    rw [writerFails_eq_false hworks htables hslot hcarries] at hfails
    cases hfails
  | @stored game nextGameOffset collision id hwrite htables' hoffset hcommitted hbatch =>
    obtain ⟨hwritable, hcontents⟩ := htables.write hwrite
    have hend : run'.checkpointOffset = read.2 := hoffset.trans hcarries.1.symm
    have hboundary : IsBoundary source.importStream text read.2 :=
      .inr ⟨read, hsplit ▸ List.mem_append_right _ List.mem_cons_self, rfl⟩
    have hcovers : ∀ other ∈ sourceReads source.importStream text,
        other.2 ≤ read.2 → other ∈ written ++ [read] := fun other => mem_of_end_le hreads hsplit
    have hadds : run'.store.tables.contents = (preparedOf source.rules read).elim
        run.store.tables.contents run.store.tables.contents.add := by
      rw [hcarries.2]
      exact hcontents
    refine hduring.advance hsplit hraw hwritable hadds ?_ ?_ (hend ▸ hboundary) (hend ▸ hcovers)
    · rcases hbatch with ⟨hsaved, -⟩ | ⟨-, hall, -⟩
      · exact ImportStore.durable_of_saved hsaved
      · exact .inr hall
    · rcases hbatch with ⟨-, hsame⟩ | ⟨-, hall, hsame | ⟨lastGameId, hwrote⟩⟩
      · exact .inl hsame
      · exact .inl hsame
      · refine .inr ⟨hall, resumable_of_checkpoint hwrote ?_ ?_⟩
        · dsimp only
          rwa [← hcarries.1]
        · dsimp only
          rwa [← hcarries.1]

private theorem between_of_reconciled {before after : Tables} {checkpoint : Option ImportCheckpoint}
    (hbefore : Writable source.moveHash run.rawMode before)
    (hprogress : progress <+: sourceReads source.importStream text)
    (hholds : Holding source start progress before)
    (hresumable : Resumable source text progress ⟨after, none, checkpoint⟩)
    (hafter : ImportRun.Reconciled (source.under config) failures run before after) :
    Between source text start ⟨after, none, checkpoint⟩ := by
  rcases hafter with ⟨rfl, -⟩ | ⟨hraw, removed, hdeduplicate⟩
  · exact ⟨rfl, hbefore.reachable, fun _ _ _ => hbefore.unique_of_index, progress, hprogress, hholds,
      hresumable⟩
  · refine ⟨rfl, reachable_deduplicate hbefore.reachable hdeduplicate,
      fun _ _ _ _ => (Tables.deduplicate_guards hdeduplicate).1, progress, hprogress, ?_, hresumable⟩
    exact (Tables.contents_deduplicate hdeduplicate).trans hholds

theorem During.crashed (hduring : During source text start run written) :
    Between source text start ⟨run.store.durable, none, run.store.checkpoint⟩ := by
  obtain ⟨-, hdurable, ⟨kept, progress, hkept, hprogress, -, hholds, -, hresumable⟩, -, -⟩ := hduring
  exact ⟨rfl, hdurable.reachable, fun _ _ _ => hdurable.unique_of_index, kept,
    hkept.trans hprogress, hholds, hresumable⟩

theorem During.finishes (hduring : During source text start run written)
    {result : ImportStore × Except ErrorCode ImportSummary}
    (hfinishes : ImportRun.Finishes (source.under config) failures run result) :
    Between source text start result.1 := by
  obtain ⟨htables, hdurable, ⟨kept, progress, hkept, hprogress, hwritten, hholdsKept, hholds,
    hresumable⟩, hboundary, hcovers⟩ := hduring
  have hlater : ∀ after, Resumable source text progress ⟨after, none, run.store.checkpoint⟩ :=
    fun after => hresumable.mono rfl hkept.subset
  cases hfinishes with
  | abandoned hafter =>
    exact between_of_reconciled hdurable (hkept.trans hprogress) hholdsKept hresumable hafter
  | @failed after e hends hafter =>
    exact between_of_reconciled htables hprogress hholds (hlater after) hafter
  | @stopped after checkpoint summary hends hstopped hafter hcheckpoint =>
    apply between_of_reconciled htables hprogress hholds ?_ (hafter.reconciled failures)
    rcases hcheckpoint with rfl | ⟨committed, rfl⟩
    · exact hlater after
    · exact resumable_of_checkpoint rfl hboundary fun read hread hle =>
        hwritten.subset (hcovers read hread hle)
  | completed hends hstopped hafter =>
    apply between_of_reconciled htables hprogress hholds ?_ (hafter.reconciled failures)
    intro checkpoint hsome
    cases hsome

theorem During.settled (hduring : During source text start run written) :
    Between source text start (run.settle (source.under config) failures).rollbackBatch := by
  rcases ImportRun.settle_cases (source.under config) failures run with ⟨-, hcut⟩ | ⟨after, hafter, hcut⟩
  · rw [hcut]
    exact hduring.crashed
  · rw [hcut]
    obtain ⟨htables, -, ⟨kept, progress, hkept, hprogress, -, -, hholds, hresumable⟩, -, -⟩ := hduring
    exact between_of_reconciled htables hprogress hholds (hresumable.mono rfl hkept.subset) hafter

private theorem Between.of_contents {tables : Tables} (hbetween : Between source text start store)
    (hreachable : tables.Reachable source.moveHash) (hcontents : tables.contents = store.tables.contents)
    (hunique : tables.identityIndex = true → tables.Unique) :
    Between source text start { store with tables } := by
  obtain ⟨kept, hkept, hholds, hresumable⟩ := hbetween.holds
  exact ⟨hbetween.saved, hreachable, fun _ _ _ hindex => hunique hindex, kept, hkept,
    hcontents.trans hholds, hresumable⟩

private theorem holds_of_opens {stopRequested : Bool} (hfile : source.file = some text)
    (hreads : ReadsInOrder source.importStream
      (text.drop (PgnReader.new source.importStream (some text)).baseOffset))
    (hresumes : ∀ reads r, ResumesAt source.importStream text reads r)
    (hbetween : Between source text start store)
    {result : ImportStore × Except ErrorCode ImportRun}
    (hopens : Opens (source.under config) failures stopRequested store result) :
    (Session.opened config result).Holds source text start := by
  cases hopens with
  | refused => exact hbetween
  | refusedRepaired hrepaired =>
    exact hbetween.of_contents (reachable_deduplicate hbetween.reachable hrepaired)
      (Tables.contents_deduplicate hrepaired) fun _ => (Tables.deduplicate_guards hrepaired).1
  | @unbegun startOffset preCommitted tables after e hfails hpoint hafter =>
    obtain ⟨hcontents, hwritable⟩ := writable_startPoint hbetween.reachable hbetween.unique hpoint
    rcases hafter with ⟨rfl, -⟩ | ⟨hzero, removed, hdeduplicate⟩
    · exact hbetween.of_contents hwritable.reachable
        ((contents_rawTables _ _).trans hcontents) hwritable.unique_of_index
    · rw [rawTables, if_pos hzero] at hwritable
      exact hbetween.of_contents (reachable_deduplicate hwritable.reachable hdeduplicate)
        ((Tables.contents_deduplicate hdeduplicate).trans hcontents)
        fun _ => (Tables.deduplicate_guards hdeduplicate).1
  | @started startOffset preCommitted preLastGameId tables reader hpoint hsought saved run hsame hrun =>
    obtain ⟨hcontents, hwritable⟩ := writable_startPoint hbetween.reachable hbetween.unique hpoint
    obtain ⟨kept, hkept, hholds, hresumable⟩ := hbetween.holds
    have hstart : IsBoundary source.importStream text startOffset ∧
        (0 < startOffset → reader.byteOffset = startOffset) ∧
        ∀ read ∈ sourceReads source.importStream text, read.2 ≤ startOffset → read ∈ kept := by
      have hcheckpoint : ∀ checkpoint, store.checkpoint = some checkpoint → source.Owns checkpoint →
          startOffset = checkpoint.byteOffset → IsBoundary source.importStream text startOffset ∧
          (0 < startOffset → reader.byteOffset = startOffset) ∧
          ∀ read ∈ sourceReads source.importStream text, read.2 ≤ startOffset → read ∈ kept := by
        rintro checkpoint hsome howns rfl
        obtain ⟨hboundary, hcovers⟩ := hresumable checkpoint hsome howns
        refine ⟨hboundary, fun hpos => ?_, hcovers⟩
        rcases hsought with ⟨hzero, -⟩ | ⟨-, hseek⟩
        · omega
        · rcases hboundary with hzero | ⟨read, hread, hend⟩
          · omega
          · change PgnReader.seekToOffset source.importStream source.file _ _ = _ at hseek
            rw [hfile, ← hend] at hseek
            rw [← hend]
            exact byteOffset_of_resumesAt hresumes hread hseek
      cases hpoint with
      | fresh =>
        refine ⟨.inl rfl, fun hpos => absurd hpos (Nat.lt_irrefl 0), fun read hread hle => ?_⟩
        have hpos := pos_of_mem_sourceReads hreads hread
        omega
      | resumed hsome howns => exact hcheckpoint _ hsome howns rfl
      | repaired hsome howns => exact hcheckpoint _ hsome howns rfl
    obtain ⟨hboundary, hstands, hcovers⟩ := hstart
    obtain ⟨written, left, hsplit, hleaves, hbefore, hbehind⟩ :=
      exists_split hreads hfile hboundary hsought hstands
    have hwritten : written <+: kept := by
      refine prefix_of_subset (pairwise_sourceReads hreads) ⟨_, hsplit.symm⟩ hkept fun read hread => ?_
      exact hcovers read (hsplit ▸ List.mem_append_left _ hread) (hbefore read hread)
    have hholdsStart : Holding source start kept (rawTables preCommitted tables) :=
      ((contents_rawTables _ _).trans hcontents).trans hholds
    subst hrun
    have hdurable : (⟨rawTables preCommitted tables, saved, store.checkpoint⟩ : ImportStore).durable =
        rawTables preCommitted tables := hsame
    refine ⟨written, ⟨⟨[], _, hsplit, .nil, fun _ => ⟨left, hleaves, rfl⟩, fun hfatal => ?_⟩,
      fun hended => ?_⟩, hwritable, ?_, ⟨kept, kept, List.prefix_rfl, hkept, hwritten, ?_,
      hholdsStart, hresumable⟩, hboundary, fun read hread hle => ?_⟩
    · cases hfatal
    · rcases hended with hended | hended <;> cases hended
    · dsimp only
      rw [hdurable]
      exact hwritable
    · dsimp only
      rw [hdurable]
      exact hholdsStart
    · rw [hsplit] at hread
      rcases List.mem_append.mp hread with hread | hread
      · exact hread
      · exact absurd hle (Nat.not_le.mpr (hbehind read hread))

private theorem holds_step {session session' : Session} {action : Session.Action}
    (hfile : source.file = some text)
    (hreads : ReadsInOrder source.importStream
      (text.drop (PgnReader.new source.importStream (some text)).baseOffset))
    (hresumes : ∀ reads r, ResumesAt source.importStream text reads r)
    (hholds : session.Holds source text start) (hworks : session.WriterWorks action)
    (hstep : session.step source action = some session') : session'.Holds source text start := by
  cases session with
  | idle store =>
    cases action with
    | run config failures stopRequested =>
      obtain rfl := Option.some.inj hstep
      exact holds_of_opens hfile hreads hresumes hholds (opens_run hholds.saved)
    | resume config failures stopRequested =>
      obtain rfl := Option.some.inj hstep
      exact holds_of_opens hfile hreads hresumes hholds (opens_resume hholds.saved)
    | crash =>
      obtain rfl := Option.some.inj hstep
      have hsame : store.rollbackBatch = store := by
        rw [ImportStore.rollbackBatch, hholds.saved, Option.getD_none, ← hholds.saved]
      exact hsame.symm ▸ hholds
    | pipeline => cases hstep
    | finish => cases hstep
    | crashAtEnd => cases hstep
  | importing config run writerFailed =>
    obtain ⟨written, hprogress, hduring⟩ := hholds
    cases action with
    | pipeline action =>
      obtain ⟨run', hrun, rfl⟩ := Option.map_eq_some_iff.mp hstep
      rcases hprogress.step hrun with ⟨hprogress', hstore, hpre, -, hoffset, -⟩ |
        ⟨failures, slot, read, rest, rfl, hsplit, hslot, hcarries, hwrites, hpre, hprogress'⟩
      · have hraw : run'.rawMode = run.rawMode := by rw [ImportRun.rawMode, hpre, ImportRun.rawMode]
        obtain ⟨htables, hdurable, hkept, hboundary, hcovers⟩ := hduring
        refine ⟨written, hprogress', ?_, ?_, ?_, hoffset ▸ hboundary, hoffset ▸ hcovers⟩
        · rwa [hstore, hraw]
        · rwa [hstore, hraw]
        · rwa [hstore]
      · exact ⟨_, hprogress',
          hduring.write hreads hworks hsplit hslot hcarries hwrites hpre⟩
    | finish failures =>
      obtain ⟨-, hfinished⟩ := Option.ite_none_right_eq_some.mp hstep
      obtain rfl := Option.some.inj hfinished
      exact hduring.finishes (ImportRun.finishes_finish _ failures run)
    | crash =>
      obtain rfl := Option.some.inj hstep
      exact hduring.crashed
    | crashAtEnd failures =>
      obtain ⟨-, hsettled⟩ := Option.ite_none_right_eq_some.mp hstep
      obtain rfl := Option.some.inj hsettled
      exact hduring.settled
    | run => cases hstep
    | resume => cases hstep

end Steps

section Completion

variable {source : ImportSource} {text : List Char} {store final final' : ImportStore}

/-- A history of sessions whose last run ends without a stop and without an error. -/
def Completed (source : ImportSource) (allowed : Session → Session.Action → Prop)
    (store final : ImportStore) : Prop :=
  ∃ config run writerFailed failures ended summary,
    Session.Reaches source allowed store (.importing config run writerFailed) ∧ run.Drained ∧
      (run.stopped || run.stopRequested) = false ∧
      run.finish (source.under config) failures = (ended, .ok summary) ∧ final = ended.store

/-- An import without a break: one call of `run`, and the steps of its pipeline. -/
def Session.Unbroken : Session → Action → Prop
  | .idle _, .run _ _ _ => True
  | .importing _ _ _, .pipeline (.write failures) =>
    failures.insert = false ∧ failures.commitTransaction = false
  | .importing _ _ _, .pipeline action => action ≠ .requestStop
  | _, _ => False

private theorem writerWorks_of_unbroken {session : Session} {action : Session.Action}
    (h : session.Unbroken action) : session.WriterWorks action := by
  cases session with
  | idle store => cases action <;> first | exact trivial | exact absurd h id
  | importing config run writerFailed =>
    cases action with
    | pipeline action => cases action <;> first | exact h | exact trivial
    | _ => exact trivial

private theorem contents_of_completed (hfile : source.file = some text)
    (hreads : ReadsInOrder source.importStream
      (text.drop (PgnReader.new source.importStream (some text)).baseOffset))
    (hresumes : ∀ reads r, ResumesAt source.importStream text reads r)
    (hidle : store.saved = none) (hreachable : store.tables.Reachable source.moveHash)
    (hnew : ∀ checkpoint, store.checkpoint = some checkpoint → ¬source.Owns checkpoint)
    (h : Completed source Session.WriterWorks store final) :
    final.tables.contents = store.tables.contents.addAll
        (gamesOf source.rules (sourceReads source.importStream text)) ∧ final.tables.Unique := by
  obtain ⟨config, run, writerFailed, failures, ended, summary, hhistory, hdrained, hstopped, hfinish,
    rfl⟩ := h
  have hstart : (Session.idle store).Holds source text store.tables.contents :=
    ⟨hidle, hreachable, fun _ hsome howns => absurd howns (hnew _ hsome), [], List.nil_prefix, rfl,
      fun _ hsome howns => absurd howns (hnew _ hsome)⟩
  have hholds : (Session.importing config run writerFailed).Holds source text store.tables.contents :=
    System.Reaches.invariant hhistory hstart
      fun _ _ _ hholds hworks hstep => holds_step hfile hreads hresumes hholds hworks hstep
  obtain ⟨written, ⟨⟨inflight, unread, hsplit, hslots, -, heof⟩, hsignals⟩, htables, -,
    ⟨kept, progress, -, hprogress, hwritten, -, hcontents, -⟩, -, -⟩ := hholds
  have hfinishes := ImportRun.finishes_finish (source.under config) failures run
  rw [hfinish] at hfinishes
  dsimp only at hfinishes
  generalize hstore : ended.store = final at hfinishes
  cases hfinishes with
  | stopped hends hstop => exact absurd hstop (by rw [hstopped]; exact Bool.false_ne_true)
  | completed hends hnot hafter =>
    have hnotStopped : run.stopped = false := (Bool.or_eq_false_iff.mp hstopped).1
    obtain ⟨hended, hempty⟩ : run.ended = true ∧ run.slots = [] := by
      rcases hdrained.2 with hboth | hstop | hfailed
      · exact hboth
      · rw [hnotStopped] at hstop
        cases hstop
      · rw [hfailed] at hends
        cases hends
    have hfatal : run.fatalError = some .eof := by
      rcases hsignals (.inr hended) with hstop | hsome
      · rw [hnotStopped] at hstop
        cases hstop
      · obtain ⟨e, he⟩ := Option.isSome_iff_exists.mp hsome
        rw [he, Option.filter_some] at hends
        have hcode : e = .eof := by simpa using hends
        rw [he, hcode]
    rw [hempty] at hslots
    cases hslots
    rw [heof hfatal, List.append_nil, List.append_nil] at hsplit
    obtain rfl : progress = sourceReads source.importStream text :=
      hprogress.eq_of_length_le (hsplit ▸ hwritten.length_le)
    rcases hafter with ⟨hraw, rfl⟩ | ⟨hraw, removed, hdeduplicate⟩
    · exact ⟨hcontents, htables.unique hraw⟩
    · exact ⟨(Tables.contents_deduplicate hdeduplicate).trans hcontents,
        (Tables.deduplicate_guards hdeduplicate).1⟩

/-- However often an import is stopped or cut, once it is completed the database stores the games that
an import without a break leaves, every game of the source is there, and none is stored twice. -/
theorem storedGames_of_completed (hfile : source.file = some text)
    (hreads : ReadsInOrder source.importStream
      (text.drop (PgnReader.new source.importStream (some text)).baseOffset))
    (hresumes : ∀ reads r, ResumesAt source.importStream text reads r)
    (hidle : store.saved = none) (hreachable : store.tables.Reachable source.moveHash)
    (hnew : ∀ checkpoint, store.checkpoint = some checkpoint → ¬source.Owns checkpoint)
    (h : Completed source Session.WriterWorks store final)
    (hunbroken : Completed source Session.Unbroken store final') :
    storedGames final.tables = storedGames final'.tables ∧
      (∀ read ∈ sourceReads source.importStream text, SettledIn source.rules final.tables read) ∧
      final.tables.Unique := by
  have hweaker : Completed source Session.WriterWorks store final' := by
    obtain ⟨config, run, writerFailed, failures, ended, summary, hhistory, hrest⟩ := hunbroken
    exact ⟨config, run, writerFailed, failures, ended, summary,
      hhistory.mono fun _ _ => writerWorks_of_unbroken, hrest⟩
  obtain ⟨hcontents, hunique⟩ :=
    contents_of_completed hfile hreads hresumes hidle hreachable hnew h
  obtain ⟨hcontents', hunique'⟩ :=
    contents_of_completed hfile hreads hresumes hidle hreachable hnew hweaker
  refine ⟨storedGames_congr hunique hunique' (hcontents.trans hcontents'.symm), ?_, hunique⟩
  intro read hread game hgame
  rw [Tables.holds_iff_contents, hcontents]
  exact (Contents.knows_addAll (List.mem_filterMap.mpr ⟨read, hread, hgame⟩)).game

end Completion

section Samples

private def worksIn : Session → Session.Action → Bool
  | _, .pipeline (.write failures) => !failures.insert && !failures.commitTransaction
  | _, _ => true

private def unbrokenIn : Session → Session.Action → Bool
  | .idle _, .run _ _ _ => true
  | .importing _ _ _, .pipeline (.write failures) => !failures.insert && !failures.commitTransaction
  | .importing _ _ _, .pipeline .requestStop => false
  | .importing _ _ _, .pipeline _ => true
  | _, _ => false

private theorem writerWorks_of_worksIn {session : Session} {action : Session.Action}
    (h : worksIn session action = true) : session.WriterWorks action := by
  cases action with
  | pipeline action =>
    cases action with
    | write failures => cases session <;> simpa [worksIn, Session.WriterWorks] using h
    | _ => cases session <;> exact trivial
  | _ => cases session <;> exact trivial

private theorem unbroken_of_unbrokenIn {session : Session} {action : Session.Action}
    (h : unbrokenIn session action = true) : session.Unbroken action := by
  cases session with
  | idle store => cases action <;> first | exact trivial | cases h
  | importing config run writerFailed =>
    cases action with
    | pipeline action =>
      cases action with
      | write failures => simpa [unbrokenIn, Session.Unbroken] using h
      | requestStop => cases h
      | _ => simp [Session.Unbroken]
    | _ => cases h

/-- The store after the end of a run that was not stopped. -/
private def completion (source : ImportSource) : Session → Option ImportStore
  | .importing config run _ =>
    if run.Drained ∧ (run.stopped || run.stopRequested) = false then
      (run.finish (source.under config) {}).2.toOption.map fun _ =>
        (run.finish (source.under config) {}).1.store
    else none
  | _ => none

private theorem completed_of_completion {source : ImportSource} {store final : ImportStore}
    {allowed : Session → Session.Action → Bool} {weaker : Session → Session.Action → Prop}
    (hweaker : ∀ session action, allowed session action = true → weaker session action)
    {actions : List Session.Action}
    (h : (System.run (Session.step source) (fun s a => allowed s a = true) (.idle store)
      actions).bind (completion source) = some final) : Completed source weaker store final := by
  obtain ⟨session, hrun, hends⟩ := Option.bind_eq_some_iff.mp h
  cases session with
  | idle store => cases hends
  | importing config run writerFailed =>
    obtain ⟨⟨hdrained, hstopped⟩, hfinish⟩ := Option.ite_none_right_eq_some.mp hends
    obtain ⟨summary, hsummary, rfl⟩ := Option.map_eq_some_iff.mp hfinish
    refine ⟨config, run, writerFailed, {}, _, summary,
      (System.reaches_of_run hrun).mono hweaker, hdrained, hstopped, ?_, rfl⟩
    cases hresult : (run.finish (source.under config) {}).2 with
    | ok found =>
      rw [hresult] at hsummary
      obtain rfl := Option.some.inj hsummary
      exact Prod.ext rfl hresult
    | error e =>
      rw [hresult] at hsummary
      cases hsummary

private theorem resumesAt_pairSource (reads : ℕ) (r : PgnReader) :
    ResumesAt pairSource.importStream (firstText ++ secondText) reads r := by
  rw [resumesAt_iff _ _ readsInOrder_pairSource]
  rcases reads with _ | _ | reads
  · exact .inr ⟨by decide +kernel, by decide +kernel, by decide +kernel⟩
  · exact .inr ⟨by decide +kernel, by decide +kernel, by decide +kernel⟩
  · have hleaves := (@PgnReader.leaves_new pairSource.importStream (firstText ++ secondText)).after
      (reads + 2)
    have hlength : (PgnReader.new pairSource.importStream
      (some (firstText ++ secondText))).yields.length = 2 := by decide +kernel
    rw [List.drop_eq_nil_of_le (by rw [hlength]; omega)] at hleaves
    exact .inl hleaves.byteOffset

/-- One game through the pipeline. -/
private def oneGame : List Session.Action :=
  [.pipeline .takeLine, .pipeline .read, .pipeline (.prepare 0), .pipeline (.write {})]

/-- The process crashes behind the checkpoint of the first game, and the import is resumed. -/
theorem storedGames_of_completed_sample : ∃ final final',
    Completed pairSource Session.WriterWorks emptyStore final ∧
      Completed pairSource Session.Unbroken emptyStore final' ∧
      storedGames final.tables = storedGames final'.tables ∧ final.tables.Unique := by
  obtain ⟨final, hfinal⟩ := Option.isSome_iff_exists.mp (show ((System.run (Session.step pairSource)
    (fun s a => worksIn s a = true) (.idle emptyStore)
    (.run pairSource.config {} false :: oneGame ++ .crash :: .resume pairSource.config {} false ::
      oneGame ++ [.pipeline .takeLine, .pipeline .read])).bind (completion pairSource)).isSome = true by
    decide +kernel)
  obtain ⟨final', hfinal'⟩ := Option.isSome_iff_exists.mp (show ((System.run (Session.step pairSource)
    (fun s a => unbrokenIn s a = true) (.idle emptyStore)
    (.run pairSource.config {} false :: oneGame ++ oneGame ++
      [.pipeline .takeLine, .pipeline .read])).bind (completion pairSource)).isSome = true by
    decide +kernel)
  have hcompleted : Completed pairSource Session.WriterWorks emptyStore final :=
    completed_of_completion (fun _ _ => writerWorks_of_worksIn) hfinal
  have hunbroken : Completed pairSource Session.Unbroken emptyStore final' :=
    completed_of_completion (fun _ _ => unbroken_of_unbrokenIn) hfinal'
  have hreachable : emptyStore.tables.Reachable pairSource.moveHash := System.Reaches.refl
  obtain ⟨hsame, -, hunique⟩ := storedGames_of_completed rfl readsInOrder_pairSource
    resumesAt_pairSource rfl hreachable (fun checkpoint hsome => by cases hsome) hcompleted hunbroken
  exact ⟨final, final', hcompleted, hunbroken, hsame, hunique⟩

end Samples

end MotifChess.Import
