/- GID: MotifChess/Import/RebuildableRuns
   generality: implementation
   digest: Over the whole life of a bundle its postings can be rebuilt, unless the files or the counts fail. -/

import MotifChess.Db.Bundle.Rebuildable
import MotifChess.Import.IdentityRuns

set_option autoImplicit false
set_option relaxedAutoImplicit false

namespace MotifChess.Import

open MotifChess.Chess MotifChess.Db MotifChess.Db.PositionPostings

section Preparing

variable {rules : Rules} {source : ImportSource} {run run' : ImportRun}

private theorem replayable_of_prepareGame {pgn : PgnGame} {game : Game} (h : prepareGame rules pgn = .ok game) :
    (StoredGame.ofGame game).Replayable := by
  obtain ⟨-, hlength, moves, hmoves, rfl⟩ := prepareGame_eq_ok.mp h
  refine ⟨fitsInt16_toInt32 _, fitsInt16_toInt32 _, ?_⟩
  show moves.length ≤ 65535
  rw [length_applySans hmoves]
  exact hlength

/-- The postings can take the games that wait to be written. -/
def Prepared (slots : List PipelineSlot) : Prop :=
  ∀ slot ∈ slots, ∀ game ∈ slot.gameRow, (StoredGame.ofGame game).Replayable

theorem Prepared.append {slots : List PipelineSlot} {slot : PipelineSlot} (h : Prepared slots)
    (hslot : slot.gameRow = none) : Prepared (slots ++ [slot]) := by
  intro other hother game hgame
  rcases List.mem_append.mp hother with hold | hnew
  · exact h other hold game hgame
  · obtain rfl := List.mem_singleton.mp hnew
    rw [hslot] at hgame
    cases hgame

theorem Prepared.set {slots : List PipelineSlot} {slot : PipelineSlot} (h : Prepared slots) (i : ℕ)
    (hslot : ∀ game ∈ slot.gameRow, (StoredGame.ofGame game).Replayable) : Prepared (slots.set i slot) := by
  intro other hother game hgame
  rcases List.mem_or_eq_of_mem_set hother with hold | rfl
  · exact h other hold game hgame
  · exact hslot game hgame

/-- The stages that do not write hand on nothing else. -/
theorem Prepared.step {action : ImportRun.Action} (h : Prepared run.slots)
    (hreads : ∀ failures, action ≠ .write failures) (hstep : run.step source action = some run') :
    Prepared run'.slots := by
  cases action with
  | requestStop =>
    obtain rfl := Option.some.inj hstep
    exact h
  | takeLine =>
    simp only [ImportRun.step, ImportRun.takeLine] at hstep
    split_ifs at hstep <;>
    · obtain rfl := Option.some.inj hstep
      exact h
  | read =>
    simp only [ImportRun.step, ImportRun.read] at hstep
    split_ifs at hstep
    split at hstep
    · obtain rfl := Option.some.inj hstep
      exact h.append rfl
    · obtain rfl := Option.some.inj hstep
      exact h.append rfl
    · obtain rfl := Option.some.inj hstep
      exact h
  | prepare i =>
    simp only [ImportRun.step, ImportRun.prepare] at hstep
    split at hstep
    next pgn nextGameOffset hslot =>
      cases hprepare : prepareGame source.rules pgn with
      | error e =>
        rw [hprepare] at hstep
        obtain rfl := Option.some.inj hstep
        exact h.set i fun game hgame => by cases hgame
      | ok game =>
        rw [hprepare] at hstep
        obtain rfl := Option.some.inj hstep
        refine h.set i fun other hother => ?_
        obtain rfl := Option.some.inj hother
        exact replayable_of_prepareGame hprepare
    next => cases hstep
  | write failures => exact absurd rfl (hreads failures)

end Preparing

section Sessions

variable {source : ImportSource} {config : ImportConfig} {failures : ImportFailures}
  {store : ImportStore} {run run' : ImportRun} {before after : Tables}

/-- The postings can take every game of a run: stored, kept for a rollback, or on its way. -/
structure ImportRun.Rebuildable (run : ImportRun) : Prop where
  tables : run.store.tables.Rebuildable
  durable : run.store.durable.Rebuildable
  slots : Prepared run.slots

def Session.Rebuildable : Session → Prop
  | .idle store => store.tables.Rebuildable
  | .importing _ run _ => run.Rebuildable

theorem ImportRun.Rebuildable.write (h : run.Rebuildable)
    (hstep : run.write source failures = some run') : run'.Rebuildable := by
  obtain ⟨slot, hslots, -, hwrites⟩ := ImportRun.writes_of_write hstep
  have hadvance : run'.store.tables.Rebuildable →
      (run'.store.durable = run.store.durable ∨ run'.store.durable = run'.store.tables) →
      run'.Rebuildable := by
    intro htables hdurable
    refine ⟨htables, ?_, fun other hother => h.slots other ?_⟩
    · rcases hdurable with hsame | hall
      · exact hsame ▸ h.durable
      · exact hall ▸ htables
    · rw [hslots]
      exact List.mem_cons_of_mem _ hother
  cases hwrites with
  | skipped hstore => exact hadvance (hstore ▸ h.tables) (.inl (by rw [hstore]))
  | duplicate _ _ htables hstore =>
    refine hadvance ?_ (ImportStore.durable_of_saved (by rw [hstore]))
    rw [hstore]
    rcases htables with rfl | rfl
    · exact h.tables
    · exact h.tables.findOrInsertNames _
  | failed hfails hstore =>
    refine hadvance ?_ (.inl (by rw [hstore]; rfl))
    rw [hstore]
    exact h.durable
  | stored hwrite htables hoffset hcommitted hbatch =>
    have hgame := h.slots _ (hslots ▸ List.mem_cons_self) _ rfl
    refine hadvance ?_ ?_
    · rw [htables]
      exact (h.tables.findOrInsertNames _).addRow hgame _
    · rcases hbatch with ⟨hsaved, -⟩ | ⟨-, hall, -⟩
      · exact ImportStore.durable_of_saved hsaved
      · exact .inr hall

theorem ImportRun.Rebuildable.step {action : ImportRun.Action} (h : run.Rebuildable)
    (hstep : run.step source action = some run') : run'.Rebuildable := by
  by_cases hwrites : ∃ failures, action = .write failures
  · obtain ⟨failures, rfl⟩ := hwrites
    exact h.write hstep
  · have hreads : ∀ failures, action ≠ .write failures := fun failures heq => hwrites ⟨failures, heq⟩
    obtain ⟨hstore, -⟩ := ImportRun.store_of_step hstep hreads
    exact ⟨hstore ▸ h.tables, hstore ▸ h.durable, h.slots.step hreads hstep⟩

private theorem rebuildable_of_reconciled (h : before.Rebuildable)
    (hafter : ImportRun.Reconciled source failures run before after) : after.Rebuildable := by
  rcases hafter with ⟨rfl, -⟩ | ⟨-, removed, hdeduplicate⟩
  · exact h
  · exact h.deduplicate hdeduplicate

theorem ImportRun.Rebuildable.finishes (h : run.Rebuildable)
    {result : ImportStore × Except ErrorCode ImportSummary}
    (hfinishes : ImportRun.Finishes source failures run result) : result.1.tables.Rebuildable := by
  cases hfinishes with
  | abandoned hafter => exact rebuildable_of_reconciled h.durable hafter
  | failed hends hafter => exact rebuildable_of_reconciled h.tables hafter
  | stopped hends hstopped hafter =>
    exact rebuildable_of_reconciled h.tables (hafter.reconciled failures)
  | completed hends hstopped hafter =>
    exact rebuildable_of_reconciled h.tables (hafter.reconciled failures)

theorem ImportRun.Rebuildable.settled (h : run.Rebuildable) :
    (run.settle source failures).rollbackBatch.tables.Rebuildable := by
  rcases ImportRun.settle_cases source failures run with ⟨-, hcut⟩ | ⟨after, hafter, hcut⟩
  · rw [hcut]
    exact h.durable
  · rw [hcut]
    exact rebuildable_of_reconciled h.tables hafter

private theorem rebuildable_rawTables (h : before.Rebuildable) (preCommitted : ℤ) :
    (rawTables preCommitted before).Rebuildable := by
  unfold rawTables
  split_ifs
  · exact h.of_subset fun row hrow => hrow
  · exact h

private theorem rebuildable_startPoint {startOffset : ℕ} {preCommitted : ℤ} (h : store.tables.Rebuildable)
    (hpoint : StartPoint source store startOffset preCommitted after) : after.Rebuildable := by
  cases hpoint with
  | fresh => exact h
  | resumed => exact h
  | repaired hcheckpoint howns hindex hrepaired => exact h.deduplicate hrepaired

private theorem rebuildable_of_opens {stopRequested : Bool} (h : store.tables.Rebuildable)
    {result : ImportStore × Except ErrorCode ImportRun}
    (hopens : Opens source failures stopRequested store result) :
    (Session.opened config result).Rebuildable := by
  cases hopens with
  | refused => exact h
  | refusedRepaired hrepaired => exact h.deduplicate hrepaired
  | unbegun hfails hpoint hafter =>
    have hstart := rebuildable_startPoint h hpoint
    rcases hafter with ⟨rfl, -⟩ | ⟨-, removed, hdeduplicate⟩
    · exact rebuildable_rawTables hstart _
    · exact (hstart.of_subset fun row hrow => hrow).deduplicate hdeduplicate
  | started hpoint hsought hsaved hrun =>
    have hstart := rebuildable_rawTables (rebuildable_startPoint h hpoint)
    subst hrun
    refine ⟨hstart _, ?_, fun slot hslot => by cases hslot⟩
    rw [ImportStore.durable, hsaved]
    exact hstart _

end Sessions

section Runs

variable {ix : Indexes} {moveHash : List UInt16 → UInt64} {library library' : Library ix}

namespace Library

/-- The callers insert only games that the postings can take. -/
def Admits : Library ix → Action → Prop
  | .resting _ _, .call (.insertGame _ _ game) => (StoredGame.ofGame game).Replayable
  | _, _ => True

/-- The postings can take every game of the bundle, also those that a rollback brings back. -/
def Rebuildable : Library ix → Prop
  | .resting bundle _ => bundle.Committed Tables.Rebuildable
  | .importing bundle _ _ run _ => bundle.inBatch = false ∧ run.Rebuildable

private theorem rebuildable_ofSession {bundle : Bundle ix} {source : ImportSource} {session : Session}
    (hbatch : bundle.inBatch = false) (hsession : session.Rebuildable) :
    (ofSession bundle source session).Rebuildable := by
  cases session with
  | idle store => exact Bundle.Committed.store hbatch hsession
  | importing config run writerFailed => exact ⟨hbatch, hsession⟩

private theorem rebuildable_startImport {source : ImportSource} {bundle : Bundle ix}
    {checkpoint : Option ImportCheckpoint} {action : Session.Action}
    (h : bundle.Committed Tables.Rebuildable)
    (hopened : ∀ session, Session.step source (.idle ⟨bundle.tables, none, checkpoint⟩) action =
      some session → session.Rebuildable)
    (hstep : startImport bundle checkpoint source action = some library) : library.Rebuildable := by
  obtain ⟨-, hstarted⟩ := Option.ite_none_right_eq_some.mp hstep
  obtain ⟨session, hsession, rfl⟩ := Option.map_eq_some_iff.mp hstarted
  exact rebuildable_ofSession h.unbatched (hopened session hsession)

end Library

/-- A call keeps the games such that the postings can take them: a patch with other ratings is refused
before it writes. -/
private theorem rebuildable_call {bundle bundle' : Bundle ix} {action : Bundle.Action}
    (h : bundle.Committed Tables.Rebuildable) (hcall : action.isCall = true)
    (hadmits : ∀ io works game, action = .insertGame io works game →
      (StoredGame.ofGame game).Replayable)
    (hstep : bundle.step moveHash action = some bundle') : bundle'.Committed Tables.Rebuildable := by
  by_cases hrefused : ∃ io works id patch, action = .patchGameMetadata io works id patch ∧
      ¬patch.Narrow
  · obtain ⟨io, works, id, patch, rfl, hwide⟩ := hrefused
    obtain ⟨-, hdone⟩ := Option.ite_none_left_eq_some.mp hstep
    obtain rfl := Option.some.inj hdone
    rw [Bundle.patchGameMetadata_of_not_narrow hwide]
    exact h
  · refine h.step hcall (fun write hwrite t ht => ?_) hstep
    refine h.holds.step ?_ ht
    cases action with
    | insertGame io works game =>
      obtain rfl := Option.some.inj hwrite
      exact hadmits io works game rfl
    | patchGameMetadata io works id patch =>
      obtain rfl := Option.some.inj hwrite
      have hnarrow : patch.Narrow := by
        by_contra hwide
        exact hrefused ⟨io, works, id, patch, rfl, hwide⟩
      exact hnarrow.keeps id
    | removeGame io works id =>
      obtain rfl := Option.some.inj hwrite
      exact trivial
    | removeUserGame io works id =>
      obtain rfl := Option.some.inj hwrite
      exact trivial
    | setManualGameProvenance works id label status =>
      obtain rfl := Option.some.inj hwrite
      exact trivial
    | _ => cases hwrite

private theorem rebuildable_step {action : Library.Action} (h : library.Rebuildable)
    (hadmits : library.Admits action) (hstep : library.step moveHash action = some library') :
    library'.Rebuildable := by
  cases library with
  | resting bundle checkpoint =>
    have hidle : (⟨bundle.tables, none, checkpoint⟩ : ImportStore).saved = none := rfl
    cases action with
    | call action =>
      obtain ⟨hcall, hcalled⟩ := Option.ite_none_right_eq_some.mp hstep
      obtain ⟨bundle', hbundle, rfl⟩ := Option.map_eq_some_iff.mp hcalled
      refine rebuildable_call h hcall ?_ hbundle
      rintro io works game rfl
      exact hadmits
    | run source failures stopRequested =>
      refine Library.rebuildable_startImport h (fun session hsession => ?_) hstep
      obtain rfl := Option.some.inj hsession
      exact rebuildable_of_opens h.holds (opens_run hidle)
    | resume source failures stopRequested =>
      refine Library.rebuildable_startImport h (fun session hsession => ?_) hstep
      obtain rfl := Option.some.inj hsession
      exact rebuildable_of_opens h.holds (opens_resume hidle)
    | pipeline => cases hstep
    | finish => cases hstep
    | crash => cases hstep
    | crashAtEnd => cases hstep
  | importing bundle source config run writerFailed =>
    obtain ⟨hbatch, hrun⟩ := h
    cases action with
    | pipeline action =>
      obtain ⟨session, hsession, rfl⟩ := Option.map_eq_some_iff.mp hstep
      obtain ⟨run', hstepped, rfl⟩ := Option.map_eq_some_iff.mp hsession
      exact ⟨hbatch, hrun.step hstepped⟩
    | finish failures =>
      obtain ⟨session, hsession, rfl⟩ := Option.map_eq_some_iff.mp hstep
      obtain ⟨-, hfinished⟩ := Option.ite_none_right_eq_some.mp hsession
      obtain rfl := Option.some.inj hfinished
      apply Library.rebuildable_ofSession hbatch
      exact hrun.finishes (ImportRun.finishes_finish _ failures run)
    | crash =>
      obtain rfl := Option.some.inj hstep
      exact (Bundle.Committed.store hbatch hrun.durable).crash
    | crashAtEnd failures =>
      obtain ⟨session, hsession, rfl⟩ := Option.map_eq_some_iff.mp hstep
      obtain ⟨-, hsettled⟩ := Option.ite_none_right_eq_some.mp hsession
      obtain rfl := Option.some.inj hsettled
      exact (Bundle.Committed.store hbatch hrun.settled).crash
    | call => cases hstep
    | run => cases hstep
    | resume => cases hstep

private theorem rebuildable_of_reaches {name createdAt : String}
    (h : Library.Reaches moveHash Library.Admits name createdAt library) : library.Rebuildable := by
  have hcreated : (Library.created name createdAt : Library ix).Rebuildable := ⟨.empty, rfl, rfl⟩
  exact System.Reaches.invariant h hcreated fun _ _ _ hrebuildable hadmits hstep =>
    rebuildable_step hrebuildable hadmits hstep

end Runs

section Rebuilds

variable {rules : Rules} {Tree : Type}
  {buildTree : List ReplayGame → Reader → List UInt8 → Result (List UInt8)}
  {openTree : List UInt8 → Result Tree} {sourceGameCount : Tree → ℕ}
  {moveHash : List UInt16 → UInt64} {name createdAt : String}
  {bundle : Bundle (.ofRules rules Tree buildTree openTree sourceGameCount)}
  {checkpoint : Option ImportCheckpoint}

/-- The postings of a bundle can be built whenever they have to be: a rebuild of an open bundle fails
only with the file system, the streams or the counts, and so does the rebuild that opens a closed one. -/
structure Rebuilds (bundle : Bundle (.ofRules rules Tree buildTree openTree sourceGameCount)) : Prop where
  rebuild : ∀ io, (bundle.rebuildPositionPostings io).2 = .ok () ↔
    bundle.manager.isSome = true ∧ io.Works ∧
      BuildFits rules defaultSpillThreshold bundle.tables.replayGames
  «open» : ∀ io, (bundle.open io).2 = .ok () ↔
    bundle.manager = none ∧ io.opensStore = true ∧ io.marksInUse.outcome = .published ∧
      ((bundle.loadManager io).postingsCoverCanonicalGames bundle.tables = true ∨
        io.rebuild.Works ∧ BuildFits rules defaultSpillThreshold bundle.tables.replayGames)

/-- Over the whole life of a bundle no stored game ever stands in the way of its postings. -/
theorem rebuilds_of_reaches
    (h : Library.Reaches moveHash Library.Admits name createdAt (.resting bundle checkpoint))
    (hfit : bundle.tables.nextId ≤ 2 ^ 32) : Rebuilds bundle where
  rebuild := fun io => Bundle.rebuildPositionPostings_ok_iff (rebuildable_of_reaches h).holds hfit
  «open» := by
    intro io
    set loaded : Bundle (.ofRules rules Tree buildTree openTree sourceGameCount) :=
      { bundle with manager := some (bundle.loadManager io) } with hmanager
    have hrebuildable : loaded.tables.Rebuildable := (rebuildable_of_reaches h).holds
    have hloaded : (loaded.rebuildPositionPostings io.rebuild).2 = .ok () ↔ _ :=
      Bundle.rebuildPositionPostings_ok_iff hrebuildable hfit
    rw [Bundle.open_ok_iff, hloaded, Option.isSome_some, eq_self_iff_true, true_and]

end Rebuilds

section Sample

private def admitsIn {ix : Indexes} : Library ix → Library.Action → Bool
  | .resting _ _, .call (.insertGame _ _ game) =>
    decide (FitsInt16 game.white.elo ∧ FitsInt16 game.black.elo ∧ game.moves.length ≤ 65535)
  | _, _ => true

private theorem admits_of_admitsIn {ix : Indexes} {library : Library ix} {action : Library.Action}
    (h : admitsIn library action = true) : library.Admits action := by
  cases library with
  | resting bundle checkpoint =>
    cases action with
    | call action =>
      cases action with
      | insertGame io works game =>
        rw [admitsIn, decide_eq_true_eq] at h
        obtain ⟨hwhite, hblack, hmoves⟩ := h
        exact ⟨hwhite, hblack, hmoves⟩
      | _ => exact trivial
    | _ => exact trivial
  | importing => exact trivial

/-- A game is entered and rated, a rating out of range is refused, and the process dies in an import
that has written one game; the bundle is then opened again. -/
private def cutImport : List Library.Action :=
  [.call (.open {}), .call (.insertGame {} true Bundle.enteredGame),
    .call (.patchGameMetadata {} true 1 { whiteElo := some 2800 }),
    .call (.patchGameMetadata {} true 1 { blackElo := some 40000 }),
    .call (.prepareCanonicalMutation {}), .run pairSource {} false, .pipeline .takeLine,
    .pipeline .read, .pipeline (.prepare 0), .pipeline (.write {}), .crash, .call (.open {})]

private def rebuildsAfter : Library (.withoutTree .ofSums) → Bool
  | .resting bundle _ =>
    decide (bundle.tables.games.map (fun row => row.stored.whiteElo) = [some 2800, none] ∧
      bundle.tables.nextId ≤ 2 ^ 32 ∧ (bundle.rebuildPositionPostings {}).2 = .ok ())
  | .importing _ _ _ _ _ => false

theorem rebuilds_of_reaches_sample : ∃ bundle : Bundle (.withoutTree .ofSums),
    bundle.tables.games.map (fun row => row.stored.whiteElo) = [some 2800, none] ∧ Rebuilds bundle ∧
      (bundle.rebuildPositionPostings {}).2 = .ok () := by
  have htest : (System.run (Library.step fun _ => 0) (fun s a => admitsIn s a = true)
      (.created "sample" "2024-01-01T00:00:00Z") cutImport).any rebuildsAfter = true := by
    decide +kernel
  obtain ⟨library, hrun, htested⟩ := (Option.any_eq_true _ _).mp htest
  cases library with
  | resting bundle checkpoint =>
    rw [rebuildsAfter, decide_eq_true_eq] at htested
    obtain ⟨helos, hfit, hrebuilt⟩ := htested
    have hreaches : Library.Reaches (fun _ => 0) Library.Admits "sample" "2024-01-01T00:00:00Z"
        (.resting bundle checkpoint) :=
      (System.reaches_of_run hrun).mono fun _ _ => admits_of_admitsIn
    exact ⟨bundle, helos, rebuilds_of_reaches hreaches hfit, hrebuilt⟩
  | importing => cases htested

end Sample

end MotifChess.Import
