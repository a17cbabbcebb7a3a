/- GID: MotifChess/Import/IdentityRuns
   generality: implementation
   digest: The stored games stay different over the whole life of a bundle: calls, imports, crashes, reopens. -/

import MotifChess.Db.Bundle.Committed
import MotifChess.Db.Bundle.Freshness
import MotifChess.Import.WritableTables

/-! An import holds the lock of the manager, so that no other call comes between its steps. The
index files that it marks stale and rebuilds are calls of their own, before its start and after its
end. -/

set_option autoImplicit false
set_option relaxedAutoImplicit false

namespace MotifChess.Import

open MotifChess.Chess MotifChess.Db

section Model

/-- A bundle between two imports, with the checkpoint file beside it, or one with an import under
way, whose run has the tables. -/
inductive Library (ix : Indexes)
  | resting (bundle : Bundle ix) (checkpoint : Option ImportCheckpoint)
  | importing (bundle : Bundle ix) (source : ImportSource) (config : ImportConfig) (run : ImportRun)
      (writerFailed : Bool)

namespace Library

inductive Action
  | call (action : Bundle.Action)
  | run (source : ImportSource) (failures : ImportFailures) (stopRequested : Bool)
  | resume (source : ImportSource) (failures : ImportFailures) (stopRequested : Bool)
  | pipeline (action : ImportRun.Action)
  | finish (failures : ImportFailures)
  | crash
  | crashAtEnd (failures : ImportFailures)

variable {ix : Indexes}

/-- A new bundle that nobody has opened yet. -/
def created (name createdAt : String) : Library ix := .resting (.created name createdAt) none

/-- The bundle with what a session leaves in it. -/
def ofSession (bundle : Bundle ix) (source : ImportSource) : Session → Library ix
  | .idle store => .resting (bundle.store store.tables) store.checkpoint
  | .importing config run writerFailed => .importing bundle source config run writerFailed

/-- The process ends without closing the bundle. -/
def crashed : Library ix → Library ix
  | .resting bundle checkpoint => .resting bundle.crash checkpoint
  | .importing bundle source config run writerFailed =>
    .importing bundle source config run writerFailed

variable (moveHash : List UInt16 → UInt64)

/-- The step of a session on an open bundle. -/
def startImport (bundle : Bundle ix) (checkpoint : Option ImportCheckpoint) (source : ImportSource)
    (action : Session.Action) : Option (Library ix) :=
  if bundle.manager.isSome then
    (Session.step source (.idle ⟨bundle.tables, none, checkpoint⟩) action).map (ofSession bundle source)
  else none

def step : Library ix → Action → Option (Library ix)
  | .resting bundle checkpoint, .call action =>
    if action.isCall then (bundle.step moveHash action).map fun b => .resting b checkpoint else none
  | .resting bundle checkpoint, .run source failures stopRequested =>
    startImport bundle checkpoint { source with moveHash } (.run source.config failures stopRequested)
  | .resting bundle checkpoint, .resume source failures stopRequested =>
    startImport bundle checkpoint { source with moveHash }
      (.resume source.config failures stopRequested)
  | .importing bundle source config run writerFailed, .pipeline action =>
    (Session.step source (.importing config run writerFailed) (.pipeline action)).map
      (ofSession bundle source)
  | .importing bundle source config run writerFailed, .finish failures =>
    (Session.step source (.importing config run writerFailed) (.finish failures)).map
      (ofSession bundle source)
  | .importing bundle source config run writerFailed, .crash =>
    (Session.step source (.importing config run writerFailed) .crash).map fun session =>
      (ofSession bundle source session).crashed
  | .importing bundle source config run writerFailed, .crashAtEnd failures =>
    (Session.step source (.importing config run writerFailed) (.crashAtEnd failures)).map
      fun session => (ofSession bundle source session).crashed
  | _, _ => none

/-- The states that a run of allowed actions reaches from a new bundle. -/
def Reaches (allowed : Library ix → Action → Prop) (name createdAt : String) (library : Library ix) :
    Prop :=
  System.Reaches (step moveHash) allowed (created name createdAt) library

/-- While the bundle is open and no import is under way, no two games are the same, and the identity
index is there. -/
def IdentityUnique : Library ix → Prop
  | .resting bundle _ =>
    bundle.manager.isSome = true → bundle.tables.Unique ∧ bundle.tables.identityIndex = true
  | .importing _ _ _ _ _ => True

end Library

/-- Every other row with the identity that a patch gives to a row has the collision number of that
row, so that the index refuses the patch. -/
def Detects (t : Tables) (id : ℕ) (patch : GamePatch) : Prop :=
  ∀ row ∈ t.games, row.id = id → row.stored.provenance.read.sourceType = "manual" →
    ∀ other ∈ t.games, other.id ≠ id → other.identity = (t.patchedRow row patch).identity →
      other.identityCollision = row.identityCollision

instance (t : Tables) (id : ℕ) (patch : GamePatch) : Decidable (Detects t id patch) :=
  inferInstanceAs (Decidable (∀ _ ∈ _, _))

/-- The identity index is back behind every step: no fresh import is cut by a crash before its
deduplication, and none ends with a deduplication that fails; and no patch slips past the index. -/
def Library.Guarded {ix : Indexes} : Library ix → Library.Action → Prop
  | .resting bundle _, .call (.patchGameMetadata _ _ id patch) => Detects bundle.tables id patch
  | .resting _ _, .run _ failures _ | .resting _ _, .resume _ failures _ =>
    failures.beginTransaction = true → failures.deduplicate = false
  | .importing _ _ _ run _, .finish failures => run.rawMode = true → failures.deduplicate = false
  | .importing _ _ _ run _, .crash => run.rawMode = false
  | .importing _ _ _ run _, .crashAtEnd failures =>
    run.rawMode = true → failures.commitTransaction = false ∧ failures.deduplicate = false
  | _, _ => True

end Model

section Calls

variable {moveHash : List UInt16 → UInt64} {t u : Tables}

theorem Writable.insert (h : Writable moveHash false t) (game : Game) :
    Writable moveHash false (t.insert moveHash game).1 where
  reachable := reachable_step (.insert game) h.reachable rfl
  index := by rw [Tables.insert_identityIndex, h.index]
  unique := fun _ => Tables.unique_insert (h.unique rfl)

theorem Writable.remove {id : ℕ} (h : Writable moveHash false t) (hremove : t.remove id = .ok u) :
    Writable moveHash false u := by
  have hreachable : u.Reachable moveHash := by
    apply reachable_step (.remove id) h.reachable
    rw [StoreWrite.step, hremove]
    rfl
  unfold Tables.remove at hremove
  split_ifs at hremove
  obtain rfl := Except.ok.inj hremove
  refine ⟨hreachable, h.index, fun _ => ?_⟩
  exact (h.unique rfl).sublist (List.filter_sublist.map _)

theorem Writable.setManualProvenance {id : ℕ} {label : Option String} {status : String}
    (h : Writable moveHash false t) (hset : t.setManualProvenance id label status = .ok u) :
    Writable moveHash false u := by
  have hreachable : u.Reachable moveHash := by
    apply reachable_step (.setManualProvenance id label status) h.reachable
    rw [StoreWrite.step, hset]
    rfl
  obtain ⟨row, -, hchange⟩ := bind_eq_ok.mp hset
  obtain rfl := Except.ok.inj hchange
  refine ⟨hreachable, h.index, fun _ => ?_⟩
  have hsame : (t.changeGame id fun game => { game with
      provenance := ⟨"manual", label, status⟩ }).games.map GameRow.identity =
      t.games.map GameRow.identity := by
    rw [Tables.changeGame, Tables.rewriteRows, List.map_map]
    apply List.map_congr_left
    intro other _
    simp only [Function.comp_apply, GameRow.identity]
    split_ifs <;> rfl
  rw [Tables.Unique, hsame]
  exact h.unique rfl

private theorem unique_changeGame {row : GameRow} {change : StoredGame → StoredGame} (h : t.Unique)
    (hrow : row ∈ t.games) (hfree : ∀ other ∈ t.games, other.id ≠ row.id →
      other.identity ≠ (change row.stored).identity) : (t.changeGame row.id change).Unique := by
  have hnodup : t.games.Nodup := List.Nodup.of_map _ h
  have hidentity : (t.changeGame row.id change).games.map GameRow.identity =
      t.games.map fun other =>
        if other.id = row.id then (change other.stored).identity else other.identity := by
    rw [Tables.changeGame, Tables.rewriteRows, List.map_map]
    apply List.map_congr_left
    intro other _
    simp only [Function.comp_apply, GameRow.identity]
    split_ifs <;> rfl
  rw [Tables.Unique, hidentity]
  refine hnodup.map_on fun a ha b hb hsame => ?_
  by_cases hida : a.id = row.id
  · obtain rfl := Tables.eq_of_id_eq ha hrow hida
    by_cases hidb : b.id = a.id
    · exact (Tables.eq_of_id_eq hb ha hidb).symm
    · rw [if_pos rfl, if_neg hidb] at hsame
      exact absurd hsame.symm (hfree b hb hidb)
  · rw [if_neg hida] at hsame
    by_cases hidb : b.id = row.id
    · obtain rfl := Tables.eq_of_id_eq hb hrow hidb
      rw [if_pos rfl] at hsame
      exact absurd hsame (hfree a ha hida)
    · rw [if_neg hidb] at hsame
      exact List.inj_on_of_nodup_map h ha hb hsame

theorem Writable.patchMetadata {id : ℕ} {patch : GamePatch} (h : Writable moveHash false t)
    (hdetects : Detects t id patch) (hpatch : t.patchMetadata moveHash id patch = .ok u) :
    Writable moveHash false u := by
  have hstep : (StoreWrite.patchMetadata id patch).step moveHash t = some u := by
    rw [StoreWrite.step, hpatch]
    rfl
  have hindexed := Tables.indexHolds_step h.reachable.indexHolds hstep
  obtain ⟨row, hrow, rfl, hmanual, current, hcurrent, hrewritten⟩ := Tables.patchMetadata_ok hpatch
  obtain rfl := Except.ok.inj ((Tables.get_of_mem hrow).symm.trans hcurrent)
  have hindex : u.identityIndex = true := hrewritten.identityIndex.trans h.index
  refine ⟨reachable_step _ h.reachable hstep, hindex, fun _ => ?_⟩
  rw [Tables.indexHolds, hindex, Bool.not_true, Bool.false_or,
    Tables.indexUnique_iff_identityFree] at hindexed
  rw [Tables.Unique, hrewritten.games]
  apply unique_changeGame (h.unique rfl) hrow
  intro other hother hne hsame
  have hcollision := hdetects row hrow rfl hmanual other hother hne hsame
  have hpatched : ({ row with stored := t.patchedRow row patch } : GameRow) ∈ u.games := by
    rw [hrewritten.games]
    exact Tables.mem_changeGame_games.mpr ⟨row, hrow, (if_pos rfl).symm⟩
  have hkept : other ∈ u.games := by
    rw [hrewritten.games]
    exact Tables.mem_changeGame_games.mpr ⟨other, hother, (if_neg hne).symm⟩
  apply hindexed _ hpatched other hkept hne
  have hfields := congrArg Prod.fst hsame
  have hmoves := congrArg Prod.snd hsame
  exact Prod.ext hfields (Prod.ext (congrArg moveHash hmoves) hcollision)

private theorem writable_storeWrite {a : Bundle.Action} (h : Writable moveHash false t)
    (hdetects : ∀ io works id patch, a = .patchGameMetadata io works id patch → Detects t id patch)
    {write : StoreWrite} (hwrite : a.storeWrite = some write) (hstep : write.step moveHash t = some u) :
    Writable moveHash false u := by
  cases a with
  | insertGame io works game =>
    obtain rfl := Option.some.inj hwrite
    obtain rfl := Option.some.inj hstep
    exact h.insert game
  | patchGameMetadata io works id patch =>
    obtain rfl := Option.some.inj hwrite
    exact h.patchMetadata (hdetects _ _ _ _ rfl) (toOption_eq_some.mp hstep)
  | removeGame io works id =>
    obtain rfl := Option.some.inj hwrite
    exact h.remove (toOption_eq_some.mp hstep)
  | removeUserGame io works id =>
    obtain rfl := Option.some.inj hwrite
    exact h.remove (toOption_eq_some.mp hstep)
  | setManualGameProvenance works id label status =>
    obtain rfl := Option.some.inj hwrite
    exact h.setManualProvenance (toOption_eq_some.mp hstep)
  | _ => cases hwrite

end Calls

section Sessions

variable {source : ImportSource} {config : ImportConfig} {failures : ImportFailures}
variable {store : ImportStore} {run run' : ImportRun} {before after : Tables}

/-- The tables of a run may be written, and so may those that its open transaction would bring back. -/
structure Underway (source : ImportSource) (run : ImportRun) : Prop where
  tables : Writable source.moveHash run.rawMode run.store.tables
  durable : Writable source.moveHash run.rawMode run.store.durable

/-- Between two runs of a session the index is there, over games that are all different. -/
def Session.Sound (source : ImportSource) : Session → Prop
  | .idle store => Writable source.moveHash false store.tables
  | .importing _ run _ => Underway source run

private theorem writable_deduplicate {moveHash : List UInt16 → UInt64} {removed : ℕ}
    (h : before.Reachable moveHash) (hdeduplicate : before.deduplicate moveHash = .ok (after, removed)) :
    Writable moveHash false after := by
  obtain ⟨hunique, -, hindex⟩ := Tables.deduplicate_guards hdeduplicate
  exact ⟨reachable_deduplicate h hdeduplicate, hindex, fun _ => hunique⟩

theorem Underway.writes {slot : PipelineSlot} (h : Underway source run)
    (hkeeps : run.KeepsReading run')
    (hwrites : ImportRun.Writes (source.under config) failures run run' slot) :
    Underway source run' := by
  have hraw : run'.rawMode = run.rawMode := by
    rw [ImportRun.rawMode, hkeeps.preCommitted, ImportRun.rawMode]
  have hadvance : Writable source.moveHash run.rawMode run'.store.tables →
      (run'.store.durable = run.store.durable ∨ run'.store.durable = run'.store.tables) →
      Underway source run' := by
    intro htables hdurable
    refine ⟨hraw ▸ htables, ?_⟩
    rw [hraw]
    rcases hdurable with hsame | hall
    · exact hsame ▸ h.durable
    · exact hall ▸ htables
  cases hwrites with
  | skipped hstore => exact hadvance (hstore ▸ h.tables) (.inl (by rw [hstore]))
  | @duplicate game nextGameOffset tables hnotRaw hholds htables hstore =>
    have hbefore := h.tables
    rw [hnotRaw] at hbefore
    refine hadvance ?_ (ImportStore.durable_of_saved (by rw [hstore]))
    rw [hnotRaw, hstore]
    exact (hbefore.duplicate hholds htables).1
  | failed hfails hstore =>
    apply hadvance
    · rw [hstore]
      exact h.durable
    · rw [hstore]
      exact .inl rfl
  | stored hwrite htables hoffset hcommitted hbatch =>
    refine hadvance (h.tables.write hwrite).1 ?_
    rcases hbatch with ⟨hsaved, -⟩ | ⟨-, hall, -⟩
    · exact ImportStore.durable_of_saved hsaved
    · exact .inr hall

private theorem writable_of_reconciled (hbefore : Writable source.moveHash run.rawMode before)
    (hworks : run.rawMode = true → failures.deduplicate = false)
    (hafter : ImportRun.Reconciled (source.under config) failures run before after) :
    Writable source.moveHash false after := by
  rcases hafter with ⟨rfl, hfails⟩ | ⟨-, removed, hdeduplicate⟩
  · cases hraw : run.rawMode with
    | true =>
      have hnot := hworks hraw
      rw [hfails hraw] at hnot
      cases hnot
    | false => exact hraw ▸ hbefore
  · exact writable_deduplicate hbefore.reachable hdeduplicate

theorem Underway.finishes (h : Underway source run)
    (hworks : run.rawMode = true → failures.deduplicate = false)
    {result : ImportStore × Except ErrorCode ImportSummary}
    (hfinishes : ImportRun.Finishes (source.under config) failures run result) :
    Writable source.moveHash false result.1.tables := by
  cases hfinishes with
  | abandoned hafter => exact writable_of_reconciled h.durable hworks hafter
  | failed hends hafter => exact writable_of_reconciled h.tables hworks hafter
  | stopped hends hstopped hafter => exact writable_of_reconciled h.tables hworks (hafter.reconciled _)
  | completed hends hstopped hafter =>
    exact writable_of_reconciled h.tables hworks (hafter.reconciled _)

theorem Underway.settled (h : Underway source run)
    (hworks : run.rawMode = true → failures.commitTransaction = false ∧ failures.deduplicate = false) :
    Writable source.moveHash false
      (run.settle (source.under config) failures).rollbackBatch.tables := by
  rcases ImportRun.settle_cases (source.under config) failures run with
    ⟨hfails, hcut⟩ | ⟨after, hafter, hcut⟩
  · rw [hcut]
    cases hraw : run.rawMode with
    | true =>
      have hnot := (hworks hraw).1
      rw [hfails] at hnot
      cases hnot
    | false => exact hraw ▸ h.durable
  · rw [hcut]
    exact writable_of_reconciled h.tables (fun hraw => (hworks hraw).2) hafter

private theorem sound_of_opens {stopRequested : Bool} (h : Writable source.moveHash false store.tables)
    (hworks : failures.beginTransaction = true → failures.deduplicate = false)
    {result : ImportStore × Except ErrorCode ImportRun}
    (hopens : Opens (source.under config) failures stopRequested store result) :
    (Session.opened config result).Sound source := by
  have hunique : ∀ checkpoint, store.checkpoint = some checkpoint → source.Owns checkpoint →
      store.tables.identityIndex = true → store.tables.Unique := fun _ _ _ _ => h.unique rfl
  cases hopens with
  | refused => exact h
  | refusedRepaired hrepaired => exact writable_deduplicate h.reachable hrepaired
  | @unbegun startOffset preCommitted tables after e hfails hpoint hafter =>
    obtain ⟨-, hwritable⟩ := writable_startPoint h.reachable hunique hpoint
    rcases hafter with ⟨rfl, hlost⟩ | ⟨hzero, removed, hdeduplicate⟩
    · have hchecked : preCommitted ≠ 0 := by
        intro hzero
        have hnot := hworks hfails
        rw [hlost hzero] at hnot
        cases hnot
      rw [decide_eq_false hchecked] at hwritable
      exact hwritable
    · rw [rawTables, if_pos hzero] at hwritable
      exact writable_deduplicate hwritable.reachable hdeduplicate
  | started hpoint hsought hsaved hrun =>
    obtain ⟨-, hwritable⟩ := writable_startPoint h.reachable hunique hpoint
    subst hrun
    refine ⟨hwritable, ?_⟩
    rw [ImportStore.durable, hsaved]
    exact hwritable

end Sessions

section Runs

variable {ix : Indexes} {moveHash : List UInt16 → UInt64} {library library' : Library ix}

/-- What holds of a bundle at every point of its life, as long as the identity index is guarded. -/
def Library.Sound (moveHash : List UInt16 → UInt64) : Library ix → Prop
  | .resting bundle _ => bundle.Committed (Writable moveHash false)
  | .importing bundle source _ run _ =>
    bundle.inBatch = false ∧ source.moveHash = moveHash ∧ Underway source run

private theorem sound_ofSession {bundle : Bundle ix} {source : ImportSource} {session : Session}
    (hbatch : bundle.inBatch = false) (hsession : session.Sound source) :
    (Library.ofSession bundle source session).Sound source.moveHash := by
  cases session with
  | idle store => exact Bundle.Committed.store hbatch hsession
  | importing config run writerFailed => exact ⟨hbatch, rfl, hsession⟩

private theorem sound_startImport (source : ImportSource) {bundle : Bundle ix}
    {checkpoint : Option ImportCheckpoint} {action : Session.Action}
    (h : bundle.Committed (Writable source.moveHash false))
    (hopened : ∀ session, Session.step source (.idle ⟨bundle.tables, none, checkpoint⟩) action =
      some session → session.Sound source)
    (hstep : Library.startImport bundle checkpoint source action = some library) :
    library.Sound source.moveHash := by
  obtain ⟨-, hstarted⟩ := Option.ite_none_right_eq_some.mp hstep
  obtain ⟨session, hsession, rfl⟩ := Option.map_eq_some_iff.mp hstarted
  exact sound_ofSession h.unbatched (hopened session hsession)

private theorem sound_step {action : Library.Action} (h : library.Sound moveHash)
    (hguarded : library.Guarded action) (hstep : library.step moveHash action = some library') :
    library'.Sound moveHash := by
  cases library with
  | resting bundle checkpoint =>
    have hidle : (⟨bundle.tables, none, checkpoint⟩ : ImportStore).saved = none := rfl
    cases action with
    | call action =>
      obtain ⟨hcall, hcalled⟩ := Option.ite_none_right_eq_some.mp hstep
      obtain ⟨bundle', hbundle, rfl⟩ := Option.map_eq_some_iff.mp hcalled
      refine Bundle.Committed.step h hcall (fun write hwrite t ht => ?_) hbundle
      apply writable_storeWrite h.holds ?_ hwrite ht
      rintro io works id patch rfl
      exact hguarded
    | run source failures stopRequested =>
      refine sound_startImport { source with moveHash } h ?_ hstep
      intro session hsession
      obtain rfl := Option.some.inj hsession
      exact sound_of_opens h.holds hguarded (opens_run hidle)
    | resume source failures stopRequested =>
      refine sound_startImport { source with moveHash } h ?_ hstep
      intro session hsession
      obtain rfl := Option.some.inj hsession
      exact sound_of_opens h.holds hguarded (opens_resume hidle)
    | pipeline => cases hstep
    | finish => cases hstep
    | crash => cases hstep
    | crashAtEnd => cases hstep
  | importing bundle source config run writerFailed =>
    obtain ⟨hbatch, rfl, hunderway⟩ := h
    cases action with
    | pipeline action =>
      obtain ⟨session, hsession, rfl⟩ := Option.map_eq_some_iff.mp hstep
      obtain ⟨run', hrun, rfl⟩ := Option.map_eq_some_iff.mp hsession
      refine ⟨hbatch, rfl, ?_⟩
      by_cases hwrites : ∃ failures, action = .write failures
      · obtain ⟨failures, rfl⟩ := hwrites
        obtain ⟨slot, -, hkeeps, hwritten⟩ := ImportRun.writes_of_write hrun
        exact hunderway.writes hkeeps hwritten
      · obtain ⟨hstore, hcommitted⟩ :=
          ImportRun.store_of_step hrun fun failures heq => hwrites ⟨failures, heq⟩
        have hraw : run'.rawMode = run.rawMode := by
          rw [ImportRun.rawMode, hcommitted, ImportRun.rawMode]
        refine ⟨?_, ?_⟩ <;> rw [hraw, hstore]
        · exact hunderway.tables
        · exact hunderway.durable
    | finish failures =>
      obtain ⟨session, hsession, rfl⟩ := Option.map_eq_some_iff.mp hstep
      obtain ⟨-, hfinished⟩ := Option.ite_none_right_eq_some.mp hsession
      obtain rfl := Option.some.inj hfinished
      apply sound_ofSession hbatch
      exact hunderway.finishes hguarded (ImportRun.finishes_finish _ failures run)
    | crash =>
      obtain rfl := Option.some.inj hstep
      have hdurable : Writable source.moveHash false run.store.durable := by
        have hraw : run.rawMode = false := hguarded
        exact hraw ▸ hunderway.durable
      exact (Bundle.Committed.store hbatch hdurable).crash
    | crashAtEnd failures =>
      obtain ⟨session, hsession, rfl⟩ := Option.map_eq_some_iff.mp hstep
      obtain ⟨-, hsettled⟩ := Option.ite_none_right_eq_some.mp hsession
      obtain rfl := Option.some.inj hsettled
      exact (Bundle.Committed.store hbatch (hunderway.settled hguarded)).crash
    | call => cases hstep
    | run => cases hstep
    | resume => cases hstep

/-- In every run that brings the index back and in which it sees every patch, an open bundle without
an import under way stores no game twice, and has its identity index. -/
theorem identityUnique_of_reaches {name createdAt : String}
    (h : Library.Reaches moveHash Library.Guarded name createdAt library) :
    library.IdentityUnique := by
  have hempty : Writable moveHash false Tables.empty := ⟨.refl, rfl, fun _ => List.nodup_nil⟩
  have hcreated : (Library.created name createdAt : Library ix).Sound moveHash :=
    ⟨hempty, rfl, rfl⟩
  have hsound : library.Sound moveHash := System.Reaches.invariant h hcreated
    fun _ _ _ hsound hguarded hstep => sound_step hsound hguarded hstep
  cases library with
  | resting bundle checkpoint => exact fun _ => ⟨hsound.holds.unique rfl, hsound.holds.index⟩
  | importing => exact trivial

end Runs

section Samples

private def guardedIn {ix : Indexes} : Library ix → Library.Action → Bool
  | .resting bundle _, .call (.patchGameMetadata _ _ id patch) => decide (Detects bundle.tables id patch)
  | .resting _ _, .run _ failures _ => !failures.beginTransaction
  | .resting _ _, .resume _ failures _ => !failures.beginTransaction
  | .importing _ _ _ _ _, .finish failures => !failures.deduplicate
  | .importing _ _ _ run _, .crash => !run.rawMode
  | .importing _ _ _ _ _, .crashAtEnd _ => false
  | _, _ => true

private theorem guarded_of_guardedIn {ix : Indexes} {library : Library ix} {action : Library.Action}
    (h : guardedIn library action = true) : library.Guarded action := by
  cases library with
  | resting bundle checkpoint =>
    cases action with
    | call action =>
      cases action with
      | patchGameMetadata io works id patch =>
        exact of_decide_eq_true (p := Detects bundle.tables id patch) h
      | _ => exact trivial
    | run source failures stopRequested =>
      intro hfails
      rw [guardedIn, hfails] at h
      cases h
    | resume source failures stopRequested =>
      intro hfails
      rw [guardedIn, hfails] at h
      cases h
    | _ => exact trivial
  | importing bundle source config run writerFailed =>
    cases action with
    | finish failures => exact fun _ => Eq.mp (Bool.not_eq_true' _) h
    | crash => exact Eq.mp (Bool.not_eq_true' run.rawMode) h
    | crashAtEnd failures => cases h
    | _ => exact trivial

/-- One game of a source through the pipeline. -/
private def oneRead : List Library.Action :=
  [.pipeline .takeLine, .pipeline .read, .pipeline (.prepare 0), .pipeline (.write {})]

/-- Two games imported into a bundle that has been opened. -/
private def pairImported : List Library.Action :=
  [.call (.prepareCanonicalMutation {}), .run pairSource {} false] ++ oneRead ++ oneRead ++
    [.pipeline .takeLine, .pipeline .read, .finish {}]

private def openWith (test : Tables → Bool) : Library (.withoutTree .ofSums) → Bool
  | .resting bundle _ => bundle.manager.isSome && test bundle.tables
  | .importing _ _ _ _ _ => false

private theorem exists_openWith {allowed : Library (.withoutTree .ofSums) → Library.Action → Bool}
    {actions : List Library.Action} {test : Tables → Bool}
    (h : (System.run (Library.step fun _ => 0) (fun s a => allowed s a = true)
      (.created "sample" "2024-01-01T00:00:00Z") actions).any (openWith test) = true) :
    ∃ bundle checkpoint, Library.Reaches (fun _ => 0) (fun s a => allowed s a = true) "sample"
      "2024-01-01T00:00:00Z" (.resting bundle checkpoint) ∧ bundle.manager.isSome = true ∧
      test bundle.tables = true := by
  obtain ⟨library, hrun, htest⟩ := (Option.any_eq_true _ _).mp h
  cases library with
  | resting bundle checkpoint =>
    obtain ⟨hopen, htables⟩ := Bool.and_eq_true_iff.mp htest
    exact ⟨bundle, checkpoint, System.reaches_of_run hrun, hopen, htables⟩
  | importing => cases htest

/-- An entered game, a patch of it, an import, and the bundle opened again. -/
theorem identityUnique_of_reaches_sample : ∃ bundle : Bundle (.withoutTree .ofSums),
    bundle.manager.isSome = true ∧ bundle.tables.games.length = 3 ∧ bundle.tables.Unique ∧
      bundle.tables.identityIndex = true := by
  obtain ⟨bundle, checkpoint, hreaches, hopen, hgames⟩ := @exists_openWith guardedIn
    ([.call (.open {}), .call (.insertGame {} true Bundle.enteredGame),
      .call (.patchGameMetadata {} true 1 { result := some "0-1" })] ++ pairImported ++
      [.call (.close {}), .call (.open {})])
    (fun t => decide (t.games.length = 3)) (by decide +kernel)
  have hguarded : Library.Reaches (fun _ => 0) Library.Guarded "sample" "2024-01-01T00:00:00Z"
      (.resting bundle checkpoint) := hreaches.mono fun _ _ => guarded_of_guardedIn
  obtain ⟨hunique, hindex⟩ := identityUnique_of_reaches hguarded hopen
  exact ⟨bundle, hopen, of_decide_eq_true hgames, hunique, hindex⟩

/-- The process crashes in the second import of a file: the bundle opens again with a game twice, and
without the index. -/
theorem not_identityUnique : ∃ library : Library (.withoutTree .ofSums),
    Library.Reaches (fun _ => 0) (fun _ _ => True) "sample" "2024-01-01T00:00:00Z" library ∧
      ¬library.IdentityUnique := by
  obtain ⟨bundle, checkpoint, hreaches, hopen, hlost⟩ := @exists_openWith (fun _ _ => true)
    ([.call (.open {})] ++ pairImported ++ [.run pairSource {} false] ++ oneRead ++
      [.crash, .call (.open {})])
    (fun t => !t.identityIndex && decide ¬t.Unique) (by decide +kernel)
  refine ⟨_, hreaches.mono fun _ _ _ => trivial, fun hkept => ?_⟩
  rw [(hkept hopen).2] at hlost
  cases hlost

end Samples

end MotifChess.Import
