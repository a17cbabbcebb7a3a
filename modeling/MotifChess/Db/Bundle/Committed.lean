/- GID: MotifChess/Db/Bundle/Committed
   generality: implementation
   digest: What a step does to the stored tables: nothing, one write, or the way back to a commit. -/

import MotifChess.Db.Bundle.Invalidate
import MotifChess.Db.Bundle.Runs

set_option autoImplicit false
set_option relaxedAutoImplicit false

namespace MotifChess.Db.Bundle

variable {ix : Indexes} {b b' b'' : Bundle ix} {P : Tables → Prop}

section Calls

/-- The calls of a manager, and those that begin and end its life; a power failure is none of them,
nor is a step of the bulk writer. -/
def Action.isCall : Action → Bool
  | .powerFailure _ _ _ | .beginBatch | .write _ | .commitBatch | .rollbackBatch | .repair => false
  | _ => true

/-- The write that a call makes when nothing fails. -/
def Action.storeWrite : Action → Option StoreWrite
  | .insertGame _ _ game => some (.insert game)
  | .patchGameMetadata _ _ id patch => some (.patchMetadata id patch)
  | .removeGame _ _ id | .removeUserGame _ _ id => some (.remove id)
  | .setManualGameProvenance _ id label status => some (.setManualProvenance id label status)
  | _ => none

/-- The write that a step makes when nothing fails, of a call or of the bulk writer. -/
def Action.tableWrite : Action → Option StoreWrite
  | .write made => some made
  | .repair => some .deduplicate
  | action => action.storeWrite

end Calls

section Stores

/-- The stored tables, the committed ones and the batch are as they were. -/
structure SameStore (b b' : Bundle ix) : Prop where
  tables : b'.tables = b.tables
  commits : b'.commits = b.commits
  inBatch : b'.inBatch = b.inBatch

namespace SameStore

theorem refl (b : Bundle ix) : SameStore b b := ⟨rfl, rfl, rfl⟩

theorem trans (h : SameStore b b') (h' : SameStore b' b'') : SameStore b b'' :=
  ⟨h'.tables.trans h.tables, h'.commits.trans h.commits, h'.inBatch.trans h.inBatch⟩

theorem crash (h : SameStore b b') : SameStore b.crash b'.crash where
  tables := by
    unfold Bundle.crash
    dsimp only
    rw [h.commits, h.tables]
  commits := h.commits
  inBatch := rfl

theorem store (h : SameStore b b') (t : Tables) : SameStore (b.store t) (b'.store t) where
  tables := rfl
  commits := by
    unfold Bundle.store
    dsimp only
    rw [h.commits, h.inBatch]
  inBatch := h.inBatch

end SameStore

/-- What a step leaves of the stored tables. -/
inductive Leaves (moveHash : List UInt16 → UInt64) (b : Bundle ix) (a : Action) (b' : Bundle ix) : Prop
  | same (h : SameStore b b')
  | ended (h : SameStore b.crash b')
  | stored (t : Tables) (h : SameStore (b.store t) b') (hwritten : t = b.tables ∨
      ∃ write, a.tableWrite = some write ∧ write.step moveHash b.tables = some t)
  | begun (ha : a = .beginBatch) (h : SameStore { b with inBatch := true } b')
  | committed (ha : a = .commitBatch)
      (h : SameStore { b with commits := b.tables :: b.commits, inBatch := false } b')
  | cut (ha : a.isCall = false) (hmem : b'.tables ∈ b.commits) (hsub : b'.commits ⊆ b.commits)

private theorem close_leaves (io : ManifestIO) (b : Bundle ix) :
    SameStore b (b.close io) ∨ SameStore b.crash (b.close io) := by
  unfold Bundle.close
  cases b.manager with
  | none => exact .inl (.refl b)
  | some m => exact .inr ⟨rfl, rfl, rfl⟩

private theorem sameStore_prepareCanonicalMutation (io : StaleIO) (b : Bundle ix) :
    SameStore b (b.prepareCanonicalMutation io).1 := by
  rcases prepareCanonicalMutation_cases io b with ⟨hsame, -⟩ | ⟨m, -, hstale⟩
  · rw [hsame]
    exact .refl b
  · exact ⟨hstale.tables, hstale.commits, hstale.inBatch⟩

private theorem change_leaves {α : Type} (works : Bool) (write : Tables → Tables × Result α)
    (b : Bundle ix) : SameStore b (b.change works write).1 ∨
      SameStore (b.store (write b.tables).1) (b.change works write).1 := by
  cases works with
  | false => exact .inl (.refl b)
  | true => exact .inr (.refl _)

private theorem mutate_leaves {α : Type} (io : StaleIO) (works : Bool)
    (write : Tables → Tables × Result α) (b : Bundle ix) : SameStore b (b.mutate io works write).1 ∨
      SameStore (b.store (write b.tables).1) (b.mutate io works write).1 := by
  have hprepared := sameStore_prepareCanonicalMutation io b
  unfold Bundle.mutate
  cases hprepare : b.prepareCanonicalMutation io with
  | mk prepared outcome =>
    rw [hprepare] at hprepared
    cases outcome with
    | error e => exact .inl hprepared
    | ok _ =>
      dsimp only at hprepared ⊢
      have hchange := change_leaves works write prepared
      rw [hprepared.tables] at hchange
      exact hchange.imp hprepared.trans (hprepared.store _).trans

private theorem orUnchanged_cases (write : Tables → Result Tables) (t : Tables) :
    (orUnchanged write t).1 = t ∨ write t = .ok (orUnchanged write t).1 := by
  unfold Bundle.orUnchanged
  cases write t with
  | error e => exact .inl rfl
  | ok u => exact .inr rfl

private theorem sameStore_rebuildIndex {ρ : Type} (kind : IndexKind) (io : RebuildIO)
    (built : Result (List UInt8)) (openIndex : List UInt8 → Result ρ)
    (install : Installed ρ → Manager ix → Manager ix) (m : Manager ix) (b : Bundle ix) :
    SameStore b (b.rebuildIndex kind io built openIndex install m).1 := by
  unfold Bundle.rebuildIndex
  split
  · exact ⟨rfl, rfl, rfl⟩
  · dsimp only
    split <;> exact ⟨rfl, rfl, rfl⟩

theorem sameStore_rebuildPositionPostings (io : RebuildIO) (b : Bundle ix) :
    SameStore b (b.rebuildPositionPostings io).1 := by
  unfold Bundle.rebuildPositionPostings
  split
  · exact .refl b
  · exact sameStore_rebuildIndex _ _ _ _ _ _ b

private theorem sameStore_rebuildOpeningTreeIndex (io : RebuildIO) (b : Bundle ix) :
    SameStore b (b.rebuildOpeningTreeIndex io).1 := by
  unfold Bundle.rebuildOpeningTreeIndex
  split
  · exact .refl b
  · split
    · exact .refl b
    · exact sameStore_rebuildIndex _ _ _ _ _ _ b

private theorem markInUse_leaves (io : OpenIO) (m : Manager ix) (b : Bundle ix) :
    SameStore b (b.markInUse io m).1 ∨ SameStore b.crash (b.markInUse io m).1 := by
  unfold Bundle.markInUse
  dsimp only
  split_ifs
  · exact .inl ⟨rfl, rfl, rfl⟩
  · exact (close_leaves io.closes _).imp (fun h => ⟨h.tables, h.commits, h.inBatch⟩)
      fun h => ⟨h.tables, h.commits, h.inBatch⟩

private theorem open_leaves (io : OpenIO) (b : Bundle ix) :
    SameStore b (b.open io).1 ∨ SameStore b.crash (b.open io).1 := by
  have hloaded : SameStore b { b with manager := some (b.loadManager io) } := ⟨rfl, rfl, rfl⟩
  have hrebuilt := hloaded.trans (sameStore_rebuildPositionPostings io.rebuild _)
  unfold Bundle.open
  dsimp only
  split_ifs
  · exact .inl (.refl b)
  · exact (markInUse_leaves io _ _).imp hloaded.trans hloaded.crash.trans
  · split
    next hfailed =>
      rw [hfailed] at hrebuilt
      exact (close_leaves io.closes _).imp hrebuilt.trans hrebuilt.crash.trans
    next hok =>
      rw [hok] at hrebuilt
      split
      · exact .inl hrebuilt
      · exact (markInUse_leaves io _ _).imp hrebuilt.trans hrebuilt.crash.trans

variable {moveHash : List UInt16 → UInt64} {a : Action}

private theorem Leaves.of_kept (h : SameStore b b' ∨ SameStore b.crash b') : Leaves moveHash b a b' := by
  rcases h with hsame | hended
  · exact .same hsame
  · exact .ended hended

private theorem Leaves.of_written {write : StoreWrite} (ha : a.tableWrite = some write) {t : Tables}
    (hwritten : t = b.tables ∨ write.step moveHash b.tables = some t)
    (h : SameStore b b' ∨ SameStore (b.store t) b') : Leaves moveHash b a b' := by
  rcases h with hsame | hstored
  · exact .same hsame
  · exact .stored t hstored (hwritten.imp_right fun hstep => ⟨write, ha, hstep⟩)

private theorem leaves_of_step (hstep : b.step moveHash a = some b') : Leaves moveHash b a b' := by
  have hunchanged : ∀ {write : StoreWrite} {change : Tables → Result Tables},
      (∀ u, change b.tables = .ok u → write.step moveHash b.tables = some u) →
      (orUnchanged change b.tables).1 = b.tables ∨
        write.step moveHash b.tables = some (orUnchanged change b.tables).1 := fun hwrite =>
    (orUnchanged_cases _ _).imp_right (hwrite _)
  have hremoved := fun id => @hunchanged (.remove id) (fun t => t.remove id) fun u hu => by
    rw [StoreWrite.step, hu]
    rfl
  cases a with
  | «open» io =>
    obtain ⟨-, hdone⟩ := Option.ite_none_right_eq_some.mp hstep
    obtain rfl := Option.some.inj hdone
    exact .of_kept (open_leaves io b)
  | close io =>
    obtain rfl := Option.some.inj hstep
    exact .of_kept (close_leaves io b)
  | crash =>
    obtain rfl := Option.some.inj hstep
    exact .ended (.refl _)
  | powerFailure manifest commit lost =>
    simp only [step, Bundle.powerFailure] at hstep
    split at hstep
    next m t older _ hcommits =>
      obtain rfl := Option.some.inj hstep
      have hsub : t :: older ⊆ b.commits := hcommits ▸ List.drop_subset commit b.commits
      exact .cut rfl (hsub List.mem_cons_self) hsub
    next => cases hstep
  | insertGame io works game =>
    obtain ⟨-, hdone⟩ := Option.ite_none_left_eq_some.mp hstep
    obtain rfl := Option.some.inj hdone
    refine .of_written rfl ?_ (mutate_leaves io works _ b)
    unfold Tables.alone
    split
    next t id hinsert => exact .inr (congrArg (fun result => some (Prod.fst result)) hinsert)
    next => exact .inl rfl
  | patchGameMetadata io works id patch =>
    obtain ⟨-, hdone⟩ := Option.ite_none_left_eq_some.mp hstep
    obtain rfl := Option.some.inj hdone
    have hpatched := @hunchanged (.patchMetadata id patch)
      (fun t => t.patchMetadata moveHash id patch) fun u hu => by rw [StoreWrite.step, hu]; rfl
    rcases patchGameMetadata_cases moveHash io works id patch b with
      ⟨e, heq⟩ | ⟨-, heq⟩ | ⟨-, heq⟩ <;> rw [heq]
    · exact .same (.refl b)
    · exact .of_written rfl hpatched (mutate_leaves io works _ b)
    · exact .of_written rfl hpatched (change_leaves works _ b)
  | removeGame io works id =>
    obtain ⟨-, hdone⟩ := Option.ite_none_left_eq_some.mp hstep
    obtain rfl := Option.some.inj hdone
    exact .of_written rfl (hremoved id) (mutate_leaves io works _ b)
  | removeUserGame io works id =>
    obtain ⟨-, hdone⟩ := Option.ite_none_left_eq_some.mp hstep
    obtain rfl := Option.some.inj hdone
    rcases removeUserGame_cases io works id b with ⟨e, heq⟩ | ⟨-, heq⟩ <;> rw [heq]
    · exact .same (.refl b)
    · exact .of_written rfl (hremoved id) (mutate_leaves io works _ b)
  | setManualGameProvenance works id label status =>
    obtain ⟨-, hdone⟩ := Option.ite_none_left_eq_some.mp hstep
    obtain rfl := Option.some.inj hdone
    unfold Bundle.setManualGameProvenance
    split_ifs
    · exact .same (.refl b)
    · have hlabelled := @hunchanged (.setManualProvenance id label status)
        (fun t => t.setManualProvenance id label status) fun u hu => by rw [StoreWrite.step, hu]; rfl
      exact .of_written rfl hlabelled (change_leaves works _ b)
  | rebuildPositionPostings io =>
    obtain ⟨-, hdone⟩ := Option.ite_none_left_eq_some.mp hstep
    obtain rfl := Option.some.inj hdone
    exact .same (sameStore_rebuildPositionPostings io b)
  | rebuildOpeningTreeIndex io =>
    obtain ⟨-, hdone⟩ := Option.ite_none_left_eq_some.mp hstep
    obtain rfl := Option.some.inj hdone
    exact .same (sameStore_rebuildOpeningTreeIndex io b)
  | prepareCanonicalMutation io =>
    obtain ⟨-, hdone⟩ := Option.ite_none_left_eq_some.mp hstep
    obtain rfl := Option.some.inj hdone
    exact .same (sameStore_prepareCanonicalMutation io b)
  | beginBatch =>
    obtain ⟨-, hdone⟩ := Option.ite_none_left_eq_some.mp hstep
    obtain rfl := Option.some.inj hdone
    exact .begun rfl (.refl _)
  | write write =>
    obtain ⟨-, hdone⟩ := Option.ite_none_right_eq_some.mp hstep
    obtain ⟨t, ht, rfl⟩ := Option.map_eq_some_iff.mp hdone
    exact .stored t (.refl _) (.inr ⟨write, rfl, ht⟩)
  | commitBatch =>
    obtain ⟨-, hdone⟩ := Option.ite_none_right_eq_some.mp hstep
    obtain rfl := Option.some.inj hdone
    exact .committed rfl (.refl _)
  | rollbackBatch =>
    obtain ⟨-, hdone⟩ := Option.ite_none_right_eq_some.mp hstep
    obtain rfl := Option.some.inj hdone
    exact .ended ⟨rfl, rfl, rfl⟩
  | repair =>
    obtain ⟨-, hdone⟩ := Option.ite_none_left_eq_some.mp hstep
    obtain ⟨⟨t, removed⟩, ht, rfl⟩ := Option.map_eq_some_iff.mp hdone
    refine .stored t (.refl _) (.inr ⟨.deduplicate, rfl, ?_⟩)
    rw [StoreWrite.step, ht]
    rfl

end Stores

/-- The connection sees tables with a property, and they are committed. -/
structure Committed (P : Tables → Prop) (b : Bundle ix) : Prop where
  holds : P b.tables
  latest : b.commits.headD b.tables = b.tables
  unbatched : b.inBatch = false

namespace Committed

theorem of_same (h : Committed P b) (hsame : SameStore b b') : Committed P b' where
  holds := hsame.tables ▸ h.holds
  latest := by
    rw [hsame.tables, hsame.commits]
    exact h.latest
  unbatched := hsame.inBatch.trans h.unbatched

theorem store {t : Tables} (h : b.inBatch = false) (ht : P t) : Committed P (b.store t) where
  holds := ht
  latest := by
    simp only [Bundle.store, h]
    rfl
  unbatched := h

theorem crash (h : Committed P b) : Committed P b.crash :=
  h.of_same ⟨h.latest, rfl, h.unbatched.symm⟩

variable {moveHash : List UInt16 → UInt64}

/-- A call leaves committed tables, with every property that its write keeps. -/
theorem step {a : Action} (h : Committed P b) (hcall : a.isCall = true)
    (hwrite : ∀ write, a.storeWrite = some write →
      ∀ t, write.step moveHash b.tables = some t → P t)
    (hstep : b.step moveHash a = some b') : Committed P b' := by
  have hwrites : a.tableWrite = a.storeWrite := by
    cases a with
    | write => cases hcall
    | repair => cases hcall
    | _ => rfl
  cases leaves_of_step hstep with
  | same hsame => exact h.of_same hsame
  | ended hended => exact h.crash.of_same hended
  | stored t hstored hwritten =>
    refine (store h.unbatched ?_).of_same hstored
    rcases hwritten with rfl | ⟨write, hmade, ht⟩
    · exact h.holds
    · exact hwrite write (hwrites.symm.trans hmade) t ht
  | begun ha =>
    rw [ha] at hcall
    cases hcall
  | committed ha =>
    rw [ha] at hcall
    cases hcall
  | cut ha =>
    rw [ha] at hcall
    cases hcall

end Committed

section Histories

/-- The tables of the connection and all committed ones have a property. -/
def Throughout (P : Tables → Prop) (b : Bundle ix) : Prop := P b.tables ∧ ∀ t ∈ b.commits, P t

namespace Throughout

theorem of_same (h : Throughout P b) (hsame : SameStore b b') : Throughout P b' := by
  refine ⟨hsame.tables ▸ h.1, fun t ht => h.2 t ?_⟩
  rwa [hsame.commits] at ht

theorem store (h : Throughout P b) {t : Tables} (ht : P t) : Throughout P (b.store t) := by
  refine ⟨ht, fun u hu => ?_⟩
  change u ∈ if b.inBatch then b.commits else t :: b.commits at hu
  split_ifs at hu
  · exact h.2 u hu
  · rcases List.mem_cons.mp hu with rfl | hold
    · exact ht
    · exact h.2 u hold

theorem crash (h : Throughout P b) : Throughout P b.crash := by
  refine ⟨?_, h.2⟩
  show P (b.commits.headD b.tables)
  cases hcommits : b.commits with
  | nil => exact h.1
  | cons t older => exact h.2 t (hcommits ▸ List.mem_cons_self)

variable {moveHash : List UInt16 → UInt64}

/-- A property of all stored tables outlives every step whose write keeps it, also a power failure. -/
theorem step {a : Action} (h : Throughout P b)
    (hwrite : ∀ write, a.tableWrite = some write → ∀ t, write.step moveHash b.tables = some t → P t)
    (hstep : b.step moveHash a = some b') : Throughout P b' := by
  cases leaves_of_step hstep with
  | same hsame => exact h.of_same hsame
  | ended hended => exact h.crash.of_same hended
  | stored t hstored hwritten =>
    refine (h.store ?_).of_same hstored
    rcases hwritten with rfl | ⟨write, hmade, ht⟩
    · exact h.1
    · exact hwrite write hmade t ht
  | begun _ hbegun => exact Throughout.of_same (b := { b with inBatch := true }) h hbegun
  | committed _ hcommitted =>
    have hlatest : Throughout P { b with commits := b.tables :: b.commits, inBatch := false } := by
      refine ⟨h.1, fun t ht => ?_⟩
      rcases List.mem_cons.mp ht with rfl | hold
      · exact h.1
      · exact h.2 t hold
    exact hlatest.of_same hcommitted
  | cut _ hmem hsub => exact ⟨h.2 _ hmem, fun t ht => h.2 t (hsub ht)⟩

end Throughout

end Histories

end MotifChess.Db.Bundle
