/- GID: MotifChess/Db/Bundle/Naming
   generality: implementation
   digest: In every run, the artifacts that manifests name are older than the next build number. -/

import MotifChess.Db.Bundle.Invalidate
import MotifChess.Db.Bundle.Rebuild
import MotifChess.Db.Bundle.Runs

set_option autoImplicit false
set_option relaxedAutoImplicit false

namespace MotifChess.Db

/-- Every artifact that a manifest names was built before its build number. -/
def DbManifest.Named (m : DbManifest) : Prop := ∀ kind e, m.entry kind = some e →
  ∃ seq < m.derivedIndexBuildSeq, e.filename = .artifact kind seq

theorem DbManifest.Named.ne_artifact {m : DbManifest} (h : m.Named) {kind other : IndexKind}
    {e : DerivedIndexManifestEntry} (he : m.entry other = some e) {seq : ℕ}
    (hseq : m.derivedIndexBuildSeq ≤ seq) : e.filename ≠ .artifact kind seq := by
  obtain ⟨old, hlt, hname⟩ := h other e he
  rw [hname]
  rintro ⟨⟩
  omega

theorem DbManifest.Named.ne_building {m : DbManifest} (h : m.Named) {kind other : IndexKind}
    {e : DerivedIndexManifestEntry} (he : m.entry other = some e) (seq : ℕ) :
    e.filename ≠ .building kind seq := by
  obtain ⟨old, -, hname⟩ := h other e he
  rw [hname]
  simp

/-- Two manifests that say the same about the indexes. -/
structure DbManifest.SameIndexes (d d' : DbManifest) : Prop where
  buildSeq : d.derivedIndexBuildSeq = d'.derivedIndexBuildSeq
  generation : d.sourceGeneration = d'.sourceGeneration
  entries : ∀ kind, d.entry kind = d'.entry kind

namespace DbManifest.SameIndexes

variable {d d' d'' : DbManifest}

theorem refl : d.SameIndexes d := ⟨rfl, rfl, fun _ => rfl⟩

theorem trans (h : d.SameIndexes d') (h' : d'.SameIndexes d'') : d.SameIndexes d'' :=
  ⟨h.buildSeq.trans h'.buildSeq, h.generation.trans h'.generation,
    fun kind => (h.entries kind).trans (h'.entries kind)⟩

theorem named (h : d.SameIndexes d') (hd : d'.Named) : d.Named := by
  intro kind e he
  rw [h.entries kind] at he
  rw [h.buildSeq]
  exact hd kind e he

end DbManifest.SameIndexes

namespace Bundle

variable {ix : Indexes} {moveHash : List UInt16 → UInt64}

/-- The manifest in memory and the one on disk say the same about the indexes, and the installed
readers read the files that they name. -/
structure Agrees (m : Manager ix) (disk : Disk) : Prop where
  manifest : m.manifest.SameIndexes disk.manifest
  postings : ∀ i, m.positionPostings = some i →
    ∃ e, m.manifest.positionPostings = some e ∧ i.file = e.filename
  tree : ∀ i, m.openingTreeIndex = some i →
    ∃ e, m.manifest.openingTreeIndex = some e ∧ i.file = e.filename

/-- Every manifest that may come back names older artifacts only, and the one on disk has the latest
build number. -/
structure WellNamed (b : Bundle ix) : Prop where
  named : ∀ d ∈ b.disk.manifests, d.Named
  newest : ∀ d ∈ b.disk.manifests, d.derivedIndexBuildSeq ≤ b.disk.manifest.derivedIndexBuildSeq
  memory : ∀ m, b.manager = some m → Agrees m b.disk

theorem WellNamed.memoryNamed {b : Bundle ix} {m : Manager ix} (h : WellNamed b)
    (hm : b.manager = some m) : m.manifest.Named :=
  (h.memory m hm).manifest.named (h.named _ List.mem_cons_self)

section Preservation

variable {b b' : Bundle ix} {m : Manager ix}

theorem WellNamed.of_eq (h : WellNamed b) (hmanifests : b'.disk.manifests = b.disk.manifests)
    (hmanager : b'.manager = b.manager) : WellNamed b' := by
  have hmanifest : b'.disk.manifest = b.disk.manifest := (List.cons.inj hmanifests).1
  refine ⟨by rw [hmanifests]; exact h.named, by rw [hmanifests, hmanifest]; exact h.newest, ?_⟩
  intro m hm
  rw [hmanager] at hm
  obtain ⟨hsame, hpostings, htree⟩ := h.memory m hm
  exact ⟨hmanifest ▸ hsame, hpostings, htree⟩

private theorem WellNamed.of_manifest (h : WellNamed b) (hnamed : b'.disk.manifest.Named)
    (hnewest : b.disk.manifest.derivedIndexBuildSeq ≤ b'.disk.manifest.derivedIndexBuildSeq)
    (hmanifests : ∀ d ∈ b'.disk.manifests, d = b'.disk.manifest ∨ d ∈ b.disk.manifests)
    (hmemory : ∀ m, b'.manager = some m → Agrees m b'.disk) : WellNamed b' := by
  refine ⟨fun d hd => ?_, fun d hd => ?_, hmemory⟩
  · rcases hmanifests d hd with rfl | hold
    · exact hnamed
    · exact h.named d hold
  · rcases hmanifests d hd with rfl | hold
    · exact le_rfl
    · exact (h.newest d hold).trans hnewest

theorem WellNamed.writeManifest (h : WellNamed b) {d : DbManifest}
    (hd : d.SameIndexes b.disk.manifest) (io : ManifestIO)
    (hdisk : b'.disk = (b.disk.writeManifest io d).1)
    (hmemory : ∀ m, b'.manager = some m → Agrees m b'.disk) : WellNamed b' := by
  have hmanifest : b'.disk.manifest.SameIndexes b.disk.manifest := by
    rw [hdisk]
    by_cases hnot : io.outcome = .notPublished
    · rw [Disk.writeManifest_notPublished hnot]
      exact .refl
    · rw [Disk.writeManifest_manifest hnot]
      exact hd
  refine h.of_manifest (hmanifest.named (h.named _ List.mem_cons_self)) hmanifest.buildSeq.ge
    (fun d' hd' => ?_) hmemory
  rw [hdisk] at hd' ⊢
  by_cases hnot : io.outcome = .notPublished
  · rw [Disk.writeManifest_notPublished hnot] at hd'
    exact .inr hd'
  · rw [Disk.writeManifest_manifest hnot]
    exact Disk.mem_manifests_writeManifest hd'

theorem WellNamed.change (h : WellNamed b) {α : Type} (works : Bool)
    (write : Tables → Tables × Result α) : WellNamed (b.change works write).1 := by
  unfold Bundle.change
  split_ifs
  · exact h
  · exact h.of_eq rfl rfl

theorem WellNamed.invalidated (h : WellNamed b) (hm : b.manager = some m)
    (hstale : Invalidated m b b') : WellNamed b' := by
  refine h.of_manifest ?_ ?_ ?_ fun m' hm' => ?_
  · rw [hstale.manifest]
    intro kind e he
    rw [entry_staleManifest] at he
    cases he
  · rw [hstale.manifest]
    exact (h.memory m hm).manifest.buildSeq.ge
  · rw [hstale.manifest]
    exact hstale.manifests
  · obtain rfl := Option.some.inj (hstale.manager.symm.trans hm')
    refine ⟨?_, ?_, ?_⟩
    · rw [hstale.manifest]
      exact .refl
    · rintro i ⟨⟩
    · rintro i ⟨⟩

theorem WellNamed.prepareCanonicalMutation (h : WellNamed b) (io : StaleIO) :
    WellNamed (b.prepareCanonicalMutation io).1 := by
  rcases prepareCanonicalMutation_cases io b with ⟨heq, -⟩ | ⟨m, hm, hstale⟩
  · rw [heq]
    exact h
  · exact h.invalidated hm hstale

theorem WellNamed.mutate (h : WellNamed b) {α : Type} (io : StaleIO) (works : Bool)
    (write : Tables → Tables × Result α) : WellNamed (b.mutate io works write).1 := by
  have hprepared := h.prepareCanonicalMutation io
  unfold Bundle.mutate
  cases hprepare : b.prepareCanonicalMutation io with
  | mk b' r =>
    rw [hprepare] at hprepared
    cases r with
    | error e => exact hprepared
    | ok _ => exact hprepared.change works write

theorem WellNamed.patchGameMetadata (h : WellNamed b) (io : StaleIO) (works : Bool) (id : ℕ)
    (patch : GamePatch) : WellNamed (b.patchGameMetadata moveHash io works id patch).1 := by
  rcases patchGameMetadata_cases moveHash io works id patch b with
    ⟨e, heq⟩ | ⟨-, heq⟩ | ⟨-, heq⟩ <;> rw [heq]
  · exact h
  · exact h.mutate _ _ _
  · exact h.change _ _

theorem WellNamed.removeUserGame (h : WellNamed b) (io : StaleIO) (works : Bool) (id : ℕ) :
    WellNamed (b.removeUserGame io works id).1 := by
  rcases removeUserGame_cases io works id b with ⟨e, heq⟩ | ⟨-, heq⟩ <;> rw [heq]
  · exact h
  · exact h.mutate _ _ _

theorem WellNamed.setManualGameProvenance (h : WellNamed b) (works : Bool) (id : ℕ)
    (label : Option String) (status : String) :
    WellNamed (b.setManualGameProvenance works id label status).1 := by
  unfold Bundle.setManualGameProvenance
  split_ifs
  · exact h
  · exact h.change _ _

theorem WellNamed.abandoned (h : WellNamed b) {kind : IndexKind} {seq : ℕ}
    (hstop : Abandoned kind seq b b') : WellNamed b' := by
  refine h.of_eq ?_ hstop.manager
  rw [Disk.manifests, hstop.manifest, hstop.undurable]
  rfl

private theorem named_publishedManifest (hm : m.manifest.Named) (kind : IndexKind) (bytes : List UInt8) :
    (b.publishedManifest kind bytes m).Named := by
  intro other e he
  rw [publishedManifest] at he ⊢
  rw [DbManifest.setEntry_derivedIndexBuildSeq]
  by_cases hother : other = kind
  · subst hother
    rw [DbManifest.entry_setEntry_self] at he
    obtain rfl := Option.some.inj he
    exact ⟨m.manifest.derivedIndexBuildSeq, Nat.lt_succ_self _, rfl⟩
  · rw [DbManifest.entry_setEntry_of_ne hother] at he
    obtain ⟨seq, hlt, hname⟩ := hm other e he
    exact ⟨seq, Nat.lt_succ_of_lt hlt, hname⟩

theorem WellNamed.published (h : WellNamed b) (hm : b.manager = some m) {kind : IndexKind}
    {io : RebuildIO} {bytes : List UInt8} {installed : Manager ix}
    (hpublished : Published kind io bytes installed m b b')
    (hmanifest : installed.manifest = b.publishedManifest kind bytes m)
    (hpostings : ∀ i, installed.positionPostings = some i →
      ∃ e, installed.manifest.positionPostings = some e ∧ i.file = e.filename)
    (htree : ∀ i, installed.openingTreeIndex = some i →
      ∃ e, installed.manifest.openingTreeIndex = some e ∧ i.file = e.filename) : WellNamed b' := by
  refine h.of_manifest ?_ ?_ ?_ fun m' hm' => ?_
  · rw [hpublished.manifest]
    exact named_publishedManifest (h.memoryNamed hm) kind bytes
  · rw [hpublished.manifest, publishedManifest, DbManifest.setEntry_derivedIndexBuildSeq,
      ← (h.memory m hm).manifest.buildSeq]
    exact Nat.le_succ _
  · rw [hpublished.manifest]
    exact hpublished.manifests
  · obtain rfl := Option.some.inj (hpublished.manager.symm.trans hm')
    refine ⟨?_, hpostings, htree⟩
    rw [hmanifest, hpublished.manifest]
    exact .refl

theorem WellNamed.rebuildPositionPostings (h : WellNamed b) (io : RebuildIO) :
    WellNamed (b.rebuildPositionPostings io).1 := by
  unfold Bundle.rebuildPositionPostings
  cases hm : b.manager with
  | none => exact h
  | some m =>
    by_cases hfails : RebuildFails io (ix.buildPostings b.tables.replayGames) ix.openPostings
    · exact h.abandoned (rebuildIndex_of_fails hfails).2
    · obtain ⟨bytes, reader, -, -, hpublished, -⟩ := rebuildIndex_of_not_fails hfails
      refine h.published hm hpublished rfl ?_ ?_
      · rintro i ⟨⟩
        exact ⟨_, rfl, rfl⟩
      · exact (h.memory m hm).tree

theorem WellNamed.rebuildOpeningTreeIndex (h : WellNamed b) (io : RebuildIO) :
    WellNamed (b.rebuildOpeningTreeIndex io).1 := by
  unfold Bundle.rebuildOpeningTreeIndex
  cases hm : b.manager with
  | none => exact h
  | some m =>
    dsimp only
    cases m.validPostings b.tables with
    | none => exact h
    | some i =>
      by_cases hfails : RebuildFails io (b.treeBytes i) ix.openTree
      · exact h.abandoned (rebuildIndex_of_fails hfails).2
      · obtain ⟨bytes, reader, -, -, hpublished, -⟩ := rebuildIndex_of_not_fails hfails
        refine h.published hm hpublished rfl ?_ ?_
        · exact (h.memory m hm).postings
        · rintro i ⟨⟩
          exact ⟨_, rfl, rfl⟩

theorem WellNamed.close (h : WellNamed b) (io : ManifestIO) : WellNamed (b.close io) := by
  unfold Bundle.close
  cases hm : b.manager with
  | none => exact h
  | some m =>
    have hsame := (h.memory m hm).manifest
    let refreshed : DbManifest := { m.manifest with
      gameCount := b.tables.countGames
      positionIndexDirty :=
        if m.postingsCoverCanonicalGames b.tables then false else m.manifest.positionIndexDirty }
    have hrefreshed : refreshed.SameIndexes b.disk.manifest := by
      refine ⟨hsame.buildSeq, hsame.generation, fun kind => ?_⟩
      rw [← hsame.entries kind]
      cases kind <;> rfl
    refine h.writeManifest hrefreshed io rfl ?_
    rintro m' ⟨⟩

theorem WellNamed.marked (h : WellNamed b) (hm : b.manager = some m) (io : ManifestIO) :
    WellNamed { b with
      disk := (b.disk.writeManifest io { m.manifest with positionIndexDirty := true }).1
      manager := some { m with manifest := { m.manifest with positionIndexDirty := true } } } := by
  obtain ⟨hsame, hpostings, htree⟩ := h.memory m hm
  let marked : DbManifest := { m.manifest with positionIndexDirty := true }
  have hmarked : marked.SameIndexes b.disk.manifest := by
    refine ⟨hsame.buildSeq, hsame.generation, fun kind => ?_⟩
    rw [← hsame.entries kind]
    cases kind <;> rfl
  refine h.writeManifest hmarked io rfl ?_
  rintro m' ⟨⟩
  refine ⟨?_, hpostings, htree⟩
  by_cases hnot : io.outcome = .notPublished
  · rw [Disk.writeManifest_notPublished hnot]
    exact hmarked
  · rw [Disk.writeManifest_manifest hnot]
    exact .refl

theorem WellNamed.markInUse (h : WellNamed b) (hm : b.manager = some m) (io : OpenIO) :
    WellNamed (b.markInUse io m).1 := by
  have hopened := h.marked hm io.marksInUse
  unfold Bundle.markInUse
  dsimp only
  split_ifs
  · exact hopened
  · exact hopened.close _

private theorem loadIndex_file {reads : Bool} {ρ : Type} {openIndex : List UInt8 → Result ρ} {disk : Disk}
    {entry : Option DerivedIndexManifestEntry} {i : Installed ρ}
    (h : loadIndex reads openIndex disk entry = some i) :
    ∃ e, entry = some e ∧ i.file = e.filename := by
  obtain ⟨e, rfl, h⟩ := Option.bind_eq_some_iff.mp h
  obtain ⟨bytes, -, h⟩ := Option.bind_eq_some_iff.mp h
  split_ifs at h
  obtain ⟨reader, -, rfl⟩ := Option.map_eq_some_iff.mp h
  exact ⟨e, rfl, rfl⟩

theorem WellNamed.load (h : WellNamed b) (io : OpenIO) :
    WellNamed { b with manager := some (b.loadManager io) } := by
  refine ⟨h.named, h.newest, ?_⟩
  rintro m ⟨⟩
  exact ⟨.refl, fun i hi => loadIndex_file hi, fun i hi => loadIndex_file hi⟩

theorem WellNamed.open (h : WellNamed b) (io : OpenIO) : WellNamed (b.open io).1 := by
  unfold Bundle.open
  split_ifs
  · exact h
  dsimp only
  have hloaded := h.load io
  split_ifs
  · exact hloaded.markInUse rfl io
  · have hrebuilt := hloaded.rebuildPositionPostings io.rebuild
    cases hrebuild : Bundle.rebuildPositionPostings io.rebuild
      { b with manager := some (b.loadManager io) } with
    | mk b' r =>
      rw [hrebuild] at hrebuilt
      cases r with
      | error e => exact hrebuilt.close _
      | ok _ =>
        dsimp only
        cases hm : b'.manager with
        | none => exact hrebuilt
        | some m => exact hrebuilt.markInUse hm io

theorem WellNamed.powerFailure (h : WellNamed b) {manifest commit : ℕ} {lost : BundleFile → Bool}
    (hstep : b.powerFailure manifest commit lost = some b') : WellNamed b' := by
  unfold Bundle.powerFailure at hstep
  split at hstep
  next d t older hd ht =>
    obtain rfl := Option.some.inj hstep
    refine ⟨?_, ?_, ?_⟩
    · intro d' hd'
      obtain rfl := List.mem_singleton.mp hd'
      exact h.named _ (List.mem_of_getElem? hd)
    · intro d' hd'
      rw [List.mem_singleton.mp hd']
    · rintro m ⟨⟩
  next => cases hstep

/-- Every step keeps the names of the artifacts. -/
theorem WellNamed.step (h : WellNamed b) {a : Action} (hstep : b.step moveHash a = some b') :
    WellNamed b' := by
  cases a <;> simp only [Bundle.step, Option.ite_none_left_eq_some, Option.ite_none_right_eq_some,
    Option.some.injEq, Option.map_eq_some_iff] at hstep
  case «open» io => exact hstep.2 ▸ h.open io
  case close io => exact hstep ▸ h.close io
  case crash =>
    subst hstep
    exact ⟨h.named, h.newest, by rintro m ⟨⟩⟩
  case powerFailure => exact h.powerFailure hstep
  case insertGame => exact hstep.2 ▸ h.mutate _ _ _
  case patchGameMetadata io works id patch => exact hstep.2 ▸ h.patchGameMetadata io works id patch
  case removeGame => exact hstep.2 ▸ h.mutate _ _ _
  case removeUserGame io works id => exact hstep.2 ▸ h.removeUserGame io works id
  case setManualGameProvenance works id label status =>
    exact hstep.2 ▸ h.setManualGameProvenance works id label status
  case rebuildPositionPostings io => exact hstep.2 ▸ h.rebuildPositionPostings io
  case rebuildOpeningTreeIndex io => exact hstep.2 ▸ h.rebuildOpeningTreeIndex io
  case prepareCanonicalMutation io => exact hstep.2 ▸ h.prepareCanonicalMutation io
  case beginBatch => exact hstep.2 ▸ h.of_eq rfl rfl
  case write =>
    obtain ⟨-, t, -, rfl⟩ := hstep
    exact h.of_eq rfl rfl
  case commitBatch => exact hstep.2 ▸ h.of_eq rfl rfl
  case rollbackBatch => exact hstep.2 ▸ h.of_eq rfl rfl
  case repair =>
    obtain ⟨-, r, -, rfl⟩ := hstep
    exact h.of_eq rfl rfl

end Preservation

end Bundle

end MotifChess.Db
