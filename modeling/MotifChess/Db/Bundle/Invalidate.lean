/- GID: MotifChess/Db/Bundle/Invalidate
   generality: implementation
   digest: What marking the indexes stale does, and what a mutation does to a bundle. -/

import MotifChess.Db.Bundle.DatabaseManager

set_option autoImplicit false
set_option relaxedAutoImplicit false

namespace MotifChess.Db.Bundle

variable {ix : Indexes} {b : Bundle ix} {m : Manager ix}

/-- The indexes marked stale: no manifest entry and no reader is left, the tables are as before. -/
structure Invalidated (m : Manager ix) (b b' : Bundle ix) : Prop where
  tables : b'.tables = b.tables
  commits : b'.commits = b.commits
  inBatch : b'.inBatch = b.inBatch
  manager : b'.manager = some { manifest := staleManifest m.manifest }
  manifest : b'.disk.manifest = staleManifest m.manifest
  manifests : ∀ d ∈ b'.disk.manifests, d = staleManifest m.manifest ∨ d ∈ b.disk.manifests
  files : ∀ file, b'.disk.files file = b.disk.files file ∨ b'.disk.files file = none

@[simp] theorem entry_staleManifest (d : DbManifest) (kind : IndexKind) :
    (staleManifest d).entry kind = none := by
  cases kind <;> rfl

private theorem removeArtifact_manifests (works : Bool) (e : Option DerivedIndexManifestEntry)
    (disk : Disk) : (removeArtifact works e disk).manifests = disk.manifests := by
  cases e with
  | none => rfl
  | some e => simp [removeArtifact, Disk.manifests]

private theorem removeArtifact_files (works : Bool) (e : Option DerivedIndexManifestEntry) (disk : Disk)
    (file : BundleFile) : (removeArtifact works e disk).files file = disk.files file ∨
      (removeArtifact works e disk).files file = none := by
  cases e with
  | none => exact .inl rfl
  | some e =>
    cases works with
    | false => exact .inl rfl
    | true =>
      by_cases hfile : file = e.filename
      · subst hfile
        exact .inr (Disk.setFile_files_self _ _ _)
      · exact .inl (Disk.setFile_files_of_ne hfile _ _)

/-- Marking the indexes stale is an error that changes nothing, or invalidates them; it succeeds
when the directory was synced too. -/
theorem markDerivedIndexesStale_cases (io : StaleIO) (m : Manager ix) (b : Bundle ix) :
    (io.manifest.outcome = .notPublished ∧
      b.markDerivedIndexesStale io m = (b, .error .ioFailure)) ∨
    (io.manifest.outcome ≠ .notPublished ∧ Invalidated m b (b.markDerivedIndexesStale io m).1 ∧
      (b.markDerivedIndexesStale io m).2 =
        if io.manifest.outcome = .published then .ok () else .error .ioFailure) := by
  by_cases hnot : io.manifest.outcome = .notPublished
  · refine .inl ⟨hnot, ?_⟩
    rw [markDerivedIndexesStale, Disk.writeManifest, hnot]
  · refine .inr ⟨hnot, ?_⟩
    have hmanifest := Disk.writeManifest_manifest hnot (staleManifest m.manifest) b.disk
    have hfiles := Disk.writeManifest_files io.manifest (staleManifest m.manifest) b.disk
    have hstate := Disk.writeManifest_state io.manifest (staleManifest m.manifest) b.disk
    have hmem : ∀ d ∈ (b.disk.writeManifest io.manifest (staleManifest m.manifest)).1.manifests,
        d = staleManifest m.manifest ∨ d ∈ b.disk.manifests :=
      fun d hd => Disk.mem_manifests_writeManifest hd
    unfold markDerivedIndexesStale
    cases hwrite : b.disk.writeManifest io.manifest (staleManifest m.manifest) with
    | mk disk state =>
      rw [hwrite] at hmanifest hfiles hstate hmem
      have hmanifests := (removeArtifact_manifests io.removes m.manifest.openingTreeIndex
        (removeArtifact io.removes m.manifest.positionPostings disk)).trans
          (removeArtifact_manifests io.removes m.manifest.positionPostings disk)
      cases state with
      | notPublished => exact absurd hstate.symm hnot
      | published | publishedNotDurable =>
        refine ⟨⟨rfl, rfl, rfl, rfl, ?_, ?_, fun file => ?_⟩, by rw [← hstate]⟩
        · exact (List.cons.inj hmanifests).1.trans hmanifest
        · intro d hd
          rw [hmanifests] at hd
          exact hmem d hd
        · rcases removeArtifact_files io.removes m.manifest.openingTreeIndex
            (removeArtifact io.removes m.manifest.positionPostings disk) file with hkept | hgone
          · rcases removeArtifact_files io.removes m.manifest.positionPostings disk file with
              hkept' | hgone
            · exact .inl ((hkept.trans hkept').trans (congrFun hfiles file))
            · exact .inr (hkept.trans hgone)
          · exact .inr hgone

/-- Preparing a mutation leaves the bundle as it was, or invalidates its indexes. It succeeds without
a change only when no index is named. -/
theorem prepareCanonicalMutation_cases (io : StaleIO) (b : Bundle ix) :
    ((b.prepareCanonicalMutation io).1 = b ∧ ((b.prepareCanonicalMutation io).2 = .ok () →
      ∃ m, b.manager = some m ∧ ∀ kind, m.manifest.entry kind = none)) ∨
    ∃ m, b.manager = some m ∧ Invalidated m b (b.prepareCanonicalMutation io).1 := by
  unfold prepareCanonicalMutation
  cases hm : b.manager with
  | none => exact .inl ⟨rfl, fun h => by cases h⟩
  | some m =>
    dsimp only
    split_ifs with hnone
    · refine .inl ⟨rfl, fun _ => ⟨m, rfl, fun kind => ?_⟩⟩
      rw [Bool.and_eq_true, Option.isNone_iff_eq_none, Option.isNone_iff_eq_none] at hnone
      cases kind with
      | postings => exact hnone.1
      | tree => exact hnone.2
    · rcases markDerivedIndexesStale_cases io m b with ⟨-, heq⟩ | ⟨-, hstale, -⟩
      · rw [heq]
        exact .inl ⟨rfl, fun h => by cases h⟩
      · exact .inr ⟨m, rfl, hstale⟩

section Calls

variable (moveHash : List UInt16 → UInt64)

/-- A patch is rejected for its ratings, or goes to the store, through an invalidation when it
changes a rating or the result. -/
theorem patchGameMetadata_cases (io : StaleIO) (works : Bool) (id : ℕ) (patch : GamePatch)
    (b : Bundle ix) :
    (∃ e, b.patchGameMetadata moveHash io works id patch = (b, .error e)) ∨
    (affectsDerived patch = true ∧ b.patchGameMetadata moveHash io works id patch =
      b.mutate io works (orUnchanged fun t => t.patchMetadata moveHash id patch)) ∨
    (affectsDerived patch = false ∧ b.patchGameMetadata moveHash io works id patch =
      b.change works (orUnchanged fun t => t.patchMetadata moveHash id patch)) := by
  unfold patchGameMetadata
  cases b.manager with
  | none => exact .inl ⟨_, rfl⟩
  | some m =>
    cases narrowElo patch.whiteElo with
    | error e => exact .inl ⟨e, rfl⟩
    | ok white =>
      cases narrowElo patch.blackElo with
      | error e => exact .inl ⟨e, rfl⟩
      | ok black =>
        cases affectsDerived patch with
        | true => exact .inr (.inl ⟨rfl, rfl⟩)
        | false => exact .inr (.inr ⟨rfl, rfl⟩)

/-- A user's removal is rejected before anything is touched, or it is a removal. -/
theorem removeUserGame_cases (io : StaleIO) (works : Bool) (id : ℕ) (b : Bundle ix) :
    (∃ e, b.removeUserGame io works id = (b, .error e)) ∨
    ((∃ row, b.tables.findGame id = .ok row ∧ row.stored.provenance.read.sourceType = "manual") ∧
      b.removeUserGame io works id = b.removeGame io works id) := by
  unfold removeUserGame
  by_cases hclosed : b.manager.isNone
  · exact .inl ⟨_, if_pos hclosed⟩
  rw [if_neg hclosed]
  cases hrow : b.tables.findGame id with
  | error e => exact .inl ⟨e, rfl⟩
  | ok row =>
    dsimp only
    split_ifs with hsource
    · exact .inl ⟨_, rfl⟩
    · exact .inr ⟨⟨row, rfl, not_not.mp hsource⟩, rfl⟩

end Calls

end MotifChess.Db.Bundle
