/- GID: MotifChess/Db/Bundle/Rebuild
   generality: implementation
   digest: What an index rebuild does: nothing but leftovers of its own, or a published artifact. -/

import MotifChess.Db.Bundle.DatabaseManager

set_option autoImplicit false
set_option relaxedAutoImplicit false

namespace MotifChess.Db.Bundle

variable {ix : Indexes} {ρ : Type}

/-- The steps at which a rebuild can fail before the manifest names the new artifact. -/
inductive RebuildFails (io : RebuildIO) (built : Result (List UInt8))
    (openIndex : List UInt8 → Result ρ) : Prop
  | builds (h : io.builds = false)
  | built {e : ErrorCode} (h : built = .error e)
  | opensStaged (h : io.opensStaged = false)
  | opened {bytes : List UInt8} {e : ErrorCode} (h : built = .ok bytes) (ho : openIndex bytes = .error e)
  | renames (h : io.renames = false)
  | opensLive (h : io.opensLive = false)
  | syncs (h : io.syncs = false)
  | checksums (h : io.checksums = false)
  | counts (h : io.counts = false)
  | manifest (h : io.manifest.outcome = .notPublished)

/-- A rebuild that was given up: files of its own names apart, the bundle is as before. -/
structure Abandoned (kind : IndexKind) (seq : ℕ) (b b' : Bundle ix) : Prop where
  tables : b'.tables = b.tables
  commits : b'.commits = b.commits
  inBatch : b'.inBatch = b.inBatch
  manager : b'.manager = b.manager
  manifest : b'.disk.manifest = b.disk.manifest
  undurable : b'.disk.undurable = b.disk.undurable
  files : ∀ file, file ≠ .artifact kind seq → file ≠ .building kind seq →
    b'.disk.files file = b.disk.files file

/-- A rebuild that published its artifact: the manifest on disk and in memory names it, and the new
reader is installed. -/
structure Published (kind : IndexKind) (io : RebuildIO) (bytes : List UInt8)
    (installed : Manager ix) (m : Manager ix) (b b' : Bundle ix) : Prop where
  tables : b'.tables = b.tables
  commits : b'.commits = b.commits
  inBatch : b'.inBatch = b.inBatch
  manager : b'.manager = some installed
  manifest : b'.disk.manifest = b.publishedManifest kind bytes m
  manifests : ∀ d ∈ b'.disk.manifests, d = b.publishedManifest kind bytes m ∨ d ∈ b.disk.manifests
  artifact : b'.disk.files (.artifact kind m.manifest.derivedIndexBuildSeq) = some bytes
  files : ∀ file, file ≠ .artifact kind m.manifest.derivedIndexBuildSeq →
    file ≠ .building kind m.manifest.derivedIndexBuildSeq →
    (∀ e, m.manifest.entry kind = some e → file = e.filename → io.manifest.outcome ≠ .published) →
    b'.disk.files file = b.disk.files file

section Stage

variable {io : RebuildIO} {built : Result (List UInt8)} {openIndex : List UInt8 → Result ρ}

theorem stageIndex_eq_ok {bytes : List UInt8} {reader : ρ} :
    stageIndex io built openIndex = .ok (bytes, reader) ↔
      (io.builds ∧ io.opensStaged ∧ io.renames ∧ io.opensLive) ∧
        built = .ok bytes ∧ openIndex bytes = .ok reader := by
  have hread : (do
      let bytes ← built
      let _ ← openIndex bytes
      let reader ← openIndex bytes
      return (bytes, reader)) = .ok (bytes, reader) ↔
        built = .ok bytes ∧ openIndex bytes = .ok reader := by
    simp only [bind_eq_ok]
    constructor
    · rintro ⟨bytes', hbuilt, _, _, reader', hreader, hpair⟩
      obtain ⟨rfl, rfl⟩ := Prod.mk.inj (Except.ok.inj hpair)
      exact ⟨hbuilt, hreader⟩
    · rintro ⟨hbuilt, hreader⟩
      exact ⟨bytes, hbuilt, reader, hreader, reader, hreader, rfl⟩
  unfold stageIndex
  cases io.builds <;> cases io.opensStaged <;> cases io.renames <;> cases io.opensLive <;>
    simp only [Bool.false_eq_true, if_false, if_true, false_and, and_false, Bool.not_true, Bool.not_false,
      true_and, hread, bind_eq_ok, reduceCtorEq, exists_const, exists_false]

private theorem exists_stageIndex_eq_ok (h : ¬ RebuildFails io built openIndex) :
    ∃ bytes reader, stageIndex io built openIndex = .ok (bytes, reader) := by
  cases hbuilt : built with
  | error e => exact absurd (.built hbuilt) h
  | ok bytes =>
    cases hopened : openIndex bytes with
    | error e => exact absurd (.opened hbuilt hopened) h
    | ok reader =>
      refine ⟨bytes, reader, stageIndex_eq_ok.mpr ⟨⟨?_, ?_, ?_, ?_⟩, rfl, hopened⟩⟩
      · exact Bool.of_not_eq_false fun hio => h (.builds hio)
      · exact Bool.of_not_eq_false fun hio => h (.opensStaged hio)
      · exact Bool.of_not_eq_false fun hio => h (.renames hio)
      · exact Bool.of_not_eq_false fun hio => h (.opensLive hio)

end Stage

section Previous

variable {kind : IndexKind} {io : RebuildIO} {m : Manager ix} {disk : Disk}

private theorem removePrevious_manifests :
    (removePrevious kind io m disk).manifests = disk.manifests := by
  unfold removePrevious
  cases m.manifest.entry kind with
  | none => rfl
  | some e =>
    dsimp only
    split_ifs
    · rfl
    · simp [Disk.manifests]

private theorem removePrevious_files {file : BundleFile} (h : ∀ e, m.manifest.entry kind = some e →
    file = e.filename → file = .artifact kind m.manifest.derivedIndexBuildSeq) :
    (removePrevious kind io m disk).files file = disk.files file := by
  unfold removePrevious
  cases hentry : m.manifest.entry kind with
  | none => rfl
  | some e =>
    dsimp only
    split_ifs with hsame
    · rfl
    · refine Disk.remove_files_of_ne (fun hfile => hsame ?_) _ _
      rw [← hfile]
      exact h e hentry hfile

end Previous

section Spec

variable {kind : IndexKind} {io : RebuildIO} {built : Result (List UInt8)}
  {openIndex : List UInt8 → Result ρ} {install : Installed ρ → Manager ix → Manager ix}
  {m : Manager ix} {b : Bundle ix}

private theorem abandoned_abandon {disk : Disk} {seq : ℕ} (hmanifest : disk.manifest = b.disk.manifest)
    (hundurable : disk.undurable = b.disk.undurable)
    (hfiles : ∀ file, file ≠ .artifact kind seq → file ≠ .building kind seq →
      disk.files file = b.disk.files file) :
    Abandoned kind seq b { b with disk := abandon kind seq io disk } where
  tables := rfl
  commits := rfl
  inBatch := rfl
  manager := rfl
  manifest := hmanifest
  undurable := hundurable
  files := by
    intro file hartifact hbuilding
    simp only [abandon]
    rw [Disk.setFile_files_of_ne hartifact, Disk.setFile_files_of_ne hbuilding]
    exact hfiles file hartifact hbuilding

/-- A rebuild that fails before the manifest is published is an error and changes nothing. -/
theorem rebuildIndex_of_fails (h : RebuildFails io built openIndex) :
    (∃ e, (b.rebuildIndex kind io built openIndex install m).2 = .error e) ∧
      Abandoned kind m.manifest.derivedIndexBuildSeq b
        (b.rebuildIndex kind io built openIndex install m).1 := by
  unfold rebuildIndex
  cases hstage : stageIndex io built openIndex with
  | error e => exact ⟨⟨e, rfl⟩, abandoned_abandon rfl rfl fun _ _ _ => rfl⟩
  | ok staged =>
    obtain ⟨bytes, reader⟩ := staged
    obtain ⟨⟨hbuilds, hstaged, hrenames, hlive⟩, hbuilt, hopened⟩ := stageIndex_eq_ok.mp hstage
    have hpublish : ∀ disk : Disk,
        b.publishDerivedIndex kind io bytes m disk = (disk, .notPublished) := by
      intro disk
      unfold publishDerivedIndex
      cases h with
      | builds h => simp [h] at hbuilds
      | built h => simp [h] at hbuilt
      | opensStaged h => simp [h] at hstaged
      | opened h ho =>
        obtain rfl := Except.ok.inj (h.symm.trans hbuilt)
        simp [ho] at hopened
      | renames h => simp [h] at hrenames
      | opensLive h => simp [h] at hlive
      | syncs h => simp [h]
      | checksums h => simp [h]
      | counts h => simp [h]
      | manifest h =>
        split_ifs
        · rfl
        · rw [Disk.writeManifest, h]
    simp only [hpublish]
    refine ⟨⟨.ioFailure, rfl⟩, abandoned_abandon rfl rfl fun file hartifact hbuilding => ?_⟩
    rw [Disk.setFile_files_of_ne hartifact, Disk.setFile_files_of_ne hbuilding]

/-- A rebuild that does not fail publishes its artifact, and is an error only when the directory
could not be synced. -/
theorem rebuildIndex_of_not_fails (h : ¬ RebuildFails io built openIndex) :
    ∃ bytes reader, built = .ok bytes ∧ openIndex bytes = .ok reader ∧
      Published kind io bytes (install ⟨.artifact kind m.manifest.derivedIndexBuildSeq, reader⟩
        { m with manifest := b.publishedManifest kind bytes m }) m b
        (b.rebuildIndex kind io built openIndex install m).1 ∧
      (b.rebuildIndex kind io built openIndex install m).2 =
        if io.manifest.outcome = .published then .ok () else .error .ioFailure := by
  obtain ⟨bytes, reader, hstage⟩ := exists_stageIndex_eq_ok h
  obtain ⟨-, hbuilt, hopened⟩ := stageIndex_eq_ok.mp hstage
  refine ⟨bytes, reader, hbuilt, hopened, ?_⟩
  have hio : (io.syncs && io.checksums && io.counts) = true := by
    have hsyncs := Bool.of_not_eq_false fun hio => h (.syncs hio)
    have hchecksums := Bool.of_not_eq_false fun hio => h (.checksums hio)
    have hcounts := Bool.of_not_eq_false fun hio => h (.counts hio)
    rw [hsyncs, hchecksums, hcounts]
    rfl
  unfold rebuildIndex publishDerivedIndex
  simp only [hstage, hio, Bool.not_true, Bool.false_eq_true, if_false, Disk.writeManifest]
  cases houtcome : io.manifest.outcome with
  | notPublished => exact absurd (.manifest houtcome) h
  | publishedNotDurable =>
    refine ⟨⟨rfl, rfl, rfl, rfl, rfl, ?_, ?_, ?_⟩, rfl⟩
    · intro d hd
      exact List.mem_cons.mp hd
    · exact Disk.setFile_files_self _ _ _
    · intro file hartifact hbuilding _
      exact (Disk.setFile_files_of_ne hartifact _ _).trans (Disk.setFile_files_of_ne hbuilding _ _)
  | published =>
    refine ⟨⟨rfl, rfl, rfl, rfl, ?_, ?_, ?_, ?_⟩, rfl⟩
    · exact (List.cons.inj removePrevious_manifests).1
    · intro d hd
      rw [removePrevious_manifests] at hd
      exact .inl (List.mem_singleton.mp hd)
    · exact (removePrevious_files fun _ _ _ => rfl).trans (Disk.setFile_files_self _ _ _)
    · intro file hartifact hbuilding hprevious
      refine (removePrevious_files fun e he hfile => ?_).trans ?_
      · exact absurd houtcome (hprevious e he hfile)
      · exact (Disk.setFile_files_of_ne hartifact _ _).trans
          (Disk.setFile_files_of_ne hbuilding _ _)

end Spec

end MotifChess.Db.Bundle
