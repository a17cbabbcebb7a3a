/- GID: MotifChess/Db/Bundle/RebuildAtomicity
   generality: implementation
   digest: A rebuild that fails leaves a bundle as it was; one that publishes installs its artifact. -/

import MotifChess.Db.Bundle.Naming

set_option autoImplicit false
set_option relaxedAutoImplicit false

namespace MotifChess.Db.Bundle

variable {ix : Indexes}

def rebuild (kind : IndexKind) (io : RebuildIO) (b : Bundle ix) : Bundle ix × Result Unit :=
  match kind with
  | .postings => b.rebuildPositionPostings io
  | .tree => b.rebuildOpeningTreeIndex io

/-- The exits of a rebuild before its manifest is published: a closed bundle, invalid postings under
a tree index, or a step that fails. -/
inductive CannotPublish (io : RebuildIO) (b : Bundle ix) : IndexKind → Prop
  | closed {kind : IndexKind} : b.manager = none → CannotPublish io b kind
  | postingsInvalid {m : Manager ix} : b.manager = some m → m.validPostings b.tables = none →
      CannotPublish io b .tree
  | postings : RebuildFails io (ix.buildPostings b.tables.replayGames) ix.openPostings →
      CannotPublish io b .postings
  | tree {m : Manager ix} {i : Installed ix.Postings} : b.manager = some m →
      m.validPostings b.tables = some i → RebuildFails io (b.treeBytes i) ix.openTree →
      CannotPublish io b .tree

/-- The manager with its manifest and readers, the tables, the manifest on disk and the artifacts
that it names are as before, and so is what queries are told from. -/
structure Untouched (b b' : Bundle ix) : Prop where
  manager : b'.manager = b.manager
  tables : b'.tables = b.tables
  manifest : b'.disk.manifest = b.disk.manifest
  artifacts : ∀ kind e, b.disk.manifest.entry kind = some e →
    b'.disk.files e.filename = b.disk.files e.filename
  view : b'.view = b.view

/-- The manifest on disk and in memory names an artifact, and its reader is the installed one. -/
structure Serves (kind : IndexKind) (seq : ℕ) (b : Bundle ix) : Prop where
  exists_installed : ∃ m e bytes, b.manager = some m ∧ b.disk.manifest = m.manifest ∧
    m.manifest.entry kind = some e ∧ e.filename = .artifact kind seq ∧
    b.disk.files e.filename = some bytes ∧ artifactMatchesManifest b.disk e = true ∧
    match kind with
    | .postings => ∃ reader, ix.openPostings bytes = .ok reader ∧
        m.positionPostings = some ⟨e.filename, reader⟩
    | .tree => ∃ reader, ix.openTree bytes = .ok reader ∧
        m.openingTreeIndex = some ⟨e.filename, reader⟩

section Untouched

variable {b b' : Bundle ix} {kind : IndexKind}

theorem validPostings_installed {t : Tables} {m : Manager ix} {i : Installed ix.Postings}
    (h : m.validPostings t = some i) : m.positionPostings = some i := by
  obtain ⟨e, -, h⟩ := Option.bind_eq_some_iff.mp h
  obtain ⟨i', hi, h⟩ := Option.bind_eq_some_iff.mp h
  split_ifs at h
  exact hi.trans h

theorem validTree_installed {t : Tables} {m : Manager ix} {i : Installed ix.Tree}
    (h : m.validTree t = some i) : m.openingTreeIndex = some i := by
  obtain ⟨e, -, h⟩ := Option.bind_eq_some_iff.mp h
  obtain ⟨i', hi, h⟩ := Option.bind_eq_some_iff.mp h
  split_ifs at h
  exact hi.trans h

theorem Untouched.refl : Untouched b b := ⟨rfl, rfl, rfl, fun _ _ _ => rfl, rfl⟩

theorem WellNamed.untouched (h : WellNamed b) {m : Manager ix} (hm : b.manager = some m)
    (hstop : Abandoned kind m.manifest.derivedIndexBuildSeq b b') : Untouched b b' := by
  have hartifacts : ∀ other e, b.disk.manifest.entry other = some e →
      b'.disk.files e.filename = b.disk.files e.filename := by
    intro other e he
    have hnamed := h.named _ List.mem_cons_self
    have hseq := (h.memory m hm).manifest.buildSeq
    exact hstop.files _ (hnamed.ne_artifact he hseq.ge) (hnamed.ne_building he _)
  have hentries := (h.memory m hm).manifest.entries
  refine ⟨hstop.manager, hstop.tables, hstop.manifest, hartifacts, ?_⟩
  rw [view, view, hstop.manager, hstop.tables, hm, Option.map_some, Option.map_some]
  refine congrArg some (View.mk.injEq .. ▸ ⟨rfl, ?_, ?_⟩)
  · refine Option.map_congr fun i hi => ?_
    obtain ⟨e, he, hfile⟩ := (h.memory m hm).postings i (validPostings_installed hi)
    rw [hfile, hartifacts .postings e ((hentries .postings).symm.trans he)]
  · refine Option.map_congr fun i hi => ?_
    obtain ⟨e, he, hfile⟩ := (h.memory m hm).tree i (validTree_installed hi)
    rw [hfile, hartifacts .tree e ((hentries .tree).symm.trans he)]

end Untouched

section Atomicity

variable {b : Bundle ix} {io : RebuildIO} {kind : IndexKind}

private theorem rebuild_of_cannotPublish (h : WellNamed b) (hfails : CannotPublish io b kind) :
    (∃ e, (b.rebuild kind io).2 = .error e) ∧ Untouched b (b.rebuild kind io).1 := by
  cases hfails with
  | closed hm =>
    cases kind
    · simp only [rebuild, rebuildPositionPostings, hm]
      exact ⟨⟨_, rfl⟩, .refl⟩
    · simp only [rebuild, rebuildOpeningTreeIndex, hm]
      exact ⟨⟨_, rfl⟩, .refl⟩
  | postingsInvalid hm hinvalid =>
    simp only [rebuild, rebuildOpeningTreeIndex, hm, hinvalid]
    exact ⟨⟨_, rfl⟩, .refl⟩
  | postings hfails =>
    cases hm : b.manager with
    | none =>
      simp only [rebuild, rebuildPositionPostings, hm]
      exact ⟨⟨_, rfl⟩, .refl⟩
    | some m =>
      simp only [rebuild, rebuildPositionPostings, hm]
      obtain ⟨herror, hstop⟩ := rebuildIndex_of_fails hfails
      exact ⟨herror, h.untouched hm hstop⟩
  | tree hm hvalid hfails =>
    simp only [rebuild, rebuildOpeningTreeIndex, hm, hvalid]
    obtain ⟨herror, hstop⟩ := rebuildIndex_of_fails hfails
    exact ⟨herror, h.untouched hm hstop⟩

theorem artifactMatchesManifest_of_published {m installed : Manager ix} {bytes : List UInt8}
    {b' : Bundle ix} {e : DerivedIndexManifestEntry}
    (hpublished : Published kind io bytes installed m b b')
    (he : (b.publishedManifest kind bytes m).entry kind = some e) :
    e.filename = .artifact kind m.manifest.derivedIndexBuildSeq ∧
      b'.disk.files e.filename = some bytes ∧ artifactMatchesManifest b'.disk e = true := by
  rw [publishedManifest, DbManifest.entry_setEntry_self] at he
  obtain rfl := Option.some.inj he
  refine ⟨rfl, hpublished.artifact, ?_⟩
  simp [artifactMatchesManifest, hpublished.artifact]

private theorem rebuild_of_not_cannotPublish (hfails : ¬ CannotPublish io b kind) :
    ∃ m, b.manager = some m ∧
      Serves kind m.manifest.derivedIndexBuildSeq (b.rebuild kind io).1 ∧
      (b.rebuild kind io).2 =
        if io.manifest.outcome = .published then .ok () else .error .ioFailure := by
  cases hm : b.manager with
  | none => exact absurd (.closed hm) hfails
  | some m =>
    refine ⟨m, rfl, ?_⟩
    cases kind with
    | postings =>
      simp only [rebuild, rebuildPositionPostings, hm]
      obtain ⟨bytes, reader, -, hopen, hpublished, hresult⟩ :=
        @rebuildIndex_of_not_fails ix _ .postings io _ _ installPostings m b
          fun h => hfails (.postings h)
      refine ⟨⟨_, _, bytes, hpublished.manager, hpublished.manifest, rfl, ?_⟩, hresult⟩
      obtain ⟨hname, hfile, hmatches⟩ := artifactMatchesManifest_of_published hpublished rfl
      exact ⟨hname, hfile, hmatches, reader, hopen, rfl⟩
    | tree =>
      cases hvalid : m.validPostings b.tables with
      | none => exact absurd (.postingsInvalid hm hvalid) hfails
      | some i =>
        simp only [rebuild, rebuildOpeningTreeIndex, hm, hvalid]
        obtain ⟨bytes, reader, -, hopen, hpublished, hresult⟩ :=
          @rebuildIndex_of_not_fails ix _ .tree io _ _ installTree m b
            fun h => hfails (.tree hm hvalid h)
        refine ⟨⟨_, _, bytes, hpublished.manager, hpublished.manifest, rfl, ?_⟩, hresult⟩
        obtain ⟨hname, hfile, hmatches⟩ := artifactMatchesManifest_of_published hpublished rfl
        exact ⟨hname, hfile, hmatches, reader, hopen, rfl⟩

theorem wellNamed_created (name createdAt : String) :
    WellNamed (created name createdAt : Bundle ix) := by
  refine ⟨fun d hd => ?_, fun d hd => ?_, by rintro m ⟨⟩⟩
  · obtain rfl := List.mem_singleton.mp hd
    intro kind e he
    cases kind <;> cases he
  · obtain rfl := List.mem_singleton.mp hd
    exact le_rfl

private theorem Reaches.wellNamed {moveHash : List UInt16 → UInt64}
    {allowed : Bundle ix → Action → Prop} {name createdAt : String}
    (h : Reaches moveHash allowed name createdAt b) : WellNamed b :=
  System.Reaches.invariant h (wellNamed_created name createdAt) fun _ _ _ hs _ hstep => hs.step hstep

/-- A rebuild in any reached state: stopped before its manifest is published it is an error and
leaves everything as before, else the new artifact is served, and only a directory that could not
be synced makes it an error. Its name is not the name of any artifact in use. -/
theorem rebuild_atomic {moveHash : List UInt16 → UInt64} {name createdAt : String}
    (h : Reaches moveHash (fun _ _ => True) name createdAt b) (kind : IndexKind) (io : RebuildIO) :
    (CannotPublish io b kind →
      (∃ e, (b.rebuild kind io).2 = .error e) ∧ Untouched b (b.rebuild kind io).1) ∧
    (¬ CannotPublish io b kind → ∃ m, b.manager = some m ∧
      Serves kind m.manifest.derivedIndexBuildSeq (b.rebuild kind io).1 ∧
      (b.rebuild kind io).2 =
        if io.manifest.outcome = .published then .ok () else .error .ioFailure) ∧
    ∀ m, b.manager = some m → ∀ d ∈ m.manifest :: b.disk.manifests, ∀ other e,
      d.entry other = some e →
        e.filename.fileName ≠ (BundleFile.artifact kind m.manifest.derivedIndexBuildSeq).fileName := by
  have hnamed := h.wellNamed
  refine ⟨rebuild_of_cannotPublish hnamed, rebuild_of_not_cannotPublish, fun m hm d hd other e he => ?_⟩
  apply BundleFile.fileName_injective.ne
  rcases List.mem_cons.mp hd with rfl | hdisk
  · exact (hnamed.memoryNamed hm).ne_artifact he le_rfl
  · refine (hnamed.named d hdisk).ne_artifact he ?_
    rw [(hnamed.memory m hm).manifest.buildSeq]
    exact hnamed.newest d hdisk

/-- A bundle that was created and opened, with the postings of no games. -/
def openedSample : Option (Bundle (.withoutTree .ofSums)) :=
  System.run (step fun _ => 0) (fun _ _ => True) (created "sample" "2024-01-01T00:00:00Z") [.open {}]

theorem rebuild_atomic_sample : ∃ b ∈ openedSample,
    (∃ e, (b.rebuild .postings { syncs := false }).2 = .error e) ∧
    Untouched b (b.rebuild .postings { syncs := false }).1 ∧
    ∃ m, b.manager = some m ∧
      Serves .postings m.manifest.derivedIndexBuildSeq (b.rebuild .postings {}).1 := by
  have hrebuilt : (openedSample.map fun b => (b.rebuild .postings {}).2) = some (.ok ()) := by
    decide +kernel
  obtain ⟨b, hb, hok⟩ := Option.map_eq_some_iff.mp hrebuilt
  have hreaches := System.reaches_of_run hb
  obtain ⟨hstopped, -⟩ := rebuild_atomic hreaches .postings { syncs := false }
  obtain ⟨herror, huntouched⟩ := hstopped (.postings (.syncs rfl))
  obtain ⟨hfails, hpublishes, -⟩ := rebuild_atomic hreaches .postings {}
  have hcan : ¬ CannotPublish {} b .postings := by
    intro hcannot
    obtain ⟨⟨e, he⟩, -⟩ := hfails hcannot
    rw [hok] at he
    cases he
  obtain ⟨m, hm, hserves, -⟩ := hpublishes hcan
  exact ⟨b, hb, herror, huntouched, m, hm, hserves⟩

end Atomicity

end MotifChess.Db.Bundle
