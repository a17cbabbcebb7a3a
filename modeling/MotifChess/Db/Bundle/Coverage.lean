/- GID: MotifChess/Db/Bundle/Coverage
   generality: implementation
   digest: In every run, an index that the manifest names covers the stored games or is refused. -/

import MotifChess.Db.Bundle.RebuildAtomicity
import MotifChess.Db.ReplayChanges

set_option autoImplicit false
set_option relaxedAutoImplicit false

namespace MotifChess.Db

/-- An index counts the games that it was built from. -/
structure Indexes.Lawful (ix : Indexes) : Prop where
  postings : ∀ games bytes reader, ix.buildPostings games = .ok bytes →
    ix.openPostings bytes = .ok reader → ix.indexedGameCount reader = games.length
  tree : ∀ games pbytes p bytes reader, ix.buildPostings games = .ok pbytes →
    ix.openPostings pbytes = .ok p → ix.buildTree games p pbytes = .ok bytes →
      ix.openTree bytes = .ok reader → ix.sourceGameCount reader = games.length

/-- The bytes are an index of the given games. -/
def Indexes.IndexesGames (ix : Indexes) (kind : IndexKind) (games : List ReplayGame)
    (bytes : List UInt8) : Prop :=
  match kind with
  | .postings => ix.buildPostings games = .ok bytes
  | .tree => ∃ pbytes p, ix.buildPostings games = .ok pbytes ∧ ix.openPostings pbytes = .ok p ∧
      ix.buildTree games p pbytes = .ok bytes

/-- The number of games that an index says it has. -/
def Indexes.countIn (ix : Indexes) (kind : IndexKind) (bytes : List UInt8) : Option ℕ :=
  match kind with
  | .postings => (ix.openPostings bytes).toOption.map ix.indexedGameCount
  | .tree => (ix.openTree bytes).toOption.map ix.sourceGameCount

/-- The index will be looked at before a repair can lower the number of games: postings when a
closed bundle is opened, a tree as long as there is nothing to repair. -/
def CheckedFirst (kind : IndexKind) (closed : Prop) (t : Tables) : Prop :=
  match kind with
  | .postings => closed
  | .tree => t.identityIndex = true

/-- The index was built from the stored games, or its count gives it away. -/
def Indexes.Fits (ix : Indexes) (kind : IndexKind) (closed : Prop) (t : Tables)
    (bytes : List UInt8) : Prop :=
  ix.IndexesGames kind t.replayGames bytes ∨ ∀ n, ix.countIn kind bytes = some n →
    t.countGames < n ∨ t.countGames ≠ n ∧ CheckedFirst kind closed t

namespace Indexes

variable {ix : Indexes} {kind : IndexKind} {closed : Prop} {t t' : Tables} {bytes : List UInt8}
  {moveHash : List UInt16 → UInt64}

theorem IndexesGames.countIn (h : ix.IndexesGames kind t.replayGames bytes) (hlawful : ix.Lawful)
    {n : ℕ} (hn : ix.countIn kind bytes = some n) : n = t.countGames := by
  rw [← Tables.length_replayGames]
  cases kind with
  | postings =>
    obtain ⟨reader, hreader, rfl⟩ := Option.map_eq_some_iff.mp hn
    exact hlawful.postings _ _ _ h (toOption_eq_some.mp hreader)
  | tree =>
    obtain ⟨pbytes, p, hpostings, hopen, hbuild⟩ := h
    obtain ⟨reader, hreader, rfl⟩ := Option.map_eq_some_iff.mp hn
    exact hlawful.tree _ _ _ _ _ hpostings hopen hbuild (toOption_eq_some.mp hreader)

theorem Fits.mono (h : ix.Fits kind closed t bytes) {closed' : Prop} (hclosed : closed → closed') :
    ix.Fits kind closed' t bytes := by
  refine h.imp_right fun hcount n hn => (hcount n hn).imp_right fun ⟨hne, hsettled⟩ => ⟨hne, ?_⟩
  cases kind with
  | postings => exact hclosed hsettled
  | tree => exact hsettled

theorem Fits.congr (h : ix.Fits kind closed t bytes) (hgames : t'.replayGames = t.replayGames)
    (hindex : t'.identityIndex = t.identityIndex) : ix.Fits kind closed t' bytes := by
  have hcount : t'.countGames = t.countGames := by
    rw [← Tables.length_replayGames, hgames, Tables.length_replayGames]
  have hchecked : CheckedFirst kind closed t' = CheckedFirst kind closed t := by
    cases kind with
    | postings => rfl
    | tree => simp only [CheckedFirst, hindex]
  rw [Fits, hgames, hcount, hchecked]
  exact h

private theorem Fits.indexesGames (h : ix.Fits kind closed t bytes)
    (hcount : ix.countIn kind bytes = some t.countGames) :
    ix.IndexesGames kind t.replayGames bytes := by
  rcases h with hindexes | hrefused
  · exact hindexes
  · rcases hrefused _ hcount with hlt | ⟨hne, -⟩
    · exact absurd hlt (lt_irrefl _)
    · exact absurd rfl hne

theorem Fits.deduplicate (h : ix.Fits kind False t bytes) (hlawful : ix.Lawful)
    (hindex : t.identityIndex = false) {removed : ℕ}
    (hrepair : t.deduplicate moveHash = .ok (t', removed)) : ix.Fits kind closed t' bytes := by
  have hle := Tables.countGames_deduplicate_le hrepair
  rcases h with hindexes | hrefused
  · rcases Tables.replayGames_deduplicate hrepair with hsame | hfewer
    · exact .inl (hsame ▸ hindexes)
    · refine .inr fun n hn => .inl ?_
      rw [hindexes.countIn hlawful hn]
      exact hfewer
  · refine .inr fun n hn => .inl ?_
    rcases hrefused n hn with hlt | ⟨-, hsettled⟩
    · exact hle.trans_lt hlt
    · cases kind with
      | postings => exact hsettled.elim
      | tree => exact absurd (hindex.symm.trans hsettled) Bool.false_ne_true

end Indexes

namespace Bundle

variable {ix : Indexes} {closed : Prop} {b b' : Bundle ix} {m : Manager ix}

private theorem validPostings_count {t : Tables} {i : Installed ix.Postings}
    (h : m.validPostings t = some i) : t.countGames = ix.indexedGameCount i.reader := by
  obtain ⟨e, -, h⟩ := Option.bind_eq_some_iff.mp h
  obtain ⟨i', -, h⟩ := Option.bind_eq_some_iff.mp h
  split_ifs at h with hvalid
  obtain rfl := Option.some.inj h
  simp only [Bool.and_eq_true, decide_eq_true_eq] at hvalid
  exact hvalid.2

private theorem validTree_count {t : Tables} {i : Installed ix.Tree}
    (h : m.validTree t = some i) : t.countGames = ix.sourceGameCount i.reader := by
  obtain ⟨e, -, h⟩ := Option.bind_eq_some_iff.mp h
  obtain ⟨i', -, h⟩ := Option.bind_eq_some_iff.mp h
  split_ifs at h with hvalid
  obtain rfl := Option.some.inj h
  simp only [Bool.and_eq_true, decide_eq_true_eq] at hvalid
  exact hvalid.2

/-- What every run keeps: the tables are committed unless a batch is open, which has no index beside
it, every index that the manifest names fits, and the readers read what their files say. -/
structure Covered (closed : Prop) (b : Bundle ix) : Prop where
  named : WellNamed b
  committed : ∃ t older, b.commits = t :: older ∧ (b.inBatch = false → t = b.tables)
  batch : b.inBatch = true → b.manager.isSome ∧ ∀ kind, b.disk.manifest.entry kind = none
  indexes : ∀ kind e bytes, b.disk.manifest.entry kind = some e →
    b.disk.files e.filename = some bytes → ix.Fits kind closed b.tables bytes
  postings : ∀ m i, b.manager = some m → m.positionPostings = some i →
    ∃ bytes, b.disk.files i.file = some bytes ∧ ix.openPostings bytes = .ok i.reader
  tree : ∀ m i, b.manager = some m → m.openingTreeIndex = some i →
    ∃ bytes, b.disk.files i.file = some bytes ∧ ix.openTree bytes = .ok i.reader

namespace Covered

theorem mono (h : Covered closed b) {closed' : Prop} (hclosed : closed → closed') :
    Covered closed' b where
  __ := h
  indexes := fun kind e bytes he hbytes => (h.indexes kind e bytes he hbytes).mono hclosed

/-- New tables that the named indexes fit. -/
theorem store (h : Covered closed b) {t : Tables} (hfits : ∀ kind e bytes,
    b.disk.manifest.entry kind = some e → ix.Fits kind closed b.tables bytes →
      ix.Fits kind closed t bytes) : Covered closed (b.store t) where
  named := h.named.of_eq rfl rfl
  committed := by
    obtain ⟨latest, older, hcommits, -⟩ := h.committed
    cases hbatch : b.inBatch with
    | false => exact ⟨t, b.commits, by simp [Bundle.store, hbatch], fun _ => rfl⟩
    | true =>
      refine ⟨latest, older, by simp [Bundle.store, hbatch, hcommits], fun hnot => ?_⟩
      rw [show (b.store t).inBatch = true from hbatch] at hnot
      cases hnot
  batch := h.batch
  indexes := fun kind e bytes he hbytes =>
    hfits kind e bytes he (h.indexes kind e bytes he hbytes)
  postings := h.postings
  tree := h.tree

private theorem store_of_unnamed (h : Covered closed b) (t : Tables)
    (hnone : ∀ kind, b.disk.manifest.entry kind = none) : Covered closed (b.store t) := by
  refine h.store fun kind e bytes he _ => ?_
  rw [hnone kind] at he
  cases he

/-- The bundle without a manager: what was not committed is gone, the manifest may be refreshed. -/
theorem stopped (h : Covered closed b) (hnamed : WellNamed b')
    (htables : b'.tables = b.commits.headD b.tables) (hcommits : b'.commits = b.commits)
    (hmanager : b'.manager = none) (hbatch : b'.inBatch = false)
    (hfiles : b'.disk.files = b.disk.files)
    (hentries : ∀ kind, b'.disk.manifest.entry kind = b.disk.manifest.entry kind) :
    Covered True b' := by
  obtain ⟨latest, older, hlatest, hopen⟩ := h.committed
  rw [hlatest, List.headD_cons] at htables
  refine ⟨hnamed, ⟨latest, older, hcommits.trans hlatest, fun _ => htables.symm⟩, ?_, ?_, ?_, ?_⟩
  · simp [hbatch]
  · intro kind e bytes he hbytes
    rw [hentries kind] at he
    rw [hfiles] at hbytes
    cases hin : b.inBatch with
    | true =>
      rw [(h.batch hin).2 kind] at he
      cases he
    | false =>
      rw [htables, hopen hin]
      exact (h.indexes kind e bytes he hbytes).mono fun _ => trivial
  · intro m i hm
    rw [hmanager] at hm
    cases hm
  · intro m i hm
    rw [hmanager] at hm
    cases hm

theorem close (h : Covered closed b) (io : ManifestIO) (hm : b.manager = some m) :
    Covered True (b.close io) := by
  refine h.stopped (h.named.close io) ?_ ?_ ?_ ?_ ?_ fun kind => ?_ <;>
    simp only [Bundle.close, hm, Disk.writeManifest_files]
  by_cases hnot : io.outcome = .notPublished
  · rw [Disk.writeManifest_notPublished hnot]
  · rw [Disk.writeManifest_manifest hnot, ← (h.named.memory m hm).manifest.entries kind]
    cases kind <;> rfl

theorem crash (h : Covered closed b) : Covered True b.crash := by
  refine h.stopped ⟨h.named.named, h.named.newest, ?_⟩ rfl rfl rfl rfl rfl fun _ => rfl
  rintro m ⟨⟩

theorem invalidated (h : Covered closed b) (hm : b.manager = some m)
    (hstale : Invalidated m b b') : Covered closed b' := by
  have hnone : ∀ kind, b'.disk.manifest.entry kind = none := by
    intro kind
    rw [hstale.manifest, entry_staleManifest]
  refine ⟨h.named.invalidated hm hstale, ?_, fun _ => ⟨?_, hnone⟩, ?_, ?_, ?_⟩
  · rw [hstale.commits, hstale.inBatch, hstale.tables]
    exact h.committed
  · rw [hstale.manager]
    rfl
  · intro kind e bytes he
    rw [hnone kind] at he
    cases he
  · intro m' i hm'
    obtain rfl := Option.some.inj (hstale.manager.symm.trans hm')
    rintro ⟨⟩
  · intro m' i hm'
    obtain rfl := Option.some.inj (hstale.manager.symm.trans hm')
    rintro ⟨⟩

theorem prepareCanonicalMutation (h : Covered closed b) (io : StaleIO) :
    Covered closed (b.prepareCanonicalMutation io).1 := by
  rcases prepareCanonicalMutation_cases io b with ⟨heq, -⟩ | ⟨m, hm, hstale⟩
  · rw [heq]
    exact h
  · exact h.invalidated hm hstale

private theorem unnamed_of_prepared (h : Covered closed b) {io : StaleIO}
    (hok : (b.prepareCanonicalMutation io).2 = .ok ()) (kind : IndexKind) :
    (b.prepareCanonicalMutation io).1.disk.manifest.entry kind = none := by
  rcases prepareCanonicalMutation_cases io b with ⟨heq, hnone⟩ | ⟨m, hm, hstale⟩
  · obtain ⟨m, hm, hentries⟩ := hnone hok
    rw [heq, ← (h.named.memory m hm).manifest.entries kind]
    exact hentries kind
  · rw [hstale.manifest, entry_staleManifest]

theorem mutate (h : Covered closed b) {α : Type} (io : StaleIO) (works : Bool)
    (write : Tables → Tables × Result α) : Covered closed (b.mutate io works write).1 := by
  have hprepared := h.prepareCanonicalMutation io
  have hunnamed := @unnamed_of_prepared ix closed b h io
  unfold Bundle.mutate
  cases hprepare : b.prepareCanonicalMutation io with
  | mk b' r =>
    rw [hprepare] at hprepared hunnamed
    cases r with
    | error e => exact hprepared
    | ok _ =>
      dsimp only [Bundle.change]
      cases works with
      | false => exact hprepared
      | true => exact hprepared.store_of_unnamed _ (hunnamed rfl)

theorem insertGame (h : Covered closed b) (moveHash : List UInt16 → UInt64) (io : StaleIO)
    (works : Bool) (game : Game) : Covered closed (b.insertGame moveHash io works game).1 :=
  h.mutate _ _ _

theorem removeGame (h : Covered closed b) (io : StaleIO) (works : Bool) (id : ℕ) :
    Covered closed (b.removeGame io works id).1 := h.mutate _ _ _

/-- A write without an invalidation keeps what the indexes are built from. -/
theorem change (h : Covered closed b) (works : Bool) {write : Tables → Result Tables}
    (hkeeps : ∀ t, write b.tables = .ok t →
      t.replayGames = b.tables.replayGames ∧ t.identityIndex = b.tables.identityIndex) :
    Covered closed (b.change works (orUnchanged write)).1 := by
  cases works with
  | false => exact h
  | true =>
    refine h.store fun kind e bytes _ hfits => ?_
    unfold orUnchanged
    cases hwrite : write b.tables with
    | error e => exact hfits
    | ok t => exact hfits.congr (hkeeps t hwrite).1 (hkeeps t hwrite).2

theorem patchGameMetadata (h : Covered closed b) (moveHash : List UInt16 → UInt64) (io : StaleIO)
    (works : Bool) (id : ℕ) (patch : GamePatch) :
    Covered closed (b.patchGameMetadata moveHash io works id patch).1 := by
  rcases patchGameMetadata_cases moveHash io works id patch b with
    ⟨e, heq⟩ | ⟨-, heq⟩ | ⟨haffects, heq⟩ <;> rw [heq]
  · exact h
  · exact h.mutate _ _ _
  · simp only [affectsDerived, Bool.or_eq_false_iff, Option.isSome_eq_false_iff,
      Option.isNone_iff_eq_none] at haffects
    exact h.change works fun t ht =>
      Tables.replayGames_patchMetadata haffects.1.1 haffects.1.2 haffects.2 ht

theorem removeUserGame (h : Covered closed b) (io : StaleIO) (works : Bool) (id : ℕ) :
    Covered closed (b.removeUserGame io works id).1 := by
  rcases removeUserGame_cases io works id b with ⟨e, heq⟩ | ⟨-, heq⟩ <;> rw [heq]
  · exact h
  · exact h.mutate _ _ _

theorem setManualGameProvenance (h : Covered closed b) (works : Bool) (id : ℕ)
    (label : Option String) (status : String) :
    Covered closed (b.setManualGameProvenance works id label status).1 := by
  unfold Bundle.setManualGameProvenance
  split_ifs
  · exact h
  · exact h.change works fun t ht => Tables.replayGames_setManualProvenance ht

/-- Valid postings were built from the stored games, and their file is the one that the manifest
names. -/
theorem validPostings (h : Covered closed b) (hm : b.manager = some m)
    {i : Installed ix.Postings} (hi : m.validPostings b.tables = some i) :
    ∃ bytes, b.disk.files i.file = some bytes ∧ ix.openPostings bytes = .ok i.reader ∧
      ix.IndexesGames .postings b.tables.replayGames bytes ∧
      ∃ e, b.disk.manifest.entry .postings = some e ∧ i.file = e.filename := by
  have hinstalled := validPostings_installed hi
  obtain ⟨bytes, hbytes, hopen⟩ := h.postings m i hm hinstalled
  obtain ⟨hsame, hfiles, -⟩ := h.named.memory m hm
  obtain ⟨e, he, hfile⟩ := hfiles i hinstalled
  have hentry : b.disk.manifest.entry .postings = some e := (hsame.entries .postings).symm.trans he
  have hcount : ix.countIn .postings bytes = some b.tables.countGames := by
    rw [Indexes.countIn, hopen]
    exact congrArg some (validPostings_count hi).symm
  rw [hfile] at hbytes ⊢
  exact ⟨bytes, hbytes, hopen, (h.indexes .postings e bytes hentry hbytes).indexesGames hcount,
    e, hentry, rfl⟩

theorem validTree (h : Covered closed b) (hm : b.manager = some m)
    {i : Installed ix.Tree} (hi : m.validTree b.tables = some i) :
    ∃ bytes, b.disk.files i.file = some bytes ∧ ix.openTree bytes = .ok i.reader ∧
      ix.IndexesGames .tree b.tables.replayGames bytes := by
  have hinstalled := validTree_installed hi
  obtain ⟨bytes, hbytes, hopen⟩ := h.tree m i hm hinstalled
  obtain ⟨hsame, -, hfiles⟩ := h.named.memory m hm
  obtain ⟨e, he, hfile⟩ := hfiles i hinstalled
  have hentry : b.disk.manifest.entry .tree = some e := (hsame.entries .tree).symm.trans he
  have hcount : ix.countIn .tree bytes = some b.tables.countGames := by
    rw [Indexes.countIn, hopen]
    exact congrArg some (validTree_count hi).symm
  rw [hfile] at hbytes ⊢
  exact ⟨bytes, hbytes, hopen, (h.indexes .tree e bytes hentry hbytes).indexesGames hcount⟩

theorem checked (h : Covered closed b) {closed' : Prop}
    (hpostings : ∀ e bytes, b.disk.manifest.entry .postings = some e →
      b.disk.files e.filename = some bytes →
        ix.IndexesGames .postings b.tables.replayGames bytes) : Covered closed' b where
  __ := h
  indexes := by
    intro kind e bytes he hbytes
    cases kind with
    | postings => exact .inl (hpostings e bytes he hbytes)
    | tree => exact h.indexes .tree e bytes he hbytes

theorem abandoned (h : Covered closed b) (hm : b.manager = some m) {kind : IndexKind}
    (hstop : Abandoned kind m.manifest.derivedIndexBuildSeq b b') : Covered closed b' := by
  have hsame := h.named.untouched hm hstop
  obtain ⟨hentries, hpostings, htree⟩ := h.named.memory m hm
  refine ⟨h.named.abandoned hstop, ?_, ?_, ?_, ?_, ?_⟩
  · rw [hstop.commits, hstop.inBatch, hstop.tables]
    exact h.committed
  · rw [hstop.inBatch, hstop.manifest, hstop.manager]
    exact h.batch
  · rw [hstop.manifest, hstop.tables]
    intro other e bytes he hbytes
    rw [hsame.artifacts other e he] at hbytes
    exact h.indexes other e bytes he hbytes
  · intro m' i hm' hi
    obtain rfl := Option.some.inj (hm.symm.trans (hstop.manager.symm.trans hm'))
    obtain ⟨e, he, hfile⟩ := hpostings i hi
    rw [hfile, hsame.artifacts .postings e ((hentries.entries .postings).symm.trans he), ← hfile]
    exact h.postings m i hm hi
  · intro m' i hm' hi
    obtain rfl := Option.some.inj (hm.symm.trans (hstop.manager.symm.trans hm'))
    obtain ⟨e, he, hfile⟩ := htree i hi
    rw [hfile, hsame.artifacts .tree e ((hentries.entries .tree).symm.trans he), ← hfile]
    exact h.tree m i hm hi

section Publishing

variable {kind : IndexKind} {io : RebuildIO} {bytes : List UInt8} {installed : Manager ix}

private theorem files_other (h : Covered closed b) (hm : b.manager = some m)
    (hpublished : Published kind io bytes installed m b b') (other : IndexKind)
    (hother : other ≠ kind) {e : DerivedIndexManifestEntry} (he : m.manifest.entry other = some e) :
    b'.disk.files e.filename = b.disk.files e.filename := by
  have hnamed := h.named.memoryNamed hm
  refine hpublished.files _ (hnamed.ne_artifact he le_rfl) (hnamed.ne_building he _) ?_
  intro previous hprevious hsame
  obtain ⟨seq, -, hname⟩ := hnamed other e he
  obtain ⟨seq', -, hname'⟩ := hnamed kind previous hprevious
  rw [hname, hname'] at hsame
  exact absurd (BundleFile.artifact.inj hsame).1 hother

theorem published (h : Covered closed b) (hm : b.manager = some m)
    (hpublished : Published kind io bytes installed m b b') (hnamed : WellNamed b')
    (hbatch : b.inBatch = false)
    (hindexes : ix.IndexesGames kind b.tables.replayGames bytes)
    (hpostings : ∀ i, installed.positionPostings = some i →
      ∃ bytes, b'.disk.files i.file = some bytes ∧ ix.openPostings bytes = .ok i.reader)
    (htree : ∀ i, installed.openingTreeIndex = some i →
      ∃ bytes, b'.disk.files i.file = some bytes ∧ ix.openTree bytes = .ok i.reader) :
    Covered closed b' := by
  refine ⟨hnamed, ?_, ?_, ?_, ?_, ?_⟩
  · rw [hpublished.commits, hpublished.inBatch, hpublished.tables]
    exact h.committed
  · intro hin
    rw [hpublished.inBatch, hbatch] at hin
    cases hin
  · rw [hpublished.tables, hpublished.manifest, publishedManifest]
    intro other e bytes' he hbytes'
    by_cases hother : other = kind
    · subst hother
      obtain ⟨hname, hfile, -⟩ := artifactMatchesManifest_of_published hpublished he
      obtain rfl := Option.some.inj (hfile.symm.trans hbytes')
      exact .inl hindexes
    · rw [DbManifest.entry_setEntry_of_ne hother] at he
      rw [h.files_other hm hpublished other hother he] at hbytes'
      refine h.indexes other e bytes' ?_ hbytes'
      rw [← (h.named.memory m hm).manifest.entries other]
      exact he
  · intro m' i hm'
    obtain rfl := Option.some.inj (hpublished.manager.symm.trans hm')
    exact hpostings i
  · intro m' i hm'
    obtain rfl := Option.some.inj (hpublished.manager.symm.trans hm')
    exact htree i

/-- A rebuild of the postings leaves a manager behind whose postings need no check, or nothing. -/
theorem rebuildPositionPostings (h : Covered closed b) (hbatch : b.inBatch = false)
    (io : RebuildIO) : Covered closed (b.rebuildPositionPostings io).1 ∧
      ((b.rebuildPositionPostings io).2 = .ok () →
        Covered False (b.rebuildPositionPostings io).1) := by
  have hnamed := h.named.rebuildPositionPostings io
  unfold Bundle.rebuildPositionPostings at hnamed ⊢
  cases hm : b.manager with
  | none => exact ⟨h, fun hok => by cases hok⟩
  | some m =>
    rw [hm] at hnamed
    by_cases hfails : RebuildFails io (ix.buildPostings b.tables.replayGames) ix.openPostings
    · obtain ⟨⟨e, herror⟩, hstop⟩ := rebuildIndex_of_fails hfails
      refine ⟨h.abandoned hm hstop, fun hok => ?_⟩
      dsimp only at hok
      rw [herror] at hok
      cases hok
    · obtain ⟨bytes, reader, hbuilt, hopen, hpublished, -⟩ := rebuildIndex_of_not_fails hfails
      have hcovered := h.published hm hpublished hnamed hbatch hbuilt
        (by rintro i ⟨⟩; exact ⟨bytes, hpublished.artifact, hopen⟩)
        (fun i hi => by
          obtain ⟨e, he, hfile⟩ := (h.named.memory m hm).tree i hi
          rw [hfile, h.files_other hm hpublished .tree (by decide) he, ← hfile]
          exact h.tree m i hm hi)
      refine ⟨hcovered, fun _ => hcovered.checked fun e bytes' he hbytes' => ?_⟩
      rw [hpublished.manifest] at he
      obtain ⟨-, hfile, -⟩ := artifactMatchesManifest_of_published hpublished he
      obtain rfl := Option.some.inj (hfile.symm.trans hbytes')
      rw [hpublished.tables]
      exact hbuilt

theorem rebuildOpeningTreeIndex (h : Covered closed b) (hbatch : b.inBatch = false)
    (io : RebuildIO) : Covered closed (b.rebuildOpeningTreeIndex io).1 := by
  have hnamed := h.named.rebuildOpeningTreeIndex io
  unfold Bundle.rebuildOpeningTreeIndex at hnamed ⊢
  cases hm : b.manager with
  | none => exact h
  | some m =>
    rw [hm] at hnamed
    dsimp only at hnamed ⊢
    cases hi : m.validPostings b.tables with
    | none => exact h
    | some i =>
      rw [hi] at hnamed
      dsimp only at hnamed ⊢
      by_cases hfails : RebuildFails io (b.treeBytes i) ix.openTree
      · exact h.abandoned hm (rebuildIndex_of_fails hfails).2
      · obtain ⟨bytes, reader, hbuilt, hopen, hpublished, -⟩ := rebuildIndex_of_not_fails hfails
        obtain ⟨pbytes, hpbytes, hpopen, hpostings, -⟩ := h.validPostings hm hi
        have hbuild : ix.buildTree b.tables.replayGames i.reader pbytes = .ok bytes := by
          rw [treeBytes, hpbytes] at hbuilt
          exact hbuilt
        refine h.published hm hpublished hnamed hbatch ⟨pbytes, i.reader, hpostings, hpopen, hbuild⟩
          (fun i' hi' => ?_) ?_
        · obtain ⟨e, he, hfile⟩ := (h.named.memory m hm).postings i' hi'
          rw [hfile, h.files_other hm hpublished .postings (by decide) he, ← hfile]
          exact h.postings m i' hm hi'
        · rintro i' ⟨⟩
          exact ⟨bytes, hpublished.artifact, hopen⟩

end Publishing

section Opening

private theorem loadIndex_reads {reads : Bool} {ρ : Type} {openIndex : List UInt8 → Result ρ}
    {disk : Disk} {entry : Option DerivedIndexManifestEntry} {i : Installed ρ}
    (h : loadIndex reads openIndex disk entry = some i) :
    ∃ bytes, disk.files i.file = some bytes ∧ openIndex bytes = .ok i.reader := by
  obtain ⟨e, rfl, h⟩ := Option.bind_eq_some_iff.mp h
  obtain ⟨bytes, hbytes, h⟩ := Option.bind_eq_some_iff.mp h
  split_ifs at h
  obtain ⟨reader, hreader, rfl⟩ := Option.map_eq_some_iff.mp h
  exact ⟨bytes, hbytes, toOption_eq_some.mp hreader⟩

theorem load (h : Covered closed b) (io : OpenIO) :
    Covered closed { b with manager := some (b.loadManager io) } where
  named := h.named.load io
  committed := h.committed
  batch := fun hin => ⟨rfl, (h.batch hin).2⟩
  indexes := h.indexes
  postings := by
    rintro m i ⟨⟩ hi
    exact loadIndex_reads hi
  tree := by
    rintro m i ⟨⟩ hi
    exact loadIndex_reads hi

theorem markInUse (h : Covered False b) (hm : b.manager = some m) (io : OpenIO) :
    Covered ((b.markInUse io m).1.manager = none) (b.markInUse io m).1 := by
  have hsame := (h.named.memory m hm).manifest
  have hentries : ∀ kind, (b.disk.writeManifest io.marksInUse
      { m.manifest with positionIndexDirty := true }).1.manifest.entry kind =
        b.disk.manifest.entry kind := by
    intro kind
    by_cases hnot : io.marksInUse.outcome = .notPublished
    · rw [Disk.writeManifest_notPublished hnot]
    · rw [Disk.writeManifest_manifest hnot, ← hsame.entries kind]
      cases kind <;> rfl
  have hopened : Covered False { b with
      disk := (b.disk.writeManifest io.marksInUse { m.manifest with positionIndexDirty := true }).1
      manager := some { m with manifest := { m.manifest with positionIndexDirty := true } } } := by
    refine ⟨h.named.marked hm io.marksInUse, h.committed, fun hin => ⟨rfl, fun kind => ?_⟩, ?_, ?_, ?_⟩
    · exact (hentries kind).trans ((h.batch hin).2 kind)
    · intro kind e bytes he hbytes
      rw [Disk.writeManifest_files] at hbytes
      exact h.indexes kind e bytes ((hentries kind).symm.trans he) hbytes
    · rintro m' i ⟨⟩ hi
      rw [Disk.writeManifest_files]
      exact h.postings m i hm hi
    · rintro m' i ⟨⟩ hi
      rw [Disk.writeManifest_files]
      exact h.tree m i hm hi
  unfold Bundle.markInUse
  dsimp only
  split_ifs
  · exact hopened.mono False.elim
  · refine (hopened.close io.closes rfl).mono fun _ => ?_
    rfl

theorem «open» (h : Covered True b) (hclosed : b.manager = none) (io : OpenIO) :
    Covered ((b.open io).1.manager = none) (b.open io).1 := by
  have hbatch : b.inBatch = false := by
    cases hin : b.inBatch with
    | false => rfl
    | true => simpa [hclosed] using (h.batch hin).1
  unfold Bundle.open
  split_ifs
  · exact h.mono fun _ => hclosed
  dsimp only
  have hloaded := h.load io
  split_ifs with hcover
  · obtain ⟨i, hi⟩ := Option.isSome_iff_exists.mp hcover
    obtain ⟨bytes, hbytes, -, hindexes, e, he, hfile⟩ := hloaded.validPostings rfl hi
    refine (hloaded.checked fun e' bytes' he' hbytes' => ?_).markInUse rfl io
    obtain rfl := Option.some.inj (he.symm.trans he')
    rw [hfile] at hbytes
    obtain rfl := Option.some.inj (hbytes.symm.trans hbytes')
    exact hindexes
  · obtain ⟨hany, hrebuilt⟩ := hloaded.rebuildPositionPostings hbatch io.rebuild
    cases hrebuild : Bundle.rebuildPositionPostings io.rebuild
      { b with manager := some (b.loadManager io) } with
    | mk b' r =>
      rw [hrebuild] at hany hrebuilt
      cases r with
      | error e =>
        dsimp only
        cases hm : b'.manager with
        | none =>
          simp only [Bundle.close, hm]
          exact hany
        | some m => exact (hany.close io.closes hm).mono fun _ => by simp [Bundle.close, hm]
      | ok _ =>
        dsimp only
        cases hm : b'.manager with
        | none => exact (hrebuilt rfl).mono False.elim
        | some m => exact (hrebuilt rfl).markInUse hm io

end Opening

section Batches

/-- A batch is begun only when no index is named. -/
theorem beginBatch (h : Covered closed b) (hprepared : b.isPrepared = true) :
    Covered closed { b with inBatch := true } where
  named := h.named.of_eq rfl rfl
  committed := by
    obtain ⟨t, older, hcommits, -⟩ := h.committed
    exact ⟨t, older, hcommits, fun hnot => by cases hnot⟩
  batch := by
    intro _
    obtain ⟨m, hm, hnone⟩ := (Option.any_eq_true _ _).mp hprepared
    rw [Bool.and_eq_true, Option.isNone_iff_eq_none, Option.isNone_iff_eq_none] at hnone
    refine ⟨Option.isSome_of_eq_some hm, fun kind => ?_⟩
    rw [← (h.named.memory m hm).manifest.entries kind]
    cases kind with
    | postings => exact hnone.1
    | tree => exact hnone.2
  indexes := h.indexes
  postings := h.postings
  tree := h.tree

theorem endBatch (h : Covered closed b) (hbatch : b.inBatch = true) {t : Tables}
    {commits : List Tables} (hcommits : commits.head? = some t) :
    Covered closed { b with tables := t, commits, inBatch := false } where
  named := h.named.of_eq rfl rfl
  committed := by
    obtain ⟨older, rfl⟩ := List.head?_eq_some_iff.mp hcommits
    exact ⟨t, older, rfl, fun _ => rfl⟩
  batch := nofun
  indexes := by
    intro kind e bytes he
    rw [(h.batch hbatch).2 kind] at he
    cases he
  postings := h.postings
  tree := h.tree

end Batches

end Covered

section Steps

variable {moveHash : List UInt16 → UInt64}

/-- What may come back after a power failure: the indexes of the surviving manifest whose files
survive have to fit the surviving tables. Every other action is allowed. -/
def SurvivorsFit (b : Bundle ix) : Action → Prop
  | .powerFailure manifest commit lost => ∀ d t, b.disk.manifests[manifest]? = some d →
      b.commits[commit]? = some t → ∀ kind e bytes, d.entry kind = some e →
        lost e.filename = false → b.disk.files e.filename = some bytes → ix.Fits kind True t bytes
  | _ => True

theorem powerFailure_manager {manifest commit : ℕ} {lost : BundleFile → Bool}
    (hstep : b.powerFailure manifest commit lost = some b') : b'.manager = none := by
  unfold Bundle.powerFailure at hstep
  split at hstep
  next => exact Option.some.inj hstep ▸ rfl
  next => cases hstep

theorem Covered.powerFailure (h : Covered closed b) {manifest commit : ℕ} {lost : BundleFile → Bool}
    (hfits : SurvivorsFit b (.powerFailure manifest commit lost))
    (hstep : b.powerFailure manifest commit lost = some b') : Covered True b' := by
  have hnamed := h.named.powerFailure hstep
  unfold Bundle.powerFailure at hstep
  split at hstep
  next d t older hd ht =>
    have hcommit : b.commits[commit]? = some t := by
      rw [← List.head?_drop, ht]
      rfl
    obtain rfl := Option.some.inj hstep
    refine ⟨hnamed, ⟨t, older, rfl, fun _ => rfl⟩, nofun, ?_, ?_, ?_⟩
    · intro kind e bytes he hbytes
      dsimp only at hbytes
      split_ifs at hbytes with hlost
      exact hfits d t hd hcommit kind e bytes he (by simpa using hlost) hbytes
    · rintro m i ⟨⟩
    · rintro m i ⟨⟩
  next => cases hstep

private theorem manager_eq_none_of_step {a : Action} (hopen : ∀ io, a ≠ .open io)
    (hclosed : b.manager = none) (hstep : b.step moveHash a = some b') : b'.manager = none := by
  cases a <;> simp only [Bundle.step, Option.ite_none_left_eq_some, Option.ite_none_right_eq_some,
    Option.some.injEq, Option.map_eq_some_iff] at hstep
  case «open» io => exact absurd rfl (hopen io)
  case close io => simp [← hstep, Bundle.close, hclosed]
  case crash => exact hstep ▸ rfl
  case powerFailure => exact powerFailure_manager hstep
  case insertGame =>
    simp [← hstep.2, insertGame, mutate, Bundle.prepareCanonicalMutation, hclosed]
  case patchGameMetadata => simp [← hstep.2, patchGameMetadata, hclosed]
  case removeGame =>
    simp [← hstep.2, removeGame, mutate, Bundle.prepareCanonicalMutation, hclosed]
  case removeUserGame => simp [← hstep.2, removeUserGame, hclosed]
  case setManualGameProvenance =>
    simp [← hstep.2, setManualGameProvenance, hclosed]
  case rebuildPositionPostings => simp [← hstep.2, rebuildPositionPostings, hclosed]
  case rebuildOpeningTreeIndex => simp [← hstep.2, rebuildOpeningTreeIndex, hclosed]
  case prepareCanonicalMutation =>
    simp [← hstep.2, Bundle.prepareCanonicalMutation, hclosed]
  case beginBatch => exact hstep.2 ▸ hclosed
  case write =>
    obtain ⟨-, t, -, rfl⟩ := hstep
    exact hclosed
  case commitBatch => exact hstep.2 ▸ hclosed
  case rollbackBatch => exact hstep.2 ▸ hclosed
  case repair =>
    obtain ⟨-, r, -, rfl⟩ := hstep
    exact hclosed

/-- Every step keeps the cover, when what survives a power failure fits. -/
theorem Covered.step (h : Covered (b.manager = none) b) (hlawful : ix.Lawful) {a : Action}
    (hfits : SurvivorsFit b a) (hstep : b.step moveHash a = some b') :
    Covered (b'.manager = none) b' := by
  have hstays : (∀ io, a ≠ .open io) → b.manager = none → b'.manager = none :=
    fun hopen hclosed => manager_eq_none_of_step hopen hclosed hstep
  cases a <;> simp only [Bundle.step, Option.ite_none_left_eq_some, Option.ite_none_right_eq_some,
    Option.some.injEq, Option.map_eq_some_iff, Bool.not_eq_true] at hstep
  case «open» io =>
    obtain ⟨hclosed, rfl⟩ := hstep
    exact (h.mono fun _ => trivial).open (Option.isNone_iff_eq_none.mp hclosed) io
  case close io =>
    subst hstep
    cases hm : b.manager with
    | none =>
      simp only [Bundle.close, hm]
      exact h.mono fun _ => trivial
    | some m =>
      refine (h.close io hm).mono fun _ => ?_
      simp only [Bundle.close, hm]
  case crash => exact hstep ▸ h.crash.mono fun _ => rfl
  case powerFailure =>
    exact (h.powerFailure hfits hstep).mono fun _ => powerFailure_manager hstep
  case insertGame io works game =>
    have hcovered := h.insertGame moveHash io works game
    rw [hstep.2] at hcovered
    exact hcovered.mono (hstays (by simp))
  case patchGameMetadata io works id patch =>
    have hcovered := h.patchGameMetadata moveHash io works id patch
    rw [hstep.2] at hcovered
    exact hcovered.mono (hstays (by simp))
  case removeGame io works id =>
    have hcovered := h.removeGame io works id
    rw [hstep.2] at hcovered
    exact hcovered.mono (hstays (by simp))
  case removeUserGame io works id =>
    have hcovered := h.removeUserGame io works id
    rw [hstep.2] at hcovered
    exact hcovered.mono (hstays (by simp))
  case setManualGameProvenance works id label status =>
    have hcovered := h.setManualGameProvenance works id label status
    rw [hstep.2] at hcovered
    exact hcovered.mono (hstays (by simp))
  case rebuildPositionPostings io =>
    have hcovered := (h.rebuildPositionPostings hstep.1 io).1
    rw [hstep.2] at hcovered
    exact hcovered.mono (hstays (by simp))
  case rebuildOpeningTreeIndex io =>
    have hcovered := h.rebuildOpeningTreeIndex hstep.1 io
    rw [hstep.2] at hcovered
    exact hcovered.mono (hstays (by simp))
  case prepareCanonicalMutation io =>
    have hcovered := h.prepareCanonicalMutation io
    rw [hstep.2] at hcovered
    exact hcovered.mono (hstays (by simp))
  case beginBatch =>
    obtain ⟨hguard, rfl⟩ := hstep
    simp only [Bool.or_eq_false_iff, Bool.not_eq_false'] at hguard
    exact (h.beginBatch hguard.2).mono (hstays (by simp))
  case write w =>
    obtain ⟨hbatch, t, -, rfl⟩ := hstep
    exact (h.store_of_unnamed t (h.batch hbatch).2).mono (hstays (by simp))
  case commitBatch =>
    obtain ⟨hbatch, rfl⟩ := hstep
    exact (h.endBatch hbatch rfl).mono (hstays (by simp))
  case rollbackBatch =>
    obtain ⟨hbatch, rfl⟩ := hstep
    obtain ⟨t, older, hcommits, -⟩ := h.committed
    refine (h.endBatch hbatch ?_).mono (hstays (by simp))
    rw [hcommits]
    rfl
  case repair =>
    obtain ⟨hguard, r, hr, rfl⟩ := hstep
    simp only [Bool.or_eq_false_iff] at hguard
    have hopened : b.manager ≠ none := Option.isSome_iff_ne_none.mp (by simpa using hguard.1.2)
    refine (h.store fun kind e bytes _ hfits => ?_).mono (hstays (by simp))
    exact (hfits.mono hopened).deduplicate hlawful hguard.2 (toOption_eq_some.mp hr)

private theorem covered_created (name createdAt : String) :
    Covered True (created name createdAt : Bundle ix) where
  named := wellNamed_created name createdAt
  committed := ⟨.empty, [], rfl, fun _ => rfl⟩
  batch := by rintro ⟨⟩
  indexes := by
    intro kind e bytes he
    cases kind <;> cases he
  postings := by rintro m i ⟨⟩
  tree := by rintro m i ⟨⟩

theorem Reaches.covered (hlawful : ix.Lawful) {name createdAt : String}
    (h : Reaches moveHash SurvivorsFit name createdAt b) : Covered (b.manager = none) b := by
  induction h with
  | refl => exact (covered_created name createdAt).mono fun _ => rfl
  | tail _ hfits hstep ih => exact ih.step hlawful hfits hstep

end Steps

end Bundle

end MotifChess.Db
