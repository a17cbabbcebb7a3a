/- GID: MotifChess/Db/Bundle/DatabaseManager
   generality: implementation
   digest: The manager of a bundle: opening, mutations, index rebuilds and the validity of indexes. -/

import MotifChess.Db.Bundle.Manifest
import MotifChess.Db.ReplayGame

set_option autoImplicit false
set_option relaxedAutoImplicit false

namespace MotifChess.Db

/-- The two index formats: the bytes that are built from the games, and the readers that open them.
The tree takes its child counts from the postings. -/
structure Indexes where
  Postings : Type
  buildPostings : List ReplayGame → Result (List UInt8)
  openPostings : List UInt8 → Result Postings
  indexedGameCount : Postings → ℕ
  Tree : Type
  buildTree : List ReplayGame → Postings → List UInt8 → Result (List UInt8)
  openTree : List UInt8 → Result Tree
  sourceGameCount : Tree → ℕ

/-- The postings of the program, and a tree index of any format. -/
def Indexes.ofRules (rules : Chess.Rules) (Tree : Type)
    (buildTree : List ReplayGame → PositionPostings.Reader → List UInt8 → Result (List UInt8))
    (openTree : List UInt8 → Result Tree) (sourceGameCount : Tree → ℕ) : Indexes where
  Postings := PositionPostings.Reader
  buildPostings := PositionPostings.build rules PositionPostings.defaultSpillThreshold
  openPostings := PositionPostings.openArtifact
  indexedGameCount := fun reader => reader.header.indexedGameCount
  Tree := Tree
  buildTree := buildTree
  openTree := openTree
  sourceGameCount := sourceGameCount

/-- The postings of the program, in a program that never builds a tree index. -/
def Indexes.withoutTree (rules : Chess.Rules) : Indexes :=
  .ofRules rules Unit (fun _ _ _ => .error .ioFailure) (fun _ => .error .ioFailure) fun _ => 0

/-- A reader and the file that it reads from at every query. -/
structure Installed (ρ : Type) where
  file : BundleFile
  reader : ρ

/-- The members of an open `database_manager`, beside its connection. -/
structure Manager (ix : Indexes) where
  manifest : DbManifest
  positionPostings : Option (Installed ix.Postings) := none
  openingTreeIndex : Option (Installed ix.Tree) := none

/-- A bundle: the tables as the connection sees them, the states that were committed (the latest
first), the directory, and the manager that has it open. -/
structure Bundle (ix : Indexes) where
  tables : Tables
  commits : List Tables
  inBatch : Bool := false
  disk : Disk
  manager : Option (Manager ix) := none

variable {ix : Indexes}

section Validity

def Manager.hasValidDerivedIndex (m : Manager ix) (e : DerivedIndexManifestEntry) : Bool :=
  e.sourceGeneration = m.manifest.sourceGeneration

/-- The postings that queries may use: those of the manifest's entry, when the generation is the
current one and they index as many games as are stored. -/
def Manager.validPostings (t : Tables) (m : Manager ix) : Option (Installed ix.Postings) := do
  let e ← m.manifest.positionPostings
  let i ← m.positionPostings
  if m.hasValidDerivedIndex e && t.countGames = ix.indexedGameCount i.reader then some i else none

def Manager.postingsCoverCanonicalGames (t : Tables) (m : Manager ix) : Bool :=
  (m.validPostings t).isSome

/-- The tree index that opening queries may use, when the postings are valid. -/
def Manager.validTree (t : Tables) (m : Manager ix) : Option (Installed ix.Tree) := do
  let e ← m.manifest.openingTreeIndex
  let i ← m.openingTreeIndex
  if m.hasValidDerivedIndex e && t.countGames = ix.sourceGameCount i.reader then some i else none

/-- What the answer to a query is told from: the stored games, and the readers and files of the
indexes that are valid. -/
structure View (ix : Indexes) where
  tables : Tables
  postings : Option (ix.Postings × Option (List UInt8))
  tree : Option (ix.Tree × Option (List UInt8))

/-- A position or opening query: a closed bundle and one without valid postings have no answer, any
other answers from its view. -/
def Bundle.view (b : Bundle ix) : Option (View ix) :=
  b.manager.map fun m => ⟨b.tables,
    (m.validPostings b.tables).map fun i => (i.reader, b.disk.files i.file),
    (m.validTree b.tables).map fun i => (i.reader, b.disk.files i.file)⟩

end Validity

namespace Bundle

section Publishing

/-- What the file system does in one index rebuild, and what a failed one leaves under the names of
its own files. -/
structure RebuildIO where
  builds : Bool := true
  opensStaged : Bool := true
  renames : Bool := true
  opensLive : Bool := true
  syncs : Bool := true
  checksums : Bool := true
  counts : Bool := true
  manifest : ManifestIO := {}
  leftover : BundleFile → Option (List UInt8) := fun _ => none
  removesPrevious : Bool := true

/-- The manifest around a new artifact. -/
def publishedManifest (kind : IndexKind) (bytes : List UInt8) (m : Manager ix) (b : Bundle ix) :
    DbManifest :=
  { m.manifest with derivedIndexBuildSeq := m.manifest.derivedIndexBuildSeq + 1 }.setEntry kind
    { filename := .artifact kind m.manifest.derivedIndexBuildSeq
      sourceGeneration := m.manifest.sourceGeneration
      gameCount := b.tables.countGames
      fileSize := bytes.length
      checksum := fileChecksum bytes }

/-- `publish_derived_index`: the synced artifact gets its manifest entry. -/
def publishDerivedIndex (kind : IndexKind) (io : RebuildIO) (bytes : List UInt8) (m : Manager ix)
    (b : Bundle ix) (disk : Disk) : Disk × ManifestWriteState :=
  if !(io.syncs && io.checksums && io.counts) then (disk, .notPublished)
  else disk.writeManifest io.manifest (b.publishedManifest kind bytes m)

/-- Build a staging file, read it back, rename it and open the reader of the renamed file. -/
def stageIndex {ρ : Type} (io : RebuildIO) (built : Result (List UInt8))
    (openIndex : List UInt8 → Result ρ) : Result (List UInt8 × ρ) := do
  let bytes ← if io.builds then built else .error .ioFailure
  let _ ← if io.opensStaged then openIndex bytes else .error .ioFailure
  if !io.renames then .error .ioFailure
  else
    let reader ← if io.opensLive then openIndex bytes else .error .ioFailure
    return (bytes, reader)

/-- The staging file and the new artifact of a rebuild that failed. -/
def abandon (kind : IndexKind) (seq : ℕ) (io : RebuildIO) (disk : Disk) : Disk :=
  (disk.setFile (.building kind seq) (io.leftover (.building kind seq))).setFile
    (.artifact kind seq) (io.leftover (.artifact kind seq))

def removePrevious (kind : IndexKind) (io : RebuildIO) (m : Manager ix) (disk : Disk) : Disk :=
  match m.manifest.entry kind with
  | none => disk
  | some e =>
    if e.filename = .artifact kind m.manifest.derivedIndexBuildSeq then disk
    else disk.remove io.removesPrevious e.filename

/-- A rebuild: the new artifact is published under a name of its own, and only then installed. -/
def rebuildIndex {ρ : Type} (kind : IndexKind) (io : RebuildIO) (built : Result (List UInt8))
    (openIndex : List UInt8 → Result ρ) (install : Installed ρ → Manager ix → Manager ix)
    (m : Manager ix) (b : Bundle ix) : Bundle ix × Result Unit :=
  let seq := m.manifest.derivedIndexBuildSeq
  match stageIndex io built openIndex with
  | .error e => ({ b with disk := abandon kind seq io b.disk }, .error e)
  | .ok (bytes, reader) =>
    let renamed := (b.disk.setFile (.building kind seq) none).setFile (.artifact kind seq) (some bytes)
    let installed := install ⟨.artifact kind seq, reader⟩
      { m with manifest := b.publishedManifest kind bytes m }
    match b.publishDerivedIndex kind io bytes m renamed with
    | (disk, .notPublished) => ({ b with disk := abandon kind seq io disk }, .error .ioFailure)
    | (disk, .publishedNotDurable) => ({ b with disk, manager := some installed }, .error .ioFailure)
    | (disk, .published) =>
      ({ b with disk := removePrevious kind io m disk, manager := some installed }, .ok ())

def installPostings (i : Installed ix.Postings) (m : Manager ix) : Manager ix :=
  { m with positionPostings := some i }

def installTree (i : Installed ix.Tree) (m : Manager ix) : Manager ix :=
  { m with openingTreeIndex := some i }

def rebuildPositionPostings (io : RebuildIO) (b : Bundle ix) : Bundle ix × Result Unit :=
  match b.manager with
  | none => (b, .error .invalidArgument)
  | some m => b.rebuildIndex .postings io (ix.buildPostings b.tables.replayGames) ix.openPostings
      installPostings m

/-- The bytes of a tree index, from the games and the child counts that the postings file has. -/
def treeBytes (i : Installed ix.Postings) (b : Bundle ix) : Result (List UInt8) :=
  match b.disk.files i.file with
  | none => .error .ioFailure
  | some bytes => ix.buildTree b.tables.replayGames i.reader bytes

def rebuildOpeningTreeIndex (io : RebuildIO) (b : Bundle ix) : Bundle ix × Result Unit :=
  match b.manager with
  | none => (b, .error .invalidArgument)
  | some m =>
    match m.validPostings b.tables with
    | none => (b, .error .invalidArgument)
    | some i => b.rebuildIndex .tree io (b.treeBytes i) ix.openTree installTree m

end Publishing

section Invalidation

structure StaleIO where
  manifest : ManifestIO := {}
  removes : Bool := true

/-- The manifest of the next generation, without index entries. -/
def staleManifest (m : DbManifest) : DbManifest :=
  { m with
    sourceGeneration := m.sourceGeneration + 1
    positionPostings := none
    openingTreeIndex := none }

def removeArtifact (works : Bool) (e : Option DerivedIndexManifestEntry) (disk : Disk) : Disk :=
  match e with
  | none => disk
  | some e => disk.remove works e.filename

def markDerivedIndexesStale (io : StaleIO) (m : Manager ix) (b : Bundle ix) :
    Bundle ix × Result Unit :=
  match b.disk.writeManifest io.manifest (staleManifest m.manifest) with
  | (_, .notPublished) => (b, .error .ioFailure)
  | (disk, state) =>
    let disk := removeArtifact io.removes m.manifest.openingTreeIndex
      (removeArtifact io.removes m.manifest.positionPostings disk)
    ({ b with disk, manager := some { manifest := staleManifest m.manifest } },
      if state = .published then .ok () else .error .ioFailure)

def prepareCanonicalMutation (io : StaleIO) (b : Bundle ix) : Bundle ix × Result Unit :=
  match b.manager with
  | none => (b, .error .ioFailure)
  | some m =>
    if m.manifest.positionPostings.isNone && m.manifest.openingTreeIndex.isNone then (b, .ok ())
    else b.markDerivedIndexesStale io m

end Invalidation

section Mutations

variable (moveHash : List UInt16 → UInt64)

/-- New tables on the connection: committed, unless a batch is open. -/
def store (t : Tables) (b : Bundle ix) : Bundle ix :=
  { b with tables := t, commits := if b.inBatch then b.commits else t :: b.commits }

/-- A change of the tables that fails when SQLite does. -/
def change {α : Type} (works : Bool) (write : Tables → Tables × Result α) (b : Bundle ix) :
    Bundle ix × Result α :=
  if !works then (b, .error .ioFailure)
  else (b.store (write b.tables).1, (write b.tables).2)

/-- All of a write, or an error and nothing of it. -/
def orUnchanged (write : Tables → Result Tables) (t : Tables) : Tables × Result Unit :=
  match write t with
  | .ok t' => (t', .ok ())
  | .error e => (t, .error e)

/-- The mutations prepare the indexes first, then write. -/
def mutate {α : Type} (io : StaleIO) (works : Bool) (write : Tables → Tables × Result α)
    (b : Bundle ix) : Bundle ix × Result α :=
  match b.prepareCanonicalMutation io with
  | (b, .error e) => (b, .error e)
  | (b, .ok ()) => b.change works write

def insertGame (io : StaleIO) (works : Bool) (game : Game) (b : Bundle ix) : Bundle ix × Result ℕ :=
  b.mutate io works (Tables.alone fun t => t.insert moveHash game)

/-- Whether a patch changes what the indexes are built from. -/
def affectsDerived (patch : GamePatch) : Bool :=
  patch.whiteElo.isSome || patch.blackElo.isSome || patch.result.isSome

def patchGameMetadata (io : StaleIO) (works : Bool) (id : ℕ) (patch : GamePatch) (b : Bundle ix) :
    Bundle ix × Result Unit :=
  if b.manager.isNone then (b, .error .ioFailure)
  else
    match narrowElo patch.whiteElo, narrowElo patch.blackElo with
    | .error e, _ => (b, .error e)
    | .ok _, .error e => (b, .error e)
    | .ok _, .ok _ =>
      if affectsDerived patch then
        b.mutate io works (orUnchanged fun t => t.patchMetadata moveHash id patch)
      else b.change works (orUnchanged fun t => t.patchMetadata moveHash id patch)

def removeGame (io : StaleIO) (works : Bool) (id : ℕ) (b : Bundle ix) : Bundle ix × Result Unit :=
  b.mutate io works (orUnchanged fun t => t.remove id)

def removeUserGame (io : StaleIO) (works : Bool) (id : ℕ) (b : Bundle ix) :
    Bundle ix × Result Unit :=
  if b.manager.isNone then (b, .error .ioFailure)
  else
    match b.tables.findGame id with
    | .error e => (b, .error e)
    | .ok row =>
      if row.stored.provenance.read.sourceType ≠ "manual" then (b, .error .notEditable)
      else b.removeGame io works id

def setManualGameProvenance (works : Bool) (id : ℕ) (sourceLabel : Option String)
    (reviewStatus : String) (b : Bundle ix) : Bundle ix × Result Unit :=
  if b.manager.isNone then (b, .error .ioFailure)
  else b.change works (orUnchanged fun t => t.setManualProvenance id sourceLabel reviewStatus)

end Mutations

section Lifecycle

/-- `close`: the manifest is refreshed at best effort; a clean one says so. An open batch is lost. -/
def close (io : ManifestIO) (b : Bundle ix) : Bundle ix :=
  match b.manager with
  | none => b
  | some m =>
    let manifest := { m.manifest with
      gameCount := b.tables.countGames
      positionIndexDirty :=
        if m.postingsCoverCanonicalGames b.tables then false else m.manifest.positionIndexDirty }
    { b with
      tables := b.commits.headD b.tables
      inBatch := false
      disk := (b.disk.writeManifest io manifest).1
      manager := none }

/-- The process ends without closing. -/
def crash (b : Bundle ix) : Bundle ix :=
  { b with tables := b.commits.headD b.tables, inBatch := false, manager := none }

/-- The reader of a manifest entry, when its file is the one that was published. -/
def loadIndex {ρ : Type} (reads : Bool) (openIndex : List UInt8 → Result ρ) (disk : Disk)
    (e : Option DerivedIndexManifestEntry) : Option (Installed ρ) := do
  let e ← e
  let bytes ← disk.files e.filename
  if reads && artifactMatchesManifest disk e then
    (openIndex bytes).toOption.map (Installed.mk e.filename)
  else none

/-- What the file system does while a bundle is opened. -/
structure OpenIO where
  opensStore : Bool := true
  readsPostings : Bool := true
  readsTree : Bool := true
  rebuild : RebuildIO := {}
  marksInUse : ManifestIO := {}
  closes : ManifestIO := {}

/-- The manager of an opened bundle before it is checked. -/
def loadManager (io : OpenIO) (b : Bundle ix) : Manager ix where
  manifest := b.disk.manifest
  positionPostings :=
    loadIndex io.readsPostings ix.openPostings b.disk b.disk.manifest.positionPostings
  openingTreeIndex := loadIndex io.readsTree ix.openTree b.disk b.disk.manifest.openingTreeIndex

def markInUse (io : OpenIO) (m : Manager ix) (b : Bundle ix) : Bundle ix × Result Unit :=
  let m := { m with manifest := { m.manifest with positionIndexDirty := true } }
  let (disk, state) := b.disk.writeManifest io.marksInUse m.manifest
  let b := { b with disk, manager := some m }
  if state = .published then (b, .ok ()) else (b.close io.closes, .error .ioFailure)

/-- `open`: postings that do not cover the stored games are rebuilt before the bundle is used. -/
def «open» (io : OpenIO) (b : Bundle ix) : Bundle ix × Result Unit :=
  if b.manager.isSome || !io.opensStore then (b, .error .ioFailure)
  else
    let m := b.loadManager io
    let b := { b with manager := some m }
    if m.postingsCoverCanonicalGames b.tables then b.markInUse io m
    else
      match b.rebuildPositionPostings io.rebuild with
      | (b, .error e) => (b.close io.closes, .error e)
      | (b, .ok ()) =>
        match b.manager with
        | none => (b, .error .ioFailure)
        | some m => b.markInUse io m

/-- A bundle as `create` leaves it before its first index is built: a new store and a manifest. -/
def created (name createdAt : String) : Bundle ix where
  tables := .empty
  commits := [.empty]
  disk := { manifest := { name, createdAt, schemaVersion := 5 }, files := fun _ => none }

end Lifecycle

end Bundle

end MotifChess.Db
