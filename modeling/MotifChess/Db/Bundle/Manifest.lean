/- GID: MotifChess/Db/Bundle/Manifest
   generality: implementation
   digest: The files of a bundle directory: index artifacts by build number, and the manifest. -/

import MotifChess.Db.Types
import Std.Data.String.ToNat
import Mathlib.Data.String.Basic

set_option autoImplicit false
set_option relaxedAutoImplicit false

namespace MotifChess.Db

inductive IndexKind
  | postings
  | tree
  deriving DecidableEq

/-- A file that an index build writes: an artifact, or the staging file that becomes it. -/
inductive BundleFile
  | artifact (kind : IndexKind) (buildSeq : ℕ)
  | building (kind : IndexKind) (buildSeq : ℕ)
  deriving DecidableEq

def IndexKind.baseName : IndexKind → String
  | .postings => "positions.postings"
  | .tree => "opening_tree.idx"

namespace BundleFile

def fileName : BundleFile → String
  | artifact kind seq => kind.baseName ++ "." ++ Nat.repr seq
  | building kind seq => kind.baseName ++ "." ++ (Nat.repr seq ++ ".building")

private theorem isDigit_of_mem_repr {n : ℕ} {c : Char} (h : c ∈ (Nat.repr n).toList) :
    c.isDigit = true := by
  rw [Nat.toList_repr] at h
  exact Nat.isDigit_of_mem_toDigits (by decide) (by decide) h

private theorem repr_append_ne (m n : ℕ) :
    Nat.repr m ≠ Nat.repr n ++ ".building" := by
  intro h
  have hmem : 'g' ∈ (Nat.repr m).toList := by
    rw [h, String.toList_append]
    exact List.mem_append_right _ (by decide)
  exact absurd (isDigit_of_mem_repr hmem) (by decide)

private theorem head?_baseName_append (kind : IndexKind) (rest : String) :
    (kind.baseName ++ "." ++ rest).toList.head? =
      some (match kind with | .postings => 'p' | .tree => 'o') := by
  cases kind <;> simp [IndexKind.baseName]

private theorem baseName_append_inj {kind kind' : IndexKind} {rest rest' : String}
    (h : kind.baseName ++ "." ++ rest = kind'.baseName ++ "." ++ rest') :
    kind = kind' ∧ rest = rest' := by
  have hkind : kind = kind' := by
    have hhead := head?_baseName_append kind rest
    rw [h, head?_baseName_append kind' rest'] at hhead
    cases kind <;> cases kind' <;> first | rfl | simp at hhead
  subst hkind
  exact ⟨rfl, (String.append_right_inj _).mp h⟩

theorem fileName_injective : Function.Injective fileName := by
  intro a b h
  rcases a with ⟨kind, m⟩ | ⟨kind, m⟩ <;> rcases b with ⟨kind', n⟩ | ⟨kind', n⟩ <;>
    rw [fileName, fileName] at h <;>
    obtain ⟨rfl, hrest⟩ := baseName_append_inj h
  · rw [Nat.repr_injective hrest]
  · exact absurd hrest (repr_append_ne m n)
  · exact absurd hrest.symm (repr_append_ne n m)
  · rw [Nat.repr_injective ((String.append_left_inj _).mp hrest)]

end BundleFile

structure DerivedIndexManifestEntry where
  filename : BundleFile
  sourceGeneration : ℕ
  gameCount : ℕ
  fileSize : ℕ
  checksum : UInt64
  deriving DecidableEq

structure DbManifest where
  name : String
  schemaVersion : ℕ := 1
  gameCount : ℕ := 0
  createdAt : String
  positionIndexDirty : Bool := false
  sourceGeneration : ℕ := 0
  derivedIndexBuildSeq : ℕ := 0
  positionPostings : Option DerivedIndexManifestEntry := none
  openingTreeIndex : Option DerivedIndexManifestEntry := none
  deriving DecidableEq

namespace DbManifest

def entry (kind : IndexKind) (m : DbManifest) : Option DerivedIndexManifestEntry :=
  match kind with
  | .postings => m.positionPostings
  | .tree => m.openingTreeIndex

def setEntry (kind : IndexKind) (e : DerivedIndexManifestEntry) (m : DbManifest) : DbManifest :=
  match kind with
  | .postings => { m with positionPostings := some e }
  | .tree => { m with openingTreeIndex := some e }

@[simp] theorem entry_setEntry_self (kind : IndexKind) (e : DerivedIndexManifestEntry)
    (m : DbManifest) : (m.setEntry kind e).entry kind = some e := by
  cases kind <;> rfl

theorem entry_setEntry_of_ne {kind other : IndexKind} (h : other ≠ kind)
    (e : DerivedIndexManifestEntry) (m : DbManifest) :
    (m.setEntry kind e).entry other = m.entry other := by
  cases kind <;> cases other <;> first | rfl | exact absurd rfl h

@[simp] theorem setEntry_derivedIndexBuildSeq (kind : IndexKind) (e : DerivedIndexManifestEntry)
    (m : DbManifest) : (m.setEntry kind e).derivedIndexBuildSeq = m.derivedIndexBuildSeq := by
  cases kind <;> rfl

@[simp] theorem setEntry_sourceGeneration (kind : IndexKind) (e : DerivedIndexManifestEntry)
    (m : DbManifest) : (m.setEntry kind e).sourceGeneration = m.sourceGeneration := by
  cases kind <;> rfl

end DbManifest

inductive ManifestWriteState
  | notPublished
  | published
  | publishedNotDurable
  deriving DecidableEq

/-- What the file system does in one manifest write. -/
structure ManifestIO where
  opensTemp : Bool := true
  writes : Bool := true
  closes : Bool := true
  syncsTemp : Bool := true
  renames : Bool := true
  syncsDirectory : Bool := true

/-- How far a manifest write gets: a temporary file is written and synced, renamed over the
manifest, and the directory synced. -/
def ManifestIO.outcome (io : ManifestIO) : ManifestWriteState :=
  if !(io.opensTemp && io.writes && io.closes && io.syncsTemp && io.renames) then .notPublished
  else if io.syncsDirectory then .published
  else .publishedNotDurable

/-- The directory of a bundle. A manifest that was published without syncing the directory may give
way to an older one in a power failure. -/
structure Disk where
  manifest : DbManifest
  undurable : List DbManifest := []
  files : BundleFile → Option (List UInt8)

namespace Disk

/-- `write_manifest`. -/
def writeManifest (io : ManifestIO) (m : DbManifest) (disk : Disk) : Disk × ManifestWriteState :=
  match io.outcome with
  | .notPublished => (disk, .notPublished)
  | .published => ({ disk with manifest := m, undurable := [] }, .published)
  | .publishedNotDurable =>
    ({ disk with manifest := m, undurable := disk.manifest :: disk.undurable },
      .publishedNotDurable)

/-- The manifests that a power failure may leave. -/
def manifests (disk : Disk) : List DbManifest := disk.manifest :: disk.undurable

def setFile (file : BundleFile) (bytes : Option (List UInt8)) (disk : Disk) : Disk :=
  { disk with files := fun other => if other = file then bytes else disk.files other }

/-- A removal that fails is ignored. -/
def remove (works : Bool) (file : BundleFile) (disk : Disk) : Disk :=
  if works then disk.setFile file none else disk

@[simp] theorem setFile_manifest (file : BundleFile) (bytes : Option (List UInt8)) (disk : Disk) :
    (disk.setFile file bytes).manifest = disk.manifest := rfl

@[simp] theorem setFile_undurable (file : BundleFile) (bytes : Option (List UInt8)) (disk : Disk) :
    (disk.setFile file bytes).undurable = disk.undurable := rfl

theorem setFile_files_of_ne {file other : BundleFile} (h : other ≠ file)
    (bytes : Option (List UInt8)) (disk : Disk) :
    (disk.setFile file bytes).files other = disk.files other := if_neg h

@[simp] theorem setFile_files_self (file : BundleFile) (bytes : Option (List UInt8)) (disk : Disk) :
    (disk.setFile file bytes).files file = bytes := if_pos rfl

@[simp] theorem remove_manifest (works : Bool) (file : BundleFile) (disk : Disk) :
    (disk.remove works file).manifest = disk.manifest := by
  cases works <;> rfl

@[simp] theorem remove_undurable (works : Bool) (file : BundleFile) (disk : Disk) :
    (disk.remove works file).undurable = disk.undurable := by
  cases works <;> rfl

theorem remove_files_of_ne {file other : BundleFile} (h : other ≠ file) (works : Bool)
    (disk : Disk) : (disk.remove works file).files other = disk.files other := by
  cases works with
  | false => rfl
  | true => exact setFile_files_of_ne h none disk

@[simp] theorem writeManifest_state (io : ManifestIO) (m : DbManifest) (disk : Disk) :
    (disk.writeManifest io m).2 = io.outcome := by
  unfold writeManifest
  cases io.outcome <;> rfl

@[simp] theorem writeManifest_files (io : ManifestIO) (m : DbManifest) (disk : Disk) :
    (disk.writeManifest io m).1.files = disk.files := by
  unfold writeManifest
  cases io.outcome <;> rfl

theorem writeManifest_notPublished {io : ManifestIO} (h : io.outcome = .notPublished)
    (m : DbManifest) (disk : Disk) : (disk.writeManifest io m).1 = disk := by
  rw [writeManifest, h]

theorem writeManifest_manifest {io : ManifestIO} (h : io.outcome ≠ .notPublished)
    (m : DbManifest) (disk : Disk) : (disk.writeManifest io m).1.manifest = m := by
  unfold writeManifest
  cases houtcome : io.outcome with
  | notPublished => exact absurd houtcome h
  | published => rfl
  | publishedNotDurable => rfl

theorem mem_manifests_writeManifest {io : ManifestIO} {m d : DbManifest} {disk : Disk}
    (h : d ∈ (disk.writeManifest io m).1.manifests) : d = m ∨ d ∈ disk.manifests := by
  rw [writeManifest] at h
  cases houtcome : io.outcome <;> rw [houtcome] at h
  · exact .inr h
  · exact .inl (List.mem_singleton.mp h)
  · rcases List.mem_cons.mp h with rfl | hold
    · exact .inl rfl
    · exact .inr hold

end Disk

/-- FNV-1a over the bytes of a file. -/
def fileChecksum (bytes : List UInt8) : UInt64 :=
  bytes.foldl (fun checksum byte => (checksum ^^^ byte.toUInt64) * 1099511628211)
    14695981039346656037

/-- `artifact_matches_manifest`. -/
def artifactMatchesManifest (disk : Disk) (e : DerivedIndexManifestEntry) : Bool :=
  match disk.files e.filename with
  | none => false
  | some bytes => bytes.length = e.fileSize && fileChecksum bytes = e.checksum

end MotifChess.Db
