/- GID: MotifChess/Db/PositionPrefixPostings/Sidecar
   generality: implementation
   digest: The prefix postings sidecar: append with spills, two ways to finalize, open and candidates. -/

import MotifChess.Codec.LittleEndian
import MotifChess.Db.Types
import MotifChess.Order.Buckets
import MotifChess.Order.RunMerge
import MotifChess.Order.SortBy
import Mathlib.Data.Prod.Lex

/-! Files are byte lists. The 64-bit counters count records that are distinct pairs of a prefix of at
most 24 bits and an id of 32 bits, so that they are plain natural numbers here. -/

set_option autoImplicit false
set_option relaxedAutoImplicit false

namespace MotifChess.Db.PositionPrefixPostings

open Codec LittleEndian
open MotifChess.Order.Buckets

/-- The letters `MOTIFPP1`. -/
def magic : List UInt8 := [77, 79, 84, 73, 70, 80, 80, 49]

def formatVersion : ℕ := 1

def maxPrefixBits : ℕ := 24

def validPrefixBits (prefixBits : ℕ) : Bool := decide (0 < prefixBits ∧ prefixBits ≤ maxPrefixBits)

/-- `prefix`: the highest bits of a hash. -/
def prefixOf (prefixBits : ℕ) (hash : UInt64) : ℕ := hash.toNat / 2 ^ (64 - prefixBits) % 2 ^ 32

structure Record where
  prefixValue : ℕ
  gameKey : ℕ

namespace Record

def key (r : Record) : ℕ ×ₗ ℕ := toLex (r.prefixValue, r.gameKey)

theorem key_injective : Function.Injective key := by
  rintro ⟨prefixValue, gameKey⟩ ⟨prefixValue', gameKey'⟩ h
  obtain ⟨hvalue, hgame⟩ := Prod.mk.inj (toLex.injective h)
  rw [Record.mk.injEq]
  exact ⟨hvalue, hgame⟩

instance : LinearOrder Record := LinearOrder.lift' key key_injective

def ofRow (prefixBits : ℕ) (row : PositionRow) : Record :=
  ⟨prefixOf prefixBits row.zobristHash, row.gameId.toNat⟩

def bytes (r : Record) : List UInt8 := leBytes 4 r.prefixValue ++ leBytes 4 r.gameKey

end Record

/-- `position_prefix_postings`, with the file at its path and the runs that it spilled. -/
structure Sidecar where
  prefixBits : ℕ
  spillThreshold : ℕ
  records : List Record := []
  spillFiles : List (List UInt8) := []
  offsets : List ℕ := []
  postings : List ℕ := []
  file : Option (List UInt8) := none
  deriving DecidableEq

/-- Sort the records and drop repeated ones. -/
def sortUnique (records : List Record) : List Record := unique (Order.sortBy id records)

def spillBytes (records : List Record) : List UInt8 :=
  leBytes 8 records.length ++ records.flatMap Record.bytes

def headerBytes (prefixBits postingsCount : ℕ) : List UInt8 :=
  magic ++ (leBytes 4 formatVersion ++ (leBytes 1 prefixBits ++ (leBytes 1 0 ++ (leBytes 2 0 ++
    (leBytes 8 (2 ^ prefixBits) ++ leBytes 8 postingsCount)))))

/-- How the writing of the artifact ends: it is complete, or it stops with something left in its
place. -/
inductive WriteOutcome
  | published
  | failed (left : Option (List UInt8))
  deriving DecidableEq

/-- What may go wrong outside of the program while a sidecar is finalized: the spill of the last run,
the merge into the scratch file, and the writing of the artifact. -/
structure FinalizeIO where
  spills : Bool := true
  merges : Bool := true
  write : WriteOutcome := .published

section Merge

structure Cursor where
  input : List UInt8
  remaining : ℕ
  current : Record

def openCursor (file : List UInt8) : Result Cursor :=
  match readLe 8 file with
  | some (remaining, input) => .ok ⟨input, remaining, ⟨0, 0⟩⟩
  | none => .error .ioFailure

def readRecord (input : List UInt8) : Option (Record × List UInt8) := do
  let (prefixValue, input) ← readLe 4 input
  let (gameKey, input) ← readLe 4 input
  return (⟨prefixValue, gameKey⟩, input)

/-- `advance_cursor`: the cursor at its next record, if there is one. -/
def advanceCursor (c : Cursor) : Result (Option Cursor) :=
  if c.remaining = 0 then .ok none
  else match readRecord c.input with
    | some (record, input) => .ok (some ⟨input, c.remaining - 1, record⟩)
    | none => .error .ioFailure

/-- The scratch file of the merge, the counts of the buckets and of all ids, and the last record. -/
structure MergeState where
  scratch : List UInt8
  bucketCounts : List ℕ
  totalCount : ℕ
  previous : Option Record

namespace MergeState

def init (prefixBits : ℕ) : MergeState := ⟨[], List.replicate (2 ^ prefixBits) 0, 0, none⟩

def visit (s : MergeState) (current : Record) : MergeState :=
  if s.previous = some current then s
  else
    { scratch := s.scratch ++ leBytes 4 current.gameKey
      bucketCounts := s.bucketCounts.modify current.prefixValue (· + 1)
      totalCount := s.totalCount + 1
      previous := some current }

end MergeState

def mergeSpills (prefixBits : ℕ) (spillFiles : List (List UInt8)) : Result MergeState := do
  let cursors ← spillFiles.mapM openCursor
  let heap ← cursors.mapM advanceCursor
  let fuel := (spillFiles.map List.length).sum + 1
  Order.RunMerge.mergeLoop Cursor.current advanceCursor
    (fun s record => .ok (MergeState.visit s record)) fuel heap.reduceOption (.init prefixBits)

end Merge

section Read

/-- Read so many integers. Those that cannot be read stay zero, and then nothing is left to read. -/
def readInts (width : ℕ) : ℕ → List UInt8 → List ℕ × Option (List UInt8)
  | 0, input => ([], some input)
  | n + 1, input =>
    match readLe width input with
    | none => (List.replicate (n + 1) 0, none)
    | some (value, input) =>
      let rest := readInts width n input
      (value :: rest.1, rest.2)

/-- The number of postings of a file with an acceptable header, and what comes after the header. -/
def readHeader (prefixBits : ℕ) (file : List UInt8) : Option (ℕ × List UInt8) := do
  guard (file.take 8 = magic)
  let (version, input) ← readLe 4 (file.drop 8)
  let (storedPrefixBits, input) ← readLe 1 input
  let (_, input) ← readLe 1 input
  let (_, input) ← readLe 2 input
  let (bucketCount, input) ← readLe 8 input
  let (postingsCount, input) ← readLe 8 input
  guard (version = formatVersion ∧ storedPrefixBits = prefixBits ∧
    validPrefixBits storedPrefixBits = true ∧ bucketCount = 2 ^ storedPrefixBits)
  return (postingsCount, input)

/-- What an offset table is checked for. -/
def validOffsets (postingsCount : ℕ) (offsets : List ℕ) : Bool :=
  decide (offsets.head? = some 0 ∧ offsets.getLast? = some postingsCount ∧ offsets.SortedLE)

end Read

/-- What `candidates` gives: an error, the ids, or an access outside of the arrays. -/
inductive Answer
  | failed (e : ErrorCode)
  | ids (games : List ℕ)
  | outOfBounds
  deriving DecidableEq

namespace Sidecar

/-- `spill_current_buffer`; the records are sorted even when the run cannot be written. -/
def spillCurrentBuffer (works : Bool) (s : Sidecar) : Sidecar × Result Unit :=
  if s.records.isEmpty then (s, .ok ())
  else
    let records := sortUnique s.records
    if works then
      ({ s with records := [], spillFiles := s.spillFiles ++ [spillBytes records] }, .ok ())
    else ({ s with records }, .error .ioFailure)

/-- The loop of `append`; a run is spilled as its number says. -/
def appendRows (works : ℕ → Bool) : List PositionRow → Sidecar → Sidecar × Result Unit
  | [], s => (s, .ok ())
  | row :: rows, s =>
    let s := { s with records := s.records ++ [Record.ofRow s.prefixBits row] }
    if s.spillThreshold ≤ s.records.length then
      match s.spillCurrentBuffer (works s.spillFiles.length) with
      | (s, .error e) => (s, .error e)
      | (s, .ok ()) => appendRows works rows s
    else appendRows works rows s

def append (works : ℕ → Bool) (rows : List PositionRow) (s : Sidecar) : Sidecar × Result Unit :=
  if validPrefixBits s.prefixBits then s.appendRows works rows else (s, .error .invalidArgument)

/-- The artifact is written from the offsets, and then the postings follow. -/
def writeArtifact (write : WriteOutcome) (postingsCount : ℕ) (postings : List UInt8) (s : Sidecar) :
    Sidecar × Result Unit :=
  match write with
  | .failed left => ({ s with file := left }, .error .ioFailure)
  | .published =>
    ({ s with file := some (headerBytes s.prefixBits postingsCount ++
        (s.offsets.flatMap (leBytes 8) ++ postings)) }, .ok ())

def finalizeInMemory (io : FinalizeIO) (s : Sidecar) : Sidecar × Result Unit :=
  let records := sortUnique s.records
  let counts := records.foldl (fun counts r => counts.modify (r.prefixValue + 1) (· + 1))
    (List.replicate (2 ^ s.prefixBits + 1) 0)
  let postings := records.map Record.gameKey
  let s := { s with
    records
    offsets := prefixSums (counts.headD 0) counts.tail
    postings }
  match s.writeArtifact io.write postings.length (postings.flatMap (leBytes 4)) with
  | (s, .error e) => (s, .error e)
  | (s, .ok ()) => ({ s with records := [] }, .ok ())

def finalizeExternalMerge (io : FinalizeIO) (s : Sidecar) : Sidecar × Result Unit :=
  match s.spillCurrentBuffer io.spills with
  | (s, .error e) => (s, .error e)
  | (s, .ok ()) =>
    if !io.merges then (s, .error .ioFailure)
    else match mergeSpills s.prefixBits s.spillFiles with
      | .error e => (s, .error e)
      | .ok merged =>
        let s := { s with offsets := prefixSums 0 merged.bucketCounts }
        match s.writeArtifact io.write merged.totalCount merged.scratch with
        | (s, .error e) => (s, .error e)
        | (s, .ok ()) => ({ s with spillFiles := [], postings := [], records := [] }, .ok ())

def finalize (io : FinalizeIO) (s : Sidecar) : Sidecar × Result Unit :=
  if validPrefixBits s.prefixBits then
    if s.spillFiles.isEmpty then s.finalizeInMemory io else s.finalizeExternalMerge io
  else (s, .error .invalidArgument)

/-- `open`; the arrays are replaced while they are read. A count of postings that does not fit the
memory is an exception of the source and a failed read here. -/
def openFile (s : Sidecar) : Sidecar × Result Unit :=
  match s.file with
  | none => (s, .error .ioFailure)
  | some file =>
    match readHeader s.prefixBits file with
    | none => (s, .error .schemaMismatch)
    | some (postingsCount, input) =>
      match readInts 8 (2 ^ s.prefixBits + 1) input with
      | (offsets, none) => ({ s with offsets }, .error .schemaMismatch)
      | (offsets, some input) =>
        if validOffsets postingsCount offsets then
          match readInts 4 postingsCount input with
          | (postings, none) => ({ s with offsets, postings }, .error .schemaMismatch)
          | (postings, some _) => ({ s with offsets, postings }, .ok ())
        else ({ s with offsets }, .error .schemaMismatch)

def candidates (hash : UInt64) (s : Sidecar) : Answer :=
  if s.offsets.isEmpty then .failed .invalidArgument
  else
    let prefixValue := prefixOf s.prefixBits hash
    match s.offsets[prefixValue]?, s.offsets[prefixValue + 1]? with
    | some first, some last =>
      if first ≤ last ∧ last ≤ s.postings.length then
        .ids ((s.postings.drop first).take (last - first))
      else .outOfBounds
    | _, _ => .outOfBounds

end Sidecar

end MotifChess.Db.PositionPrefixPostings
