/- GID: MotifChess/Db/PositionPostings/Reader
   generality: implementation
   digest: Opening a postings artifact with full validation, and the queries on it. -/

import MotifChess.Db.PositionPostings.PostingBlock

set_option autoImplicit false
set_option relaxedAutoImplicit false

namespace MotifChess.Db.PositionPostings

open Codec LittleEndian

/-- The letters `MOTIFPO2`. -/
def magic : List UInt8 := [77, 79, 84, 73, 70, 80, 79, 50]

def formatVersion : ℕ := 6

def fixedHeaderSize : ℕ := 88

def metadataRecordSize : ℕ := 10

def sparseRecordSize : ℕ := 22

def maxDirectoryBlockSize : ℕ :=
  18 + 2 * 32 + (maxDirectoryBlockEntries - 1) * 5 + maxDirectoryBlockEntries * 60

def resultWhiteWin : ℕ := 2

/-- The flag bits that no rating uses. -/
def metadataFlagUnused : ℕ := 0xfc

def encodeResult (result : ℤ) : ℕ := if result > 0 then 2 else if result < 0 then 0 else 1

def decodeResult (encoded : ℕ) : ℤ := if encoded = 2 then 1 else if encoded = 0 then -1 else 0

structure Header where
  indexedGameCount : ℕ
  occurrenceCount : ℕ
  distinctHashCount : ℕ
  metadataOffset : ℕ
  metadataCount : ℕ
  directoryOffset : ℕ
  directoryByteLength : ℕ
  sparseOffset : ℕ
  sparseCount : ℕ
  deriving DecidableEq

structure MetadataRecord where
  id : UInt32
  result : ℤ
  whiteElo : Option Int16
  blackElo : Option Int16
  deriving DecidableEq

structure SparseEntry where
  firstHash : ℕ
  blockOffset : ℕ
  blockByteLength : ℕ
  entryCount : ℕ
  deriving DecidableEq

/-- What an open artifact keeps in memory. -/
structure Reader where
  header : Header
  metadata : List MetadataRecord
  sparseDirectory : List SparseEntry
  deriving DecidableEq

section Open

def parseHeader (file : List UInt8) : Option Header := do
  guard (fixedHeaderSize ≤ file.length ∧ file.take 8 = magic)
  let (version, input) ← readLe 4 (file.drop 8)
  let (headerSize, input) ← readLe 4 input
  guard (version = formatVersion ∧ headerSize = fixedHeaderSize)
  let (indexedGameCount, input) ← readLe 8 input
  let (occurrenceCount, input) ← readLe 8 input
  let (distinctHashCount, input) ← readLe 8 input
  let (metadataOffset, input) ← readLe 8 input
  let (metadataCount, input) ← readLe 8 input
  let (directoryOffset, input) ← readLe 8 input
  let (directoryByteLength, input) ← readLe 8 input
  let (sparseOffset, input) ← readLe 8 input
  let (sparseCount, _) ← readLe 8 input
  return ⟨indexedGameCount, occurrenceCount, distinctHashCount, metadataOffset, metadataCount,
    directoryOffset, directoryByteLength, sparseOffset, sparseCount⟩

/-- Postings, metadata, directory and sparse directory follow one another up to the end. -/
def checkSections (h : Header) (fileSize : ℕ) : Option Unit := do
  guard (h.metadataCount = h.indexedGameCount ∧ fixedHeaderSize ≤ h.metadataOffset)
  let metadataBytes ← checkedMultiply h.metadataCount metadataRecordSize
  let metadataEnd ← checkedAdd h.metadataOffset metadataBytes
  guard (metadataEnd = h.directoryOffset)
  let directoryEnd ← checkedAdd h.directoryOffset h.directoryByteLength
  guard (directoryEnd = h.sparseOffset)
  let sparseBytes ← checkedMultiply h.sparseCount sparseRecordSize
  let sparseEnd ← checkedAdd h.sparseOffset sparseBytes
  guard (sparseEnd = fileSize ∧ representableStreamOffset h.metadataOffset ∧
    representableStreamOffset h.sparseOffset)

def decodeElo (flags flag bits : ℕ) : Option Int16 :=
  if flags &&& flag ≠ 0 then some (UInt16.ofNat bits).toInt16 else none

def readMetadataRecord (input : List UInt8) : Option (MetadataRecord × List UInt8) := do
  let (rawGameId, input) ← readLe 4 input
  let (encodedResult, input) ← readLe 1 input
  let (flags, input) ← readLe 1 input
  let (whiteEloBits, input) ← readLe 2 input
  let (blackEloBits, input) ← readLe 2 input
  guard (rawGameId ≠ 0 ∧ encodedResult ≤ resultWhiteWin ∧ flags &&& metadataFlagUnused = 0)
  return (⟨UInt32.ofNat rawGameId, decodeResult encodedResult, decodeElo flags 1 whiteEloBits,
    decodeElo flags 2 blackEloBits⟩, input)

def readMetadata : ℕ → Option UInt32 → List UInt8 → Option (List MetadataRecord)
  | 0, _, _ => some []
  | count + 1, previousGameId, input => do
    let (record, input) ← readMetadataRecord input
    guard (previousGameId.all fun previous => decide (previous < record.id))
    let records ← readMetadata count (some record.id) input
    return record :: records

/-- The sparse entries, the offset after the last block, and the number of entries in all. -/
def readSparseDirectory : ℕ → Option ℕ → ℕ → ℕ → List UInt8 → Option (List SparseEntry × ℕ × ℕ)
  | 0, _, expectedBlockOffset, totalEntries, _ => some ([], expectedBlockOffset, totalEntries)
  | count + 1, previousHash, expectedBlockOffset, totalEntries, input => do
    let (firstHash, input) ← readLe 8 input
    let (blockOffset, input) ← readLe 8 input
    let (blockByteLength, input) ← readLe 4 input
    let (entryCount, input) ← readLe 2 input
    guard (blockByteLength ≠ 0 ∧ blockByteLength ≤ maxDirectoryBlockSize ∧ entryCount ≠ 0 ∧
      entryCount ≤ maxDirectoryBlockEntries ∧ blockOffset = expectedBlockOffset ∧
      representableStreamOffset blockOffset)
    guard (∀ previous ∈ previousHash, previous < firstHash)
    let expectedBlockOffset ← checkedAdd expectedBlockOffset blockByteLength
    let totalEntries ← checkedAdd totalEntries entryCount
    let (entries, expectedBlockOffset, totalEntries) ← readSparseDirectory count (some firstHash)
      expectedBlockOffset totalEntries input
    return (⟨firstHash, blockOffset, blockByteLength, entryCount⟩ :: entries,
      expectedBlockOffset, totalEntries)

/-- Seek to an offset and read exactly `length` bytes. -/
def readAt (file : List UInt8) (offset length : ℕ) : Result (List UInt8) :=
  if offset + length ≤ file.length then .ok ((file.drop offset).take length)
  else .error .ioFailure

structure DirectoryTotals where
  expectedPostingOffset : ℕ
  previousHash : Option ℕ
  totalOccurrences : ℕ

def checkDirectoryEntry (totals : DirectoryTotals) (entry : DirectoryBlockEntry) :
    Option DirectoryTotals := do
  guard ((∀ previous ∈ totals.previousHash, previous < entry.hash) ∧
    entry.postingOffset = totals.expectedPostingOffset ∧
    representableStreamOffset entry.postingOffset)
  let expectedPostingOffset ← checkedAdd totals.expectedPostingOffset entry.postingByteLength
  let totalOccurrences ← checkedAdd totals.totalOccurrences entry.occurrenceCount
  return ⟨expectedPostingOffset, some entry.hash, totalOccurrences⟩

def orSchemaMismatch {α : Type} : Option α → Result α
  | some a => .ok a
  | none => .error .schemaMismatch

def readDirectoryBlock (file : List UInt8) (sparse : SparseEntry) :
    Result (List DirectoryBlockEntry) := do
  let block ← readAt file sparse.blockOffset sparse.blockByteLength
  decodeDirectoryBlock block

def checkDirectoryBlock (file : List UInt8) (totals : DirectoryTotals) (sparse : SparseEntry) :
    Result DirectoryTotals := do
  let entries ← readDirectoryBlock file sparse
  if entries.length ≠ sparse.entryCount ∨
      entries.head?.map DirectoryBlockEntry.hash ≠ some sparse.firstHash then
    .error .schemaMismatch
  else orSchemaMismatch (entries.foldlM checkDirectoryEntry totals)

def openArtifact (file : List UInt8) : Result Reader := do
  let header ← orSchemaMismatch (parseHeader file)
  orSchemaMismatch (checkSections header file.length)
  let metadata ← orSchemaMismatch
    (readMetadata header.metadataCount none (file.drop header.metadataOffset))
  let (sparseDirectory, expectedBlockOffset, totalEntries) ← orSchemaMismatch
    (readSparseDirectory header.sparseCount none header.directoryOffset 0
      (file.drop header.sparseOffset))
  if expectedBlockOffset ≠ header.sparseOffset ∨ totalEntries ≠ header.distinctHashCount then
    .error .schemaMismatch
  else do
    let totals ← sparseDirectory.foldlM (checkDirectoryBlock file) ⟨fixedHeaderSize, none, 0⟩
    if totals.expectedPostingOffset ≠ header.metadataOffset ∨
        totals.totalOccurrences ≠ header.occurrenceCount then
      .error .schemaMismatch
    else return ⟨header, metadata, sparseDirectory⟩

theorem orSchemaMismatch_eq_ok {α : Type} {o : Option α} {a : α} :
    orSchemaMismatch o = .ok a ↔ o = some a := by
  cases o <;> simp [orSchemaMismatch]

theorem readAt_eq_ok {file bytes : List UInt8} {offset length : ℕ} :
    readAt file offset length = .ok bytes ↔
      offset + length ≤ file.length ∧ (file.drop offset).take length = bytes := by
  unfold readAt
  split <;> simp_all

end Open

section Queries

/-- The last block whose first hash does not exceed the hash sought. -/
def findSparseBlock (sparseDirectory : List SparseEntry) (hash : ℕ) : Option SparseEntry :=
  let upper := Order.Bisection.upperBound SparseEntry.firstHash sparseDirectory hash
  if upper = 0 then none else sparseDirectory[upper - 1]?

def findDirectoryBlockEntry (file : List UInt8) (sparseDirectory : List SparseEntry)
    (hash : ℕ) : Result (Option DirectoryBlockEntry) :=
  match findSparseBlock sparseDirectory hash with
  | none => .ok none
  | some sparse => do
    let entries ← readDirectoryBlock file sparse
    return Order.Bisection.findKey DirectoryBlockEntry.hash entries hash

def DirectoryBlockEntry.summary (entry : DirectoryBlockEntry) : PositionPostingsSummary :=
  ⟨entry.occurrenceCount, entry.distinctGameCount, entry.minPly, entry.maxPly⟩

def Reader.summary (reader : Reader) (file : List UInt8) (hash : ℕ) :
    Result (Option PositionPostingsSummary) := do
  let entry ← findDirectoryBlockEntry file reader.sparseDirectory hash
  return entry.map DirectoryBlockEntry.summary

/-- Hand every stored hash and its summary to the visitor, block by block. -/
def Reader.forEachSummary {σ : Type} (reader : Reader) (file : List UInt8)
    (visitor : σ → ℕ → PositionPostingsSummary → Result σ) (init : σ) : Result σ :=
  reader.sparseDirectory.foldlM (fun s sparse => do
    let entries ← readDirectoryBlock file sparse
    entries.foldlM (fun s entry => visitor s entry.hash entry.summary) s) init

def findMetadata (metadata : List MetadataRecord) (id : UInt32) : Result MetadataRecord :=
  orSchemaMismatch
    (Order.Bisection.findKey (fun record : MetadataRecord => record.id.toNat) metadata id.toNat)

def matchOccurrence (metadata : List MetadataRecord) (occurrence : Occurrence) :
    Result PositionMatch := do
  let record ← findMetadata metadata occurrence.id
  return ⟨occurrence.id, occurrence.ply, record.result, record.whiteElo, record.blackElo⟩

def Reader.distinctGameIds (reader : Reader) (file : List UInt8) (hash : ℕ) :
    Result (List UInt32) := do
  match ← findDirectoryBlockEntry file reader.sparseDirectory hash with
  | none => return []
  | some entry =>
    let bytes ← readAt file entry.postingOffset entry.postingByteLength
    let gameIds ← decodePostingBlockGameIds bytes entry
    gameIds.forM fun id => do
      let _ ← findMetadata reader.metadata id
    return gameIds

/-- A page of the distinct game ids; the whole block is still decoded. -/
def Reader.distinctGameIdsPage (reader : Reader) (file : List UInt8) (hash limit offset : ℕ) :
    Result (List UInt32) := do
  let gameIds ← reader.distinctGameIds file hash
  if gameIds.length ≤ offset then return []
  else
    let remaining := gameIds.drop offset
    return if limit = 0 then remaining else remaining.take (min limit remaining.length)

def Reader.firstOccurrences (reader : Reader) (file : List UInt8) (hash : ℕ)
    (requestedGameIds : List UInt32) : Result (List PositionMatch) := do
  if requestedGameIds.isEmpty then return []
  else
    match ← findDirectoryBlockEntry file reader.sparseDirectory hash with
    | none => return []
    | some entry =>
      let bytes ← readAt file entry.postingOffset entry.postingByteLength
      let decoded ← decodePostingBlockFirstOccurrences bytes entry requestedGameIds
      decoded.mapM (matchOccurrence reader.metadata)

def Reader.occurrences (reader : Reader) (file : List UInt8) (hash limit offset : ℕ) :
    Result (List PositionMatch) := do
  match ← findDirectoryBlockEntry file reader.sparseDirectory hash with
  | none => return []
  | some entry =>
    let bytes ← readAt file entry.postingOffset entry.postingByteLength
    let decoded ← decodePostingBlockWindow bytes entry limit offset
    decoded.mapM (matchOccurrence reader.metadata)

end Queries

end MotifChess.Db.PositionPostings
