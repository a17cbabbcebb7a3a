/- GID: MotifChess/Db/PositionPostings/Directory
   generality: implementation
   digest: Compressed directory blocks: the writer, the validating decoder, and their round trip. -/

import MotifChess.Codec.Bitmap
import MotifChess.Codec.LittleEndian
import MotifChess.Db.ByteStream
import MotifChess.Db.Types
import Mathlib.Data.List.Chain
import Mathlib.Data.Option.Basic

set_option autoImplicit false
set_option relaxedAutoImplicit false

namespace MotifChess.Db.PositionPostings

open Codec LittleEndian

def maxDirectoryBlockEntries : ℕ := 256

def hashDeltaLowBits : ℕ := 40

/-- One directory entry: where the posting block of a hash lies, and its counts. -/
structure DirectoryBlockEntry where
  hash : ℕ
  postingOffset : ℕ
  postingByteLength : ℕ
  occurrenceCount : ℕ
  distinctGameCount : ℕ
  minPly : ℕ
  maxPly : ℕ
  deriving DecidableEq

/-- Subtraction of two unsigned integers of the given width. -/
def wrappingSub (bits left right : ℕ) : ℕ := (left + 2 ^ bits - right) % 2 ^ bits

theorem wrappingSub_eq {bits left right : ℕ} (hle : right ≤ left) (hleft : left < 2 ^ bits) :
    wrappingSub bits left right = left - right := by
  have hsum : left + 2 ^ bits - right = left - right + 2 ^ bits := by omega
  rw [wrappingSub, hsum, Nat.add_mod_right, Nat.mod_eq_of_lt (by omega)]

/-- Addition of two unsigned integers of the given width. -/
def wrappingAdd (bits left right : ℕ) : ℕ := (left + right) % 2 ^ bits

theorem wrappingAdd_wrappingSub {bits left right : ℕ} (hleft : left < 2 ^ bits)
    (hright : right < 2 ^ bits) : wrappingAdd bits right (wrappingSub bits left right) = left := by
  have hsum : right + (left + 2 ^ bits - right) = left + 2 ^ bits := by omega
  rw [wrappingAdd, wrappingSub, Nat.add_mod_mod, hsum, Nat.add_mod_right, Nat.mod_eq_of_lt hleft]

theorem wrappingSub_wrappingAdd {bits left right : ℕ} (hleft : left < 2 ^ bits)
    (hright : right < 2 ^ bits) : wrappingSub bits (wrappingAdd bits left right) left = right := by
  unfold wrappingSub wrappingAdd
  rcases Nat.lt_or_ge (left + right) (2 ^ bits) with hlt | hge
  · have hsum : left + right + 2 ^ bits - left = right + 2 ^ bits := by omega
    rw [Nat.mod_eq_of_lt hlt, hsum, Nat.add_mod_right, Nat.mod_eq_of_lt hright]
  · have hsmall : left + right - 2 ^ bits < 2 ^ bits := by omega
    have hsum : left + right - 2 ^ bits + 2 ^ bits - left = right := by omega
    rw [Nat.mod_eq_sub_mod hge, Nat.mod_eq_of_lt hsmall, hsum, Nat.mod_eq_of_lt hright]

theorem wrappingSub_lt (bits left right : ℕ) : wrappingSub bits left right < 2 ^ bits :=
  Nat.mod_lt _ (Nat.two_pow_pos bits)

section Writer

def hashDeltas : List DirectoryBlockEntry → List ℕ
  | previous :: entry :: rest =>
    wrappingSub 64 entry.hash previous.hash :: hashDeltas (entry :: rest)
  | _ => []

def occurrenceDiffers (entry : DirectoryBlockEntry) : Bool :=
  entry.occurrenceCount != entry.distinctGameCount

def directoryEntryBytes (entry : DirectoryBlockEntry) : List UInt8 :=
  writeUleb128 entry.postingByteLength ++ writeUleb128 entry.distinctGameCount ++
    (if occurrenceDiffers entry then writeUleb128 entry.occurrenceCount else []) ++
    writeUleb128 entry.minPly ++ writeUleb128 entry.maxPly

def hashHighBytes (bitmap : List UInt8) (deltas : List (ℕ × ℕ)) : List UInt8 :=
  deltas.flatMap fun delta =>
    if Bitmap.bit bitmap delta.2 then writeUleb128 (delta.1 >>> hashDeltaLowBits) else []

/-- The bytes that `flush_directory_block` emits for the pending entries. -/
def directoryBlockBytes : List DirectoryBlockEntry → List UInt8
  | [] => []
  | first :: rest =>
    let pending := first :: rest
    let deltas := hashDeltas pending
    let hashExceptionBitmap := Bitmap.pack (deltas.map fun d => d >>> hashDeltaLowBits != 0)
    leBytes 8 first.hash ++ leBytes 8 first.postingOffset ++ leBytes 2 pending.length ++
      hashExceptionBitmap ++ Bitmap.pack (pending.map occurrenceDiffers) ++
      deltas.flatMap (leBytes 5) ++ hashHighBytes hashExceptionBitmap deltas.zipIdx ++
      pending.flatMap directoryEntryBytes

end Writer

section Decoder

def readHashLows : ℕ → List UInt8 → Option (List ℕ × List UInt8)
  | 0, input => some ([], input)
  | count + 1, input => do
    let (low, input) ← readLe 5 input
    let (lows, input) ← readHashLows count input
    return (low :: lows, input)

def readHashHighs (bitmap : List UInt8) :
    ℕ → List ℕ → List UInt8 → Option (List ℕ × List UInt8)
  | _, [], input => some ([], input)
  | index, low :: lows, input =>
    if Bitmap.bit bitmap index then do
      let (high, input) ← readUleb128 input
      guard (high ≠ 0 ∧ high ≤ uint64Max >>> hashDeltaLowBits)
      let (deltas, input) ← readHashHighs bitmap (index + 1) lows input
      return ((low ||| high <<< hashDeltaLowBits) :: deltas, input)
    else do
      let (deltas, input) ← readHashHighs bitmap (index + 1) lows input
      return (low :: deltas, input)

def readOccurrenceCount (occurrenceDiffers : Bool) (distinctGameCount : ℕ)
    (input : List UInt8) : Option (ℕ × List UInt8) :=
  if occurrenceDiffers then do
    let (occurrenceCount, input) ← readUleb128 input
    guard (distinctGameCount < occurrenceCount)
    return (occurrenceCount, input)
  else some (distinctGameCount, input)

def decodeDirectoryEntry (occurrenceDiffers : Bool) (hash postingOffset : ℕ)
    (input : List UInt8) : Option (DirectoryBlockEntry × List UInt8) := do
  let (postingByteLength, input) ← readUleb128 input
  guard (postingByteLength ≠ 0)
  let (distinctGameCount, input) ← readUleb128 input
  guard (distinctGameCount ≠ 0)
  let (occurrenceCount, input) ← readOccurrenceCount occurrenceDiffers distinctGameCount input
  guard (occurrenceCount ≤ postingByteLength ∧ occurrenceCount ≤ uint32Max ∧
    distinctGameCount ≤ uint32Max)
  let (minPly, input) ← readUleb128 input
  let (maxPly, input) ← readUleb128 input
  guard (minPly ≤ maxPly ∧ maxPly ≤ uint16Max)
  return (⟨hash, postingOffset, postingByteLength, occurrenceCount, distinctGameCount,
    minPly, maxPly⟩, input)

/-- Decode the entry at `hash`, then one more entry for each remaining hash delta. -/
def decodeDirectoryEntries (bitmap : List UInt8) :
    ℕ → ℕ → ℕ → List ℕ → List UInt8 → Option (List DirectoryBlockEntry × List UInt8)
  | index, hash, offset, [], input => do
    let (entry, input) ← decodeDirectoryEntry (Bitmap.bit bitmap index) hash offset input
    return ([entry], input)
  | index, hash, offset, delta :: deltas, input => do
    let (entry, input) ← decodeDirectoryEntry (Bitmap.bit bitmap index) hash offset input
    guard (delta ≠ 0 ∧ hash + delta ≤ uint64Max ∧
      offset + entry.postingByteLength ≤ uint64Max)
    let (entries, input) ← decodeDirectoryEntries bitmap (index + 1) (hash + delta)
      (offset + entry.postingByteLength) deltas input
    return (entry :: entries, input)

def parseDirectoryBlock (bytes : List UInt8) : Option (List DirectoryBlockEntry) := do
  let (firstHash, input) ← readLe 8 bytes
  let (firstPostingOffset, input) ← readLe 8 input
  let (entryCount, input) ← readLe 2 input
  guard (entryCount ≠ 0 ∧ entryCount ≤ maxDirectoryBlockEntries)
  let hashBitmapSize := (entryCount - 1 + 7) / 8
  let occurrenceBitmapSize := (entryCount + 7) / 8
  guard (hashBitmapSize + occurrenceBitmapSize ≤ input.length)
  let hashBitmap := input.take hashBitmapSize
  let input := input.drop hashBitmapSize
  let occurrenceBitmap := input.take occurrenceBitmapSize
  let input := input.drop occurrenceBitmapSize
  guard (Bitmap.paddingIsZero hashBitmap (entryCount - 1) ∧
    Bitmap.paddingIsZero occurrenceBitmap entryCount)
  let (lows, input) ← readHashLows (entryCount - 1) input
  let (deltas, input) ← readHashHighs hashBitmap 0 lows input
  let (entries, input) ← decodeDirectoryEntries occurrenceBitmap 0 firstHash
    firstPostingOffset deltas input
  guard (input = [])
  return entries

def decodeDirectoryBlock (bytes : List UInt8) : Result (List DirectoryBlockEntry) :=
  match parseDirectoryBlock bytes with
  | some entries => .ok entries
  | none => .error .schemaMismatch

theorem decodeDirectoryBlock_eq_ok {bytes : List UInt8} {entries : List DirectoryBlockEntry} :
    decodeDirectoryBlock bytes = .ok entries ↔ parseDirectoryBlock bytes = some entries := by
  unfold decodeDirectoryBlock
  cases parseDirectoryBlock bytes <;> simp

end Decoder

/-- The counts of an entry are nonzero, fit their fields and are ordered as the decoder checks. -/
structure DirectoryBlockEntry.Valid (entry : DirectoryBlockEntry) : Prop where
  distinct_pos : 0 < entry.distinctGameCount
  distinct_le : entry.distinctGameCount ≤ entry.occurrenceCount
  occurrence_le : entry.occurrenceCount ≤ entry.postingByteLength
  occurrence_lt : entry.occurrenceCount < 2 ^ 32
  min_le : entry.minPly ≤ entry.maxPly
  max_lt : entry.maxPly < 2 ^ 16

/-- The next entry has a larger hash, and its postings start where the previous ones end. -/
def Follows (previous entry : DirectoryBlockEntry) : Prop :=
  previous.hash < entry.hash ∧
    entry.postingOffset = previous.postingOffset + previous.postingByteLength

section Soundness

private theorem readOccurrenceCount_le {differs : Bool} {distinct count : ℕ}
    {input rest : List UInt8} (h : readOccurrenceCount differs distinct input = some (count, rest)) :
    distinct ≤ count := by
  unfold readOccurrenceCount at h
  split at h
  · simp only [Option.bind_eq_bind, Option.bind_eq_some_iff, Option.guard_eq_some', Option.pure_def,
      Option.some.injEq, Prod.mk.injEq, Prod.exists, exists_const] at h
    obtain ⟨_, _, _, hlt, rfl, _⟩ := h
    exact hlt.le
  · simp only [Option.some.injEq, Prod.mk.injEq] at h
    exact h.1.le

theorem decodeDirectoryEntry_sound {differs : Bool} {hash offset : ℕ}
    {input rest : List UInt8} {entry : DirectoryBlockEntry}
    (h : decodeDirectoryEntry differs hash offset input = some (entry, rest)) :
    entry.hash = hash ∧ entry.postingOffset = offset ∧ entry.Valid := by
  simp only [decodeDirectoryEntry, Option.bind_eq_bind, Option.bind_eq_some_iff,
    Option.guard_eq_some', Option.pure_def, Option.some.injEq, Prod.mk.injEq, Prod.exists,
    exists_const] at h
  obtain ⟨length, _, _, hlength, distinct, _, _, hdistinct, count, _, hcount, hbounds,
    low, _, _, high, _, _, hply, rfl, _⟩ := h
  have hle := readOccurrenceCount_le hcount
  unfold uint32Max uint16Max at *
  exact ⟨rfl, rfl, Nat.pos_of_ne_zero hdistinct, hle, hbounds.1, by simp only; omega, hply.1,
    by simp only; omega⟩

theorem decodeDirectoryEntries_sound {bitmap : List UInt8} {index hash offset : ℕ}
    {deltas : List ℕ} {input rest : List UInt8} {entries : List DirectoryBlockEntry}
    (h : decodeDirectoryEntries bitmap index hash offset deltas input = some (entries, rest))
    (hhash : hash < 2 ^ 64) (hoffset : offset < 2 ^ 64) :
    (∃ first tail, entries = first :: tail ∧ first.hash = hash ∧ first.postingOffset = offset) ∧
      entries.length = deltas.length + 1 ∧ entries.IsChain Follows ∧
      ∀ e ∈ entries, e.Valid ∧ e.hash < 2 ^ 64 ∧ e.postingOffset < 2 ^ 64 := by
  induction deltas generalizing index hash offset input rest entries with
  | nil =>
    simp only [decodeDirectoryEntries, Option.bind_eq_bind, Option.bind_eq_some_iff,
      Option.pure_def, Option.some.injEq, Prod.mk.injEq, Prod.exists] at h
    obtain ⟨entry, _, hentry, rfl, _⟩ := h
    obtain ⟨rfl, rfl, hvalid⟩ := decodeDirectoryEntry_sound hentry
    refine ⟨⟨entry, [], rfl, rfl, rfl⟩, rfl, List.IsChain.singleton _, ?_⟩
    simpa using ⟨hvalid, hhash, hoffset⟩
  | cons delta deltas ih =>
    simp only [decodeDirectoryEntries, Option.bind_eq_bind, Option.bind_eq_some_iff,
      Option.guard_eq_some', Option.pure_def, Option.some.injEq, Prod.mk.injEq, Prod.exists,
      exists_const] at h
    obtain ⟨entry, _, hentry, ⟨hdelta, hnext, hfit⟩, later, _, hlater, rfl, _⟩ := h
    obtain ⟨rfl, rfl, hvalid⟩ := decodeDirectoryEntry_sound hentry
    unfold uint64Max at hnext hfit
    have hlength := hvalid.occurrence_le
    have hpos := hvalid.distinct_pos
    have hle := hvalid.distinct_le
    obtain ⟨⟨first, tail, rfl, hfirst, hstart⟩, hlen, hchain, hall⟩ :=
      ih hlater (by omega) (by omega)
    refine ⟨⟨entry, _, rfl, rfl, rfl⟩, by simp [hlen], ?_, ?_⟩
    · refine List.IsChain.cons_cons ⟨?_, hstart⟩ hchain
      rw [hfirst]
      omega
    · intro e he
      rcases List.mem_cons.mp he with rfl | he
      · exact ⟨hvalid, hhash, hoffset⟩
      · exact hall e he

theorem readLe_lt {width v : ℕ} {input rest : List UInt8}
    (h : readLe width input = some (v, rest)) : v < 256 ^ width := (readLe_eq_some.mp h).2

theorem length_readHashLows {count : ℕ} {input rest : List UInt8} {lows : List ℕ}
    (h : readHashLows count input = some (lows, rest)) : lows.length = count := by
  induction count generalizing input rest lows with
  | zero =>
    simp only [readHashLows, Option.some.injEq, Prod.mk.injEq] at h
    rw [← h.1, List.length_nil]
  | succ count ih =>
    simp only [readHashLows, Option.bind_eq_bind, Option.bind_eq_some_iff, Option.pure_def,
      Option.some.injEq, Prod.mk.injEq, Prod.exists] at h
    obtain ⟨_, _, _, lows, _, hlows, rfl, _⟩ := h
    rw [List.length_cons, ih hlows]

theorem length_readHashHighs {bitmap : List UInt8} {index : ℕ} {lows deltas : List ℕ}
    {input rest : List UInt8} (h : readHashHighs bitmap index lows input = some (deltas, rest)) :
    deltas.length = lows.length := by
  induction lows generalizing index input rest deltas with
  | nil =>
    simp only [readHashHighs, Option.some.injEq, Prod.mk.injEq] at h
    rw [← h.1]
  | cons low lows ih =>
    rw [readHashHighs] at h
    split at h <;>
    · simp only [Option.bind_eq_bind, Option.bind_eq_some_iff, Option.pure_def,
        Option.some.injEq, Prod.mk.injEq, Prod.exists] at h
      grind

theorem decodeDirectoryBlock_sound {bytes : List UInt8} {entries : List DirectoryBlockEntry}
    (h : decodeDirectoryBlock bytes = .ok entries) :
    entries ≠ [] ∧ entries.length ≤ maxDirectoryBlockEntries ∧ entries.IsChain Follows ∧
      ∀ e ∈ entries, e.Valid ∧ e.hash < 2 ^ 64 ∧ e.postingOffset < 2 ^ 64 := by
  rw [decodeDirectoryBlock_eq_ok] at h
  simp only [parseDirectoryBlock, Option.bind_eq_bind, Option.bind_eq_some_iff,
    Option.guard_eq_some', Option.pure_def, Option.some.injEq, Prod.exists,
    exists_const] at h
  obtain ⟨hash, _, hhash, offset, _, hoffset, count, _, _, ⟨hne, hle⟩, _, _, lows, _, hlows,
    deltas, _, hdeltas, decoded, _, hentries, _, rfl⟩ := h
  obtain ⟨⟨first, tail, rfl, _⟩, hlen, hchain, hall⟩ :=
    decodeDirectoryEntries_sound hentries (readLe_lt hhash) (readLe_lt hoffset)
  rw [length_readHashHighs hdeltas, length_readHashLows hlows] at hlen
  exact ⟨by simp, by omega, hchain, hall⟩

end Soundness

section RoundTrip

/-- The part of a hash delta that every entry stores in five bytes. -/
def hashDeltaLow (delta : ℕ) : ℕ := delta % 256 ^ 5

private theorem readHashLows_bytes (deltas : List ℕ) (rest : List UInt8) :
    readHashLows deltas.length (deltas.flatMap (leBytes 5) ++ rest) =
      some (deltas.map hashDeltaLow, rest) := by
  induction deltas with
  | nil => rfl
  | cons delta deltas ih =>
    have hlow : delta % 256 ^ 5 < 256 ^ 5 := Nat.mod_lt _ (by norm_num)
    rw [List.flatMap_cons, List.append_assoc, ← leBytes_mod, List.length_cons, readHashLows,
      readLe_leBytes hlow]
    simp [ih, hashDeltaLow]

private theorem low_or_high (delta : ℕ) :
    hashDeltaLow delta ||| (delta >>> hashDeltaLowBits) <<< hashDeltaLowBits = delta := by
  have hlow : delta % 2 ^ 40 < 2 ^ 40 := Nat.mod_lt _ (by norm_num)
  have hpow : 256 ^ 5 = 2 ^ 40 := by norm_num
  rw [hashDeltaLow, hashDeltaLowBits, Nat.shiftRight_eq_div_pow, Nat.shiftLeft_eq, hpow, Nat.or_comm,
    Nat.mul_comm, ← Nat.two_pow_add_eq_or_of_lt hlow]
  omega

private theorem readHashHighs_bytes {bitmap : List UInt8} {index : ℕ} {deltas : List ℕ}
    (rest : List UInt8) (hfit : ∀ d ∈ deltas, d < 2 ^ 64)
    (hbits : ∀ i, Bitmap.bit bitmap (index + i) =
      (deltas.map fun d => d >>> hashDeltaLowBits != 0).getD i false) :
    readHashHighs bitmap index (deltas.map hashDeltaLow)
      (hashHighBytes bitmap (deltas.zipIdx index) ++ rest) = some (deltas, rest) := by
  induction deltas generalizing index with
  | nil => rfl
  | cons delta deltas ih =>
    have hdelta : delta < 2 ^ 64 := hfit delta List.mem_cons_self
    have hbits' : ∀ i, Bitmap.bit bitmap (index + 1 + i) =
        (deltas.map fun d => d >>> hashDeltaLowBits != 0).getD i false := fun i => by
      have hi := hbits (i + 1)
      rwa [← Nat.add_assoc, Nat.add_right_comm, List.map_cons, List.getD_cons_succ] at hi
    have htail := ih (fun d hd => hfit d (List.mem_cons_of_mem _ hd)) hbits'
    have hbit : Bitmap.bit bitmap index = (delta >>> hashDeltaLowBits != 0) := by
      simpa using hbits 0
    rw [List.map_cons, readHashHighs, List.zipIdx_cons, hashHighBytes, List.flatMap_cons,
      ← hashHighBytes]
    by_cases hhigh : delta >>> hashDeltaLowBits = 0
    · have hclear : Bitmap.bit bitmap index = false := by simp [hbit, hhigh]
      have hlow : hashDeltaLow delta = delta := by
        have := low_or_high delta
        rwa [hhigh, Nat.zero_shiftLeft, Nat.or_zero] at this
      simp [hclear, htail, hlow]
    · have hset : Bitmap.bit bitmap index = true := by simp [hbit, hhigh]
      have hbound : delta >>> hashDeltaLowBits ≤ uint64Max >>> hashDeltaLowBits := by
        rw [Nat.shiftRight_eq_div_pow, Nat.shiftRight_eq_div_pow]
        exact Nat.div_le_div_right (by unfold uint64Max; omega)
      have hread : delta >>> hashDeltaLowBits < 2 ^ 64 := by
        rw [Nat.shiftRight_eq_div_pow]
        exact (Nat.div_le_self _ _).trans_lt hdelta
      rw [hset, if_pos rfl, if_pos rfl, List.append_assoc, writeUleb128_eq,
        readUleb128_encode hread]
      simp [htail, hhigh, hbound, low_or_high]

/-- What the merge guarantees of an entry before the decoder has checked its counts. -/
structure DirectoryBlockEntry.Written (entry : DirectoryBlockEntry) : Prop where
  length_lt : entry.postingByteLength < 2 ^ 64
  distinct_pos : 0 < entry.distinctGameCount
  distinct_le : entry.distinctGameCount ≤ entry.occurrenceCount
  occurrence_le : entry.occurrenceCount ≤ entry.postingByteLength
  min_le : entry.minPly ≤ entry.maxPly
  max_lt : entry.maxPly < 2 ^ 16

theorem DirectoryBlockEntry.Written.valid {entry : DirectoryBlockEntry} (h : entry.Written)
    (hcount : entry.occurrenceCount < 2 ^ 32) : entry.Valid :=
  ⟨h.distinct_pos, h.distinct_le, h.occurrence_le, hcount, h.min_le, h.max_lt⟩

private theorem readOccurrenceCount_bytes {entry : DirectoryBlockEntry} (h : entry.Written)
    (rest : List UInt8) :
    readOccurrenceCount (occurrenceDiffers entry) entry.distinctGameCount
      ((if occurrenceDiffers entry then writeUleb128 entry.occurrenceCount else []) ++ rest) =
      some (entry.occurrenceCount, rest) := by
  have hlength := h.length_lt
  have hle := h.occurrence_le
  have hdistinct := h.distinct_le
  unfold readOccurrenceCount
  by_cases hdiff : occurrenceDiffers entry
  · have hne : entry.occurrenceCount ≠ entry.distinctGameCount := by
      simpa [occurrenceDiffers] using hdiff
    have hlt : entry.distinctGameCount < entry.occurrenceCount := by omega
    rw [if_pos hdiff, if_pos hdiff, writeUleb128_eq, readUleb128_encode (by omega)]
    simp [hlt]
  · have heq : entry.occurrenceCount = entry.distinctGameCount := by
      simpa [occurrenceDiffers] using hdiff
    rw [if_neg hdiff, if_neg hdiff, heq, List.nil_append]

private theorem decodeDirectoryEntry_bytes {entry : DirectoryBlockEntry} (h : entry.Written)
    (rest : List UInt8) :
    decodeDirectoryEntry (occurrenceDiffers entry) entry.hash entry.postingOffset
      (directoryEntryBytes entry ++ rest) =
      if entry.occurrenceCount < 2 ^ 32 then some (entry, rest) else none := by
  have hlength := h.length_lt
  have hcount := h.occurrence_le
  have hdistinct := h.distinct_le
  have hpos := h.distinct_pos
  have hmin := h.min_le
  have hmax := h.max_lt
  have hlengthNe : entry.postingByteLength ≠ 0 := by omega
  have hdistinctNe : entry.distinctGameCount ≠ 0 := by omega
  rw [decodeDirectoryEntry, directoryEntryBytes]
  simp only [List.append_assoc, writeUleb128_eq]
  rw [readUleb128_encode (by omega)]
  simp only [Option.bind_eq_bind, Option.bind_some, hlengthNe, ne_eq, not_false_eq_true, guard_true,
    Option.pure_def]
  rw [readUleb128_encode (by omega)]
  simp only [Option.bind_some, hdistinctNe, not_false_eq_true, guard_true, Option.pure_def]
  rw [← writeUleb128_eq entry.occurrenceCount, readOccurrenceCount_bytes h]
  by_cases hfits : entry.occurrenceCount < 2 ^ 32
  · have hbounds : entry.occurrenceCount ≤ entry.postingByteLength ∧
        entry.occurrenceCount ≤ uint32Max ∧ entry.distinctGameCount ≤ uint32Max := by
      unfold uint32Max
      omega
    have hply : entry.minPly ≤ entry.maxPly ∧ entry.maxPly ≤ uint16Max := by
      unfold uint16Max
      omega
    rw [if_pos hfits]
    simp only [Option.bind_some, hbounds, and_self, guard_true, Option.pure_def]
    rw [readUleb128_encode (by omega)]
    simp only [Option.bind_some]
    rw [readUleb128_encode (by omega)]
    simp [hply]
  · have hbounds : ¬(entry.occurrenceCount ≤ entry.postingByteLength ∧
        entry.occurrenceCount ≤ uint32Max ∧ entry.distinctGameCount ≤ uint32Max) := by
      unfold uint32Max
      omega
    rw [if_neg hfits]
    simp [hbounds, guard]

theorem length_hashDeltas (first : DirectoryBlockEntry) (rest : List DirectoryBlockEntry) :
    (hashDeltas (first :: rest)).length = rest.length := by
  induction rest generalizing first with
  | nil => rfl
  | cons second rest ih => rw [hashDeltas, List.length_cons, ih, List.length_cons]

theorem hashDeltas_lt (entries : List DirectoryBlockEntry) :
    ∀ d ∈ hashDeltas entries, d < 2 ^ 64 := by
  induction entries with
  | nil => simp [hashDeltas]
  | cons first rest ih =>
    cases rest with
    | nil => simp [hashDeltas]
    | cons second rest =>
      intro d hd
      rcases List.mem_cons.mp hd with rfl | hd
      · exact Nat.mod_lt _ (by norm_num)
      · exact ih d hd

/-- Entries that a block can represent: written, chained, and inside 64 bits. -/
structure Representable (entries : List DirectoryBlockEntry) : Prop where
  chain : entries.IsChain Follows
  written : ∀ e ∈ entries, e.Written
  hash_lt : ∀ e ∈ entries, e.hash < 2 ^ 64
  end_lt : ∀ e ∈ entries, e.postingOffset + e.postingByteLength < 2 ^ 64

theorem Representable.tail {first : DirectoryBlockEntry} {rest : List DirectoryBlockEntry}
    (h : Representable (first :: rest)) : Representable rest where
  chain := h.chain.tail
  written e he := h.written e (List.mem_cons_of_mem _ he)
  hash_lt e he := h.hash_lt e (List.mem_cons_of_mem _ he)
  end_lt e he := h.end_lt e (List.mem_cons_of_mem _ he)

/-- No entry counts more occurrences than its field can hold. -/
def CountsFit (entries : List DirectoryBlockEntry) : Prop :=
  ∀ e ∈ entries, e.occurrenceCount < 2 ^ 32

instance (entries : List DirectoryBlockEntry) : Decidable (CountsFit entries) :=
  inferInstanceAs (Decidable (∀ e ∈ entries, e.occurrenceCount < 2 ^ 32))

private theorem decodeDirectoryEntries_bytes {bitmap : List UInt8} {index : ℕ}
    {first : DirectoryBlockEntry} {entries : List DirectoryBlockEntry} (rest : List UInt8)
    (h : Representable (first :: entries))
    (hbits : ∀ i, Bitmap.bit bitmap (index + i) =
      ((first :: entries).map occurrenceDiffers).getD i false) :
    decodeDirectoryEntries bitmap index first.hash first.postingOffset
      (hashDeltas (first :: entries))
      ((first :: entries).flatMap directoryEntryBytes ++ rest) =
      if CountsFit (first :: entries) then some (first :: entries, rest) else none := by
  induction entries generalizing index first with
  | nil =>
    have hbit : Bitmap.bit bitmap index = occurrenceDiffers first := by simpa using hbits 0
    have hfirst := decodeDirectoryEntry_bytes (h.written first List.mem_cons_self) rest
    simp only [hashDeltas, decodeDirectoryEntries, List.flatMap_cons, List.flatMap_nil,
      List.append_nil, hbit, hfirst, CountsFit, List.mem_singleton, forall_eq]
    split <;> simp
  | cons second entries ih =>
    have hbit : Bitmap.bit bitmap index = occurrenceDiffers first := by simpa using hbits 0
    have hwritten := h.written first List.mem_cons_self
    have hend := h.end_lt first List.mem_cons_self
    obtain ⟨hlt, hoffset⟩ := (List.isChain_cons_cons.mp h.chain).1
    have hsecond : second.hash < 2 ^ 64 := h.hash_lt second (by simp)
    have hdelta : wrappingSub 64 second.hash first.hash = second.hash - first.hash :=
      wrappingSub_eq hlt.le hsecond
    have hguard : second.hash - first.hash ≠ 0 ∧ second.hash ≤ uint64Max ∧
        second.postingOffset ≤ uint64Max := by
      unfold uint64Max
      omega
    have hhash : first.hash + (second.hash - first.hash) = second.hash := by omega
    have hbits' : ∀ i, Bitmap.bit bitmap (index + 1 + i) =
        ((second :: entries).map occurrenceDiffers).getD i false := fun i => by
      have hi := hbits (i + 1)
      rwa [← Nat.add_assoc, Nat.add_right_comm, List.map_cons, List.getD_cons_succ] at hi
    have hrest := ih h.tail hbits'
    have hfirst := decodeDirectoryEntry_bytes hwritten
      ((second :: entries).flatMap directoryEntryBytes ++ rest)
    rw [List.flatMap_cons, List.append_assoc, hashDeltas, decodeDirectoryEntries, hbit, hfirst]
    by_cases hcount : first.occurrenceCount < 2 ^ 32
    · have hiff : CountsFit (first :: second :: entries) ↔ CountsFit (second :: entries) := by
        unfold CountsFit
        rw [List.forall_mem_cons]
        exact and_iff_right hcount
      rw [if_pos hcount, hdelta]
      simp only [Option.bind_eq_bind, Option.bind_some, hhash, ← hoffset, hguard, guard_true,
        Option.pure_def, ne_eq, not_false_eq_true, and_self, hrest, hiff]
      split <;> simp
    · have hiff : ¬CountsFit (first :: second :: entries) := fun hall =>
        hcount (hall first List.mem_cons_self)
      rw [if_neg hcount, if_neg hiff]
      rfl

theorem decodeDirectoryBlock_bytes {entries : List DirectoryBlockEntry} (hne : entries ≠ [])
    (hlen : entries.length ≤ maxDirectoryBlockEntries) (h : Representable entries) :
    decodeDirectoryBlock (directoryBlockBytes entries) =
      if CountsFit entries then .ok entries else .error .schemaMismatch := by
  obtain ⟨first, tail, rfl⟩ := List.exists_cons_of_ne_nil hne
  have hdeltas := length_hashDeltas first tail
  have hhash : first.hash < 256 ^ 8 := h.hash_lt first List.mem_cons_self
  have hoffset : first.postingOffset < 256 ^ 8 := by
    have := h.end_lt first List.mem_cons_self
    omega
  unfold maxDirectoryBlockEntries at hlen
  have hcount : (first :: tail).length < 256 ^ 2 := by omega
  set deltas := hashDeltas (first :: tail) with hdeltasDef
  set hashBitmap := Bitmap.pack (deltas.map fun d => d >>> hashDeltaLowBits != 0)
    with hhashBitmap
  set occurrenceBitmap := Bitmap.pack ((first :: tail).map occurrenceDiffers)
    with hoccurrenceBitmap
  have hhashLength : hashBitmap.length = ((first :: tail).length - 1 + 7) / 8 := by
    simp [hhashBitmap, hdeltas]
  have hoccurrenceLength : occurrenceBitmap.length = ((first :: tail).length + 7) / 8 := by
    simp [hoccurrenceBitmap]
  have hpadding : Bitmap.paddingIsZero hashBitmap ((first :: tail).length - 1) = true ∧
      Bitmap.paddingIsZero occurrenceBitmap (first :: tail).length = true := by
    have h1 := Bitmap.paddingIsZero_pack (deltas.map fun d => d >>> hashDeltaLowBits != 0)
    have h2 := Bitmap.paddingIsZero_pack ((first :: tail).map occurrenceDiffers)
    rw [List.length_map] at h1 h2
    rw [hdeltas] at h1
    exact ⟨h1, h2⟩
  have hlows := readHashLows_bytes deltas
  rw [hdeltas] at hlows
  have hhighs : ∀ rest, readHashHighs hashBitmap 0 (deltas.map hashDeltaLow)
      (hashHighBytes hashBitmap deltas.zipIdx ++ rest) = some (deltas, rest) := fun rest =>
    readHashHighs_bytes rest (hashDeltas_lt (first :: tail))
      (fun i => by rw [Nat.zero_add, hhashBitmap, Bitmap.bit_pack])
  have hentries : decodeDirectoryEntries occurrenceBitmap 0 first.hash first.postingOffset deltas
      ((first :: tail).flatMap directoryEntryBytes ++ []) =
      if CountsFit (first :: tail) then some (first :: tail, []) else none :=
    decodeDirectoryEntries_bytes [] h
      (fun i => by rw [Nat.zero_add, hoccurrenceBitmap, Bitmap.bit_pack])
  have hparse : parseDirectoryBlock (directoryBlockBytes (first :: tail)) =
      if CountsFit (first :: tail) then some (first :: tail) else none := by
    have hguard : (first :: tail).length ≠ 0 ∧
        (first :: tail).length ≤ maxDirectoryBlockEntries := ⟨by simp, hlen⟩
    rw [directoryBlockBytes, parseDirectoryBlock]
    simp only [List.append_assoc, ← hdeltasDef, ← hhashBitmap, ← hoccurrenceBitmap]
    rw [readLe_leBytes hhash]
    simp only [Option.bind_eq_bind, Option.bind_some]
    rw [readLe_leBytes hoffset]
    simp only [Option.bind_some]
    rw [readLe_leBytes hcount]
    set body := deltas.flatMap (leBytes 5) ++ (hashHighBytes hashBitmap deltas.zipIdx ++
      (first :: tail).flatMap directoryEntryBytes)
    have hsizes : ((first :: tail).length - 1 + 7) / 8 + ((first :: tail).length + 7) / 8 ≤
        (hashBitmap ++ (occurrenceBitmap ++ body)).length := by
      rw [List.length_append, List.length_append, hhashLength, hoccurrenceLength]
      omega
    rw [List.append_nil] at hentries
    simp only [Option.bind_some, hguard, ne_eq, not_false_eq_true, and_self, guard_true,
      Option.pure_def, hsizes, List.take_left' hhashLength, List.drop_left' hhashLength,
      List.take_left' hoccurrenceLength, List.drop_left' hoccurrenceLength, hpadding]
    rw [List.length_cons, Nat.add_sub_cancel, hlows]
    simp only [Option.bind_some]
    rw [hhighs]
    simp only [Option.bind_some]
    rw [hentries]
    by_cases hfit : CountsFit (first :: tail) <;> simp [hfit]
  unfold decodeDirectoryBlock
  rw [hparse]
  by_cases hfit : CountsFit (first :: tail) <;> simp [hfit]

end RoundTrip

end MotifChess.Db.PositionPostings
