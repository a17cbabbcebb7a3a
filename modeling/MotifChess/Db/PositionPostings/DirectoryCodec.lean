/- GID: MotifChess/Db/PositionPostings/DirectoryCodec
   generality: implementation
   digest: Directory blocks have one spelling: the decoder accepts exactly what the writer writes. -/

import MotifChess.Db.PositionPostings.Assemble

set_option autoImplicit false
set_option relaxedAutoImplicit false

namespace MotifChess.Db.PositionPostings

open Codec LittleEndian

section Hashes

private theorem readHashLows_spelling {count : ℕ} {input rest : List UInt8} {lows : List ℕ}
    (h : readHashLows count input = some (lows, rest)) :
    input = lows.flatMap (leBytes 5) ++ rest ∧ ∀ low ∈ lows, low < 256 ^ 5 := by
  induction count generalizing input rest lows with
  | zero =>
    simp only [readHashLows, Option.some.injEq, Prod.mk.injEq] at h
    obtain ⟨rfl, rfl⟩ := h
    simp
  | succ count ih =>
    simp only [readHashLows, Option.bind_eq_bind, Option.bind_eq_some_iff, Option.pure_def,
      Option.some.injEq, Prod.mk.injEq, Prod.exists] at h
    obtain ⟨low, input', hlow, lows, _, hlows, rfl, rfl⟩ := h
    obtain ⟨rfl, hbound⟩ := readLe_eq_some.mp hlow
    obtain ⟨rfl, hbounds⟩ := ih hlows
    constructor
    · rw [List.flatMap_cons, List.append_assoc]
    · exact List.forall_mem_cons.mpr ⟨hbound, hbounds⟩

private theorem or_high {low high : ℕ} (hlow : low < 256 ^ 5)
    (hhigh : high ≤ uint64Max >>> hashDeltaLowBits) :
    low ||| high <<< hashDeltaLowBits = low + 2 ^ 40 * high ∧ low + 2 ^ 40 * high < 2 ^ 64 := by
  have hpow : 256 ^ 5 = 2 ^ 40 := by norm_num
  rw [hpow] at hlow
  have hbound : high ≤ 2 ^ 24 - 1 := by
    rw [hashDeltaLowBits, Nat.shiftRight_eq_div_pow, uint64Max] at hhigh
    omega
  constructor
  · rw [hashDeltaLowBits, Nat.shiftLeft_eq, Nat.or_comm, Nat.mul_comm,
      ← Nat.two_pow_add_eq_or_of_lt hlow, Nat.add_comm]
  · omega

private theorem hashHighBytes_cons (bitmap : List UInt8) (delta index : ℕ)
    (deltas : List (ℕ × ℕ)) : hashHighBytes bitmap ((delta, index) :: deltas) =
      (if Bitmap.bit bitmap index then writeUleb128 (delta >>> hashDeltaLowBits) else []) ++
        hashHighBytes bitmap deltas := List.flatMap_cons

private theorem readHashHighs_spelling {bitmap : List UInt8} {index : ℕ} {lows deltas : List ℕ}
    {input rest : List UInt8} (hlows : ∀ low ∈ lows, low < 256 ^ 5)
    (h : readHashHighs bitmap index lows input = some (deltas, rest)) :
    deltas.map hashDeltaLow = lows ∧
      (∀ i, i < deltas.length → Bitmap.bit bitmap (index + i) =
        (deltas.map fun d => d >>> hashDeltaLowBits != 0).getD i false) ∧
      input = hashHighBytes bitmap (deltas.zipIdx index) ++ rest := by
  induction lows generalizing index input rest deltas with
  | nil =>
    simp only [readHashHighs, Option.some.injEq, Prod.mk.injEq] at h
    obtain ⟨rfl, rfl⟩ := h
    simp [hashHighBytes]
  | cons low lows ih =>
    obtain ⟨hlow, hlows⟩ := List.forall_mem_cons.mp hlows
    have hpow : 256 ^ 5 = 2 ^ 40 := by norm_num
    rw [readHashHighs] at h
    by_cases hbit : Bitmap.bit bitmap index = true
    · rw [if_pos hbit] at h
      simp only [Option.bind_eq_bind, Option.bind_eq_some_iff, Option.guard_eq_some',
        Option.pure_def, Option.some.injEq, Prod.mk.injEq, Prod.exists, exists_const] at h
      obtain ⟨high, input', hread, ⟨hne, hle⟩, deltas, _, hrest, rfl, rfl⟩ := h
      obtain ⟨hor, hfit⟩ := or_high hlow hle
      obtain ⟨rfl, hhigh⟩ := readUleb128_eq_some.mp hread
      obtain ⟨hmap, hbits, rfl⟩ := ih hlows hrest
      rw [hpow] at hlow
      have hshift : (low ||| high <<< hashDeltaLowBits) >>> hashDeltaLowBits = high := by
        rw [hor, hashDeltaLowBits, Nat.shiftRight_eq_div_pow]
        omega
      refine ⟨?_, ?_, ?_⟩
      · rw [List.map_cons, hmap, hor, hashDeltaLow, hpow]
        congr 1
        omega
      · intro i hi
        cases i with
        | zero => simp [hbit, hshift, hne]
        | succ i =>
          have hi' := hbits i (by simpa using hi)
          rwa [Nat.add_assoc, Nat.add_comm 1 i] at hi'
      · rw [List.zipIdx_cons, hashHighBytes_cons, if_pos hbit, hshift, writeUleb128_eq,
          List.append_assoc]
    · rw [if_neg hbit] at h
      simp only [Option.bind_eq_bind, Option.bind_eq_some_iff, Option.pure_def, Option.some.injEq,
        Prod.mk.injEq, Prod.exists] at h
      obtain ⟨deltas, _, hrest, rfl, rfl⟩ := h
      obtain ⟨hmap, hbits, rfl⟩ := ih hlows hrest
      have hshift : low >>> hashDeltaLowBits = 0 := by
        rw [hpow] at hlow
        rw [hashDeltaLowBits, Nat.shiftRight_eq_div_pow]
        omega
      refine ⟨?_, ?_, ?_⟩
      · rw [List.map_cons, hmap, hashDeltaLow, Nat.mod_eq_of_lt hlow]
      · intro i hi
        cases i with
        | zero => simpa [hshift] using hbit
        | succ i =>
          have hi' := hbits i (by simpa using hi)
          rwa [Nat.add_assoc, Nat.add_comm 1 i] at hi'
      · rw [List.zipIdx_cons, hashHighBytes_cons, if_neg hbit, List.nil_append]

end Hashes

section Entries

private theorem decodeDirectoryEntry_spelling {differs : Bool} {hash offset : ℕ} {input rest : List UInt8}
    {entry : DirectoryBlockEntry}
    (h : decodeDirectoryEntry differs hash offset input = some (entry, rest)) :
    occurrenceDiffers entry = differs ∧ input = directoryEntryBytes entry ++ rest := by
  simp only [decodeDirectoryEntry, Option.bind_eq_bind, Option.bind_eq_some_iff,
    Option.guard_eq_some', Option.pure_def, Option.some.injEq, Prod.mk.injEq, Prod.exists,
    exists_const] at h
  obtain ⟨length, _, hlength, -, distinct, _, hdistinct, -, count, _, hcount, -, low, _, hlow, high,
    _, hhigh, -, rfl, rfl⟩ := h
  obtain ⟨rfl, -⟩ := readUleb128_eq_some.mp hlength
  obtain ⟨rfl, -⟩ := readUleb128_eq_some.mp hdistinct
  obtain ⟨rfl, -⟩ := readUleb128_eq_some.mp hlow
  obtain ⟨rfl, -⟩ := readUleb128_eq_some.mp hhigh
  rw [readOccurrenceCount] at hcount
  by_cases hdiffers : differs = true
  · rw [if_pos hdiffers] at hcount
    simp only [Option.bind_eq_bind, Option.bind_eq_some_iff, Option.guard_eq_some', Option.pure_def,
      Option.some.injEq, Prod.mk.injEq, Prod.exists, exists_const] at hcount
    obtain ⟨_, _, hread, hlt, rfl, rfl⟩ := hcount
    obtain ⟨rfl, -⟩ := readUleb128_eq_some.mp hread
    have hne : (_ : ℕ) ≠ distinct := hlt.ne'
    simp [occurrenceDiffers, directoryEntryBytes, hdiffers, hne]
  · rw [if_neg hdiffers] at hcount
    obtain ⟨rfl, rfl⟩ := Prod.mk.inj (Option.some.inj hcount)
    simp [occurrenceDiffers, directoryEntryBytes, hdiffers]

private theorem decodeDirectoryEntries_spelling {bitmap : List UInt8} {index hash offset : ℕ}
    {deltas : List ℕ} {input rest : List UInt8} {entries : List DirectoryBlockEntry}
    (h : decodeDirectoryEntries bitmap index hash offset deltas input = some (entries, rest))
    (hhash : hash < 2 ^ 64) (hoffset : offset < 2 ^ 64) :
    hashDeltas entries = deltas ∧
      (∀ i, i < entries.length → Bitmap.bit bitmap (index + i) =
        (entries.map occurrenceDiffers).getD i false) ∧
      input = entries.flatMap directoryEntryBytes ++ rest := by
  induction deltas generalizing index hash offset input rest entries with
  | nil =>
    simp only [decodeDirectoryEntries, Option.bind_eq_bind, Option.bind_eq_some_iff,
      Option.pure_def, Option.some.injEq, Prod.mk.injEq, Prod.exists] at h
    obtain ⟨entry, _, hentry, rfl, rfl⟩ := h
    obtain ⟨hdiffers, rfl⟩ := decodeDirectoryEntry_spelling hentry
    refine ⟨rfl, ?_, by simp⟩
    intro i hi
    obtain rfl : i = 0 := by simpa using hi
    simpa using hdiffers.symm
  | cons delta deltas ih =>
    simp only [decodeDirectoryEntries, Option.bind_eq_bind, Option.bind_eq_some_iff,
      Option.guard_eq_some', Option.pure_def, Option.some.injEq, Prod.mk.injEq, Prod.exists,
      exists_const] at h
    obtain ⟨entry, _, hentry, ⟨-, hnext, hfit⟩, later, _, hlater, rfl, rfl⟩ := h
    obtain ⟨hdiffers, rfl⟩ := decodeDirectoryEntry_spelling hentry
    obtain ⟨rfl, rfl, -⟩ := decodeDirectoryEntry_sound hentry
    have hnextHash : entry.hash + delta < 2 ^ 64 := by
      unfold uint64Max at hnext
      omega
    have hnextOffset : entry.postingOffset + entry.postingByteLength < 2 ^ 64 := by
      unfold uint64Max at hfit
      omega
    obtain ⟨⟨first, tail, rfl, hfirst, -⟩, -⟩ :=
      decodeDirectoryEntries_sound hlater hnextHash hnextOffset
    obtain ⟨hdeltas, hbits, rfl⟩ := ih hlater hnextHash hnextOffset
    refine ⟨?_, ?_, ?_⟩
    · rw [hashDeltas, hdeltas, hfirst, wrappingSub_eq (by omega) hnextHash]
      congr 1
      omega
    · intro i hi
      cases i with
      | zero => simpa using hdiffers.symm
      | succ i =>
        have hi' := hbits i (by simpa using hi)
        rwa [Nat.add_assoc, Nat.add_comm 1 i] at hi'
    · simp only [List.flatMap_cons, List.append_assoc]

end Entries

private theorem directoryBlockBytes_of_decode {bytes : List UInt8} {entries : List DirectoryBlockEntry}
    (h : decodeDirectoryBlock bytes = .ok entries) : directoryBlockBytes entries = bytes := by
  rw [decodeDirectoryBlock_eq_ok] at h
  simp only [parseDirectoryBlock, Option.bind_eq_bind, Option.bind_eq_some_iff,
    Option.guard_eq_some', Option.pure_def, Option.some.injEq, Prod.exists, exists_const] at h
  obtain ⟨hash, _, hhash, offset, _, hoffset, count, input, hcount, ⟨hne, -⟩, hsize, ⟨hpad, hpad'⟩,
    lows, _, hlows, deltas, _, hdeltas, decoded, _, hentries, rfl, rfl⟩ := h
  have hhashLt := readLe_lt hhash
  have hoffsetLt := readLe_lt hoffset
  obtain ⟨⟨first, tail, rfl, rfl, rfl⟩, hlen, -⟩ :=
    decodeDirectoryEntries_sound hentries hhashLt hoffsetLt
  have hdeltasLength : deltas.length = count - 1 := by
    rw [length_readHashHighs hdeltas, length_readHashLows hlows]
  have hentriesLength : (first :: tail).length = count := by omega
  obtain ⟨hbytes, hbounds⟩ := readHashLows_spelling hlows
  obtain ⟨hmap, hhighBits, rfl⟩ := readHashHighs_spelling hbounds hdeltas
  obtain ⟨hdeltasOf, hbits, rfl⟩ := decodeDirectoryEntries_spelling hentries hhashLt hoffsetLt
  obtain ⟨rfl, -⟩ := readLe_eq_some.mp hhash
  obtain ⟨rfl, -⟩ := readLe_eq_some.mp hoffset
  obtain ⟨rfl, -⟩ := readLe_eq_some.mp hcount
  have hflat : lows.flatMap (leBytes 5) = deltas.flatMap (leBytes 5) := by
    rw [← hmap, List.flatMap_map]
    simp only [hashDeltaLow, leBytes_mod]
  have hhashBitmap : Bitmap.pack (deltas.map fun d => d >>> hashDeltaLowBits != 0) =
      input.take ((count - 1 + 7) / 8) := by
    apply Bitmap.pack_eq
    · rw [List.length_take, List.length_map, hdeltasLength]
      omega
    · rw [List.length_map, hdeltasLength]
      exact hpad
    · intro i hi
      rw [List.length_map] at hi
      simpa using hhighBits i hi
  have hoccurrenceBitmap : Bitmap.pack ((first :: tail).map occurrenceDiffers) =
      (input.drop ((count - 1 + 7) / 8)).take ((count + 7) / 8) := by
    apply Bitmap.pack_eq
    · rw [List.length_take, List.length_drop, List.length_map, hentriesLength]
      omega
    · rw [List.length_map, hentriesLength]
      exact hpad'
    · intro i hi
      rw [List.length_map] at hi
      simpa using hbits i hi
  rw [List.append_nil] at hbytes
  rw [directoryBlockBytes]
  simp only [hdeltasOf, hhashBitmap, hoccurrenceBitmap, hentriesLength, List.append_assoc]
  rw [← hflat, ← hbytes, List.take_append_drop, List.take_append_drop]

/-- The entries that a directory block can list. -/
structure Listed (entries : List DirectoryBlockEntry) : Prop where
  ne_nil : entries ≠ []
  length_le : entries.length ≤ maxDirectoryBlockEntries
  chain : entries.IsChain Follows
  hash_lt : ∀ e ∈ entries, e.hash < 2 ^ 64
  end_lt : ∀ e ∈ entries, e.postingOffset + e.postingByteLength < 2 ^ 64
  valid : ∀ e ∈ entries, e.Valid

theorem Listed.blockOk {entries : List DirectoryBlockEntry} (h : Listed entries) :
    BlockOk entries where
  ne_nil := h.ne_nil
  length_le := h.length_le
  representable :=
    { chain := h.chain
      hash_lt := h.hash_lt
      end_lt := h.end_lt
      written := fun e he => by
        have hvalid := h.valid e he
        have hend := h.end_lt e he
        exact ⟨by omega, hvalid.distinct_pos, hvalid.distinct_le, hvalid.occurrence_le,
          hvalid.min_le, hvalid.max_lt⟩ }

/-- Writing and decoding a directory block are inverse to each other. -/
theorem directoryBlock_bijective :
    (∀ entries, Listed entries →
      (directoryBlockBytes entries).length ≤ maxDirectoryBlockSize ∧
        decodeDirectoryBlock (directoryBlockBytes entries) = .ok entries) ∧
    ∀ bytes entries, decodeDirectoryBlock bytes = .ok entries →
      directoryBlockBytes entries = bytes := by
  constructor
  · intro entries h
    constructor
    · exact h.blockOk.length_bytes.2
    · rw [decodeDirectoryBlock_bytes h.ne_nil h.length_le h.blockOk.representable]
      exact if_pos fun e he => (h.valid e he).occurrence_lt
  · intro bytes entries h
    exact directoryBlockBytes_of_decode h

private def twoEntries : List DirectoryBlockEntry :=
  [⟨1, 88, 10, 3, 2, 0, 7⟩, ⟨2 ^ 40 + 5, 98, 1, 1, 1, 4, 4⟩]

private theorem listed_twoEntries : Listed twoEntries where
  ne_nil := by decide
  length_le := by decide
  chain := by simp [twoEntries, Follows]
  hash_lt := by decide
  end_lt := by decide
  valid := by
    intro e he
    simp only [twoEntries, List.mem_cons, List.not_mem_nil, or_false] at he
    rcases he with rfl | rfl
    · constructor <;> decide
    · constructor <;> decide

/-- Two entries, one hash delta of which has a high part. -/
theorem directoryBlock_bijective_sample :
    decodeDirectoryBlock (directoryBlockBytes twoEntries) = .ok twoEntries ∧
      ∀ bytes, decodeDirectoryBlock bytes = .ok twoEntries → directoryBlockBytes twoEntries = bytes :=
  ⟨(directoryBlock_bijective.1 twoEntries listed_twoEntries).2,
    fun bytes => directoryBlock_bijective.2 bytes twoEntries⟩

end MotifChess.Db.PositionPostings
