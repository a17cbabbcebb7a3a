/- GID: MotifChess/Db/PositionPostings/Assemble
   generality: implementation
   digest: The open checks accept an assembled file exactly when every occurrence count fits. -/

import MotifChess.Db.PositionPostings.Groups
import MotifChess.Db.PositionPostings.Validation

set_option autoImplicit false
set_option relaxedAutoImplicit false

namespace MotifChess.Db.PositionPostings

open Codec LittleEndian

section Header

/-- The values of a header that its eight-byte fields can hold. -/
structure Header.Fits (h : Header) : Prop where
  indexedGameCount : h.indexedGameCount < 256 ^ 8
  occurrenceCount : h.occurrenceCount < 256 ^ 8
  distinctHashCount : h.distinctHashCount < 256 ^ 8
  metadataOffset : h.metadataOffset < 256 ^ 8
  metadataCount : h.metadataCount < 256 ^ 8
  directoryOffset : h.directoryOffset < 256 ^ 8
  directoryByteLength : h.directoryByteLength < 256 ^ 8
  sparseOffset : h.sparseOffset < 256 ^ 8
  sparseCount : h.sparseCount < 256 ^ 8

@[simp] theorem length_headerBytes (h : Header) : (headerBytes h).length = fixedHeaderSize := by
  simp [headerBytes, magic, fixedHeaderSize]

private theorem parseHeader_bytes {h : Header} (hfits : h.Fits) (rest : List UInt8) :
    parseHeader (headerBytes h ++ rest) = some h := by
  have hlength : fixedHeaderSize ≤ (headerBytes h ++ rest).length := by simp
  have hversion : formatVersion < 256 ^ 4 := by decide
  have hsize : fixedHeaderSize < 256 ^ 4 := by decide
  have hmagic : magic.length = 8 := rfl
  rw [parseHeader]
  simp only [hlength, true_and]
  rw [headerBytes]
  simp only [List.append_assoc, List.take_left' hmagic, List.drop_left' hmagic, guard_true,
    Option.bind_eq_bind, Option.bind_some, Option.pure_def, readLe_leBytes hversion,
    readLe_leBytes hsize, and_self, readLe_leBytes hfits.indexedGameCount,
    readLe_leBytes hfits.occurrenceCount, readLe_leBytes hfits.distinctHashCount,
    readLe_leBytes hfits.metadataOffset, readLe_leBytes hfits.metadataCount,
    readLe_leBytes hfits.directoryOffset, readLe_leBytes hfits.directoryByteLength,
    readLe_leBytes hfits.sparseOffset, readLe_leBytes hfits.sparseCount]

private theorem checkSections_eq {h : Header} {fileSize : ℕ} (hcount : h.metadataCount = h.indexedGameCount)
    (hstart : fixedHeaderSize ≤ h.metadataOffset)
    (hmetadata : h.metadataOffset + h.metadataCount * metadataRecordSize = h.directoryOffset)
    (hdirectory : h.directoryOffset + h.directoryByteLength = h.sparseOffset)
    (hsparse : h.sparseOffset + h.sparseCount * sparseRecordSize = fileSize)
    (hsize : fileSize < 2 ^ 63) : checkSections h fileSize = some () := by
  have hmultiply : checkedMultiply h.metadataCount metadataRecordSize =
      some (h.metadataCount * metadataRecordSize) := checkedMultiply_eq_some.mpr ⟨rfl, by omega⟩
  have hend : checkedAdd h.metadataOffset (h.metadataCount * metadataRecordSize) =
      some h.directoryOffset := checkedAdd_eq_some.mpr ⟨hmetadata.symm, by omega⟩
  have hdirectoryEnd : checkedAdd h.directoryOffset h.directoryByteLength =
      some h.sparseOffset := checkedAdd_eq_some.mpr ⟨hdirectory.symm, by omega⟩
  have hsparseBytes : checkedMultiply h.sparseCount sparseRecordSize =
      some (h.sparseCount * sparseRecordSize) := checkedMultiply_eq_some.mpr ⟨rfl, by omega⟩
  have hsparseEnd : checkedAdd h.sparseOffset (h.sparseCount * sparseRecordSize) =
      some fileSize := checkedAdd_eq_some.mpr ⟨hsparse.symm, by omega⟩
  have hguard : h.metadataCount = h.indexedGameCount ∧ fixedHeaderSize ≤ h.metadataOffset :=
    ⟨hcount, hstart⟩
  have hmetadataFits : representableStreamOffset h.metadataOffset = true :=
    representableStreamOffset_iff.mpr (by omega)
  have hsparseFits : representableStreamOffset h.sparseOffset = true :=
    representableStreamOffset_iff.mpr (by omega)
  simp only [checkSections, guard_of hguard, hmultiply, hend, hdirectoryEnd, hsparseBytes,
    hsparseEnd, hmetadataFits, hsparseFits, and_self, guard_true, Option.pure_def,
    Option.bind_eq_bind, Option.bind_some]

end Header

section Metadata

/-- A metadata item that the reader accepts. -/
structure MetadataOk (item : ℕ × GameMetadata) : Prop where
  id_pos : 0 < item.1
  id_lt : item.1 < 2 ^ 32
  result_range : -1 ≤ item.2.result ∧ item.2.result ≤ 1

def metadataRecord (item : ℕ × GameMetadata) : MetadataRecord :=
  ⟨UInt32.ofNat item.1, item.2.result, item.2.whiteElo, item.2.blackElo⟩

@[simp] theorem length_metadataRecordBytes (item : ℕ × GameMetadata) :
    (metadataRecordBytes item).length = metadataRecordSize := by
  simp [metadataRecordBytes, metadataRecordSize]

private theorem decodeResult_encodeResult {result : ℤ} (h : -1 ≤ result ∧ result ≤ 1) :
    encodeResult result ≤ resultWhiteWin ∧ decodeResult (encodeResult result) = result := by
  obtain ⟨hlow, hhigh⟩ := h
  have hcases : result = -1 ∨ result = 0 ∨ result = 1 := by omega
  rcases hcases with rfl | rfl | rfl <;> decide

private theorem decodeElo_bits (elo : Option Int16) {flags flag : ℕ}
    (hflag : flags &&& flag ≠ 0 ↔ elo.isSome) :
    decodeElo flags flag (elo.getD 0).toUInt16.toNat = elo := by
  cases elo with
  | none =>
    have hzero : ¬flags &&& flag ≠ 0 := by simp [hflag]
    rw [decodeElo, if_neg hzero]
  | some value =>
    have hset : flags &&& flag ≠ 0 := by simp [hflag]
    rw [decodeElo, if_pos hset, Option.getD_some, UInt16.ofNat_toNat, Int16.toInt16_toUInt16]

private theorem metadataFlags_spec (m : GameMetadata) :
    metadataFlags m < 256 ∧ metadataFlags m &&& metadataFlagUnused = 0 ∧
      (metadataFlags m &&& 1 ≠ 0 ↔ m.whiteElo.isSome) ∧
      (metadataFlags m &&& 2 ≠ 0 ↔ m.blackElo.isSome) := by
  rw [metadataFlags, metadataFlagUnused]
  cases m.whiteElo.isSome <;> cases m.blackElo.isSome <;> simp

private theorem readMetadataRecord_bytes {item : ℕ × GameMetadata} (h : MetadataOk item)
    (rest : List UInt8) :
    readMetadataRecord (metadataRecordBytes item ++ rest) = some (metadataRecord item, rest) := by
  obtain ⟨hencode, hdecode⟩ := decodeResult_encodeResult h.result_range
  obtain ⟨hflags, hunused, hwhite, hblack⟩ := metadataFlags_spec item.2
  have hid : item.1 < 256 ^ 4 := h.id_lt
  have hresult : encodeResult item.2.result < 256 ^ 1 := hencode.trans_lt (by decide)
  have hflags' : metadataFlags item.2 < 256 ^ 1 := hflags
  have hwhiteBits : (item.2.whiteElo.getD 0).toUInt16.toNat < 256 ^ 2 := UInt16.toNat_lt _
  have hblackBits : (item.2.blackElo.getD 0).toUInt16.toNat < 256 ^ 2 := UInt16.toNat_lt _
  have hpos := h.id_pos
  have hne : item.1 ≠ 0 := by omega
  rw [readMetadataRecord, metadataRecordBytes]
  simp only [List.append_assoc, readLe_leBytes hid, readLe_leBytes hresult, readLe_leBytes hflags',
    readLe_leBytes hwhiteBits, readLe_leBytes hblackBits, Option.bind_eq_bind, Option.bind_some,
    Option.pure_def, hne, ne_eq, not_false_eq_true, hencode, hunused, and_self, guard_true,
    hdecode, decodeElo_bits _ hwhite, decodeElo_bits _ hblack, metadataRecord]

private theorem readMetadata_bytes {items : List (ℕ × GameMetadata)} {previous : Option UInt32}
    (rest : List UInt8) (hok : ∀ item ∈ items, MetadataOk item)
    (hascending : (items.map Prod.fst).Pairwise (· < ·))
    (hprevious : ∀ p ∈ previous, ∀ item ∈ items, p.toNat < item.1) :
    readMetadata items.length previous (items.flatMap metadataRecordBytes ++ rest) =
      some (items.map metadataRecord) := by
  induction items generalizing previous with
  | nil => rfl
  | cons item items ih =>
    have hitem := hok item List.mem_cons_self
    rw [List.map_cons, List.pairwise_cons] at hascending
    have hid : (UInt32.ofNat item.1).toNat = item.1 := by
      rw [UInt32.toNat_ofNat', Nat.mod_eq_of_lt hitem.id_lt]
    have hguard : (previous.all fun p => decide (p < (metadataRecord item).id)) = true := by
      rw [Option.all_eq_true]
      intro p hp
      rw [decide_eq_true_eq, UInt32.lt_iff_toNat_lt, metadataRecord, hid]
      exact hprevious p hp item List.mem_cons_self
    have hafter : ∀ p ∈ some (metadataRecord item).id, ∀ x ∈ items, p.toNat < x.1 := by
      intro p hp x hx
      obtain rfl := Option.some.inj hp
      rw [metadataRecord, hid]
      exact hascending.1 _ (List.mem_map_of_mem hx)
    have htail := ih (fun x hx => hok x (List.mem_cons_of_mem _ hx)) hascending.2 hafter
    rw [List.flatMap_cons, List.append_assoc, List.length_cons, readMetadata,
      readMetadataRecord_bytes hitem]
    simp only [Option.bind_eq_bind, Option.bind_some, guard_of hguard, Option.pure_def, htail,
      List.map_cons]

end Metadata

section Sparse

theorem length_encode_le {v : ℕ} (hv : v < 2 ^ 64) : (Leb128.encode v).length ≤ 10 := by
  rw [Leb128.length_encode_le_iff (by omega)]
  omega

private theorem length_flatMap_le {α β : Type} {f : α → List β} {bound : ℕ} {l : List α}
    (h : ∀ a ∈ l, (f a).length ≤ bound) : (l.flatMap f).length ≤ l.length * bound := by
  induction l with
  | nil => simp
  | cons a l ih =>
    have hhead := h a List.mem_cons_self
    have htail := ih fun x hx => h x (List.mem_cons_of_mem _ hx)
    rw [List.flatMap_cons, List.length_append, List.length_cons, Nat.succ_mul]
    omega

/-- A block that the reader can decode, as far as its size goes. -/
structure BlockOk (block : List DirectoryBlockEntry) : Prop where
  ne_nil : block ≠ []
  length_le : block.length ≤ maxDirectoryBlockEntries
  representable : Representable block

private theorem length_directoryEntryBytes {entry : DirectoryBlockEntry} (h : entry.Written) :
    (directoryEntryBytes entry).length ≤ 50 := by
  have hlength := h.length_lt
  have hdistinct := h.distinct_le
  have hcount := h.occurrence_le
  have hmin := h.min_le
  have hmax := h.max_lt
  have h1 := length_encode_le hlength
  have h2 := length_encode_le (show entry.distinctGameCount < 2 ^ 64 by omega)
  have h3 := length_encode_le (show entry.occurrenceCount < 2 ^ 64 by omega)
  have h4 := length_encode_le (show entry.minPly < 2 ^ 64 by omega)
  have h5 := length_encode_le (show entry.maxPly < 2 ^ 64 by omega)
  rw [directoryEntryBytes]
  simp only [List.length_append, writeUleb128_eq]
  split
  · omega
  · rw [List.length_nil]
    omega

private theorem BlockOk.length_sections {block : List DirectoryBlockEntry} (h : BlockOk block) :
    18 ≤ (directoryBlockBytes block).length ∧
      (directoryBlockBytes block).length ≤ 18 + ((block.length - 1 + 7) / 8 + (block.length + 7) / 8) +
        (block.length - 1) * 15 + block.length * 50 := by
  obtain ⟨first, rest, rfl⟩ := List.exists_cons_of_ne_nil h.ne_nil
  have hdeltas := length_hashDeltas first rest
  have hlows : ((hashDeltas (first :: rest)).flatMap (leBytes 5)).length ≤ rest.length * 5 := by
    rw [← hdeltas]
    exact length_flatMap_le fun d _ => (length_leBytes 5 d).le
  have hhighs : ∀ bitmap, (hashHighBytes bitmap (hashDeltas (first :: rest)).zipIdx).length ≤
      rest.length * 10 := by
    intro bitmap
    have hzip : (hashDeltas (first :: rest)).zipIdx.length = rest.length := by
      rw [List.length_zipIdx, hdeltas]
    rw [← hzip, hashHighBytes]
    refine length_flatMap_le fun d hd => ?_
    split
    · have hlt := hashDeltas_lt _ _ (List.fst_mem_of_mem_zipIdx hd)
      rw [writeUleb128_eq, Nat.shiftRight_eq_div_pow]
      exact length_encode_le ((Nat.div_le_self _ _).trans_lt hlt)
    · simp
  have hentries : ((first :: rest).flatMap directoryEntryBytes).length ≤
      (first :: rest).length * 50 := length_flatMap_le fun e he =>
    length_directoryEntryBytes (h.representable.written e he)
  have hbound := hhighs (Bitmap.pack ((hashDeltas (first :: rest)).map
    fun d => d >>> hashDeltaLowBits != 0))
  rw [directoryBlockBytes]
  simp only [List.length_append, length_leBytes, Bitmap.length_pack, List.length_map, hdeltas,
    List.length_cons] at hbound hentries ⊢
  omega

theorem BlockOk.length_bytes {block : List DirectoryBlockEntry} (h : BlockOk block) :
    0 < (directoryBlockBytes block).length ∧
      (directoryBlockBytes block).length ≤ maxDirectoryBlockSize := by
  have hsections := h.length_sections
  have hlength := h.length_le
  rw [maxDirectoryBlockSize]
  rw [maxDirectoryBlockEntries] at hlength ⊢
  omega

theorem BlockOk.length_bytes_le {block : List DirectoryBlockEntry} (h : BlockOk block) :
    (directoryBlockBytes block).length ≤ block.length * 85 := by
  have hsections := h.length_sections
  have hpos := List.length_pos_iff.mpr h.ne_nil
  omega

private theorem sparseRecordBytes_add (directoryOffset offset : ℕ)
    (blocks : List (List DirectoryBlockEntry)) :
    (sparseFrom offset blocks).flatMap (sparseRecordBytes directoryOffset) =
      (sparseFrom (directoryOffset + offset) blocks).flatMap (sparseRecordBytes 0) := by
  induction blocks generalizing offset with
  | nil => rfl
  | cons block blocks ih =>
    rw [sparseFrom, sparseFrom, List.flatMap_cons, List.flatMap_cons, ih, Nat.add_assoc]
    simp only [sparseRecordBytes, Nat.zero_add]

@[simp] theorem length_sparseRecordBytes (directoryOffset : ℕ) (sparse : SparseEntry) :
    (sparseRecordBytes directoryOffset sparse).length = sparseRecordSize := by
  simp [sparseRecordBytes, sparseRecordSize]

@[simp] theorem length_sparseFrom (offset : ℕ) (blocks : List (List DirectoryBlockEntry)) :
    (sparseFrom offset blocks).length = blocks.length := by
  induction blocks generalizing offset with
  | nil => rfl
  | cons block blocks ih => rw [sparseFrom, List.length_cons, ih, List.length_cons]

private theorem readSparseDirectory_bytes {blocks : List (List DirectoryBlockEntry)}
    {previous : Option ℕ} {offset total : ℕ} (rest : List UInt8)
    (hok : ∀ block ∈ blocks, BlockOk block)
    (hascending : (blocks.flatten.map DirectoryBlockEntry.hash).Pairwise (· < ·))
    (hprevious : ∀ p ∈ previous, ∀ e ∈ blocks.flatten, p < e.hash)
    (hfit : offset + (blocks.flatMap directoryBlockBytes).length < 2 ^ 63)
    (htotal : total + blocks.flatten.length < 2 ^ 64) :
    readSparseDirectory blocks.length previous offset total
      ((sparseFrom offset blocks).flatMap (sparseRecordBytes 0) ++ rest) =
      some (sparseFrom offset blocks, offset + (blocks.flatMap directoryBlockBytes).length,
        total + blocks.flatten.length) := by
  induction blocks generalizing previous offset total with
  | nil => rfl
  | cons block blocks ih =>
    have hblock := hok block List.mem_cons_self
    obtain ⟨hpos, hsize⟩ := hblock.length_bytes
    have hlen := hblock.length_le
    obtain ⟨first, entries, rfl⟩ := List.exists_cons_of_ne_nil hblock.ne_nil
    rw [List.flatten_cons, List.length_append] at htotal
    rw [List.flatMap_cons, List.length_append] at hfit
    rw [List.flatten_cons, List.map_append, List.pairwise_append] at hascending
    set bytes := directoryBlockBytes (first :: entries) with hbytes
    unfold maxDirectoryBlockSize maxDirectoryBlockEntries at hsize
    unfold maxDirectoryBlockEntries at hlen
    have hhash : first.hash < 256 ^ 8 := hblock.representable.hash_lt first List.mem_cons_self
    have hoffset : 0 + offset < 256 ^ 8 := by omega
    have hlength : bytes.length < 256 ^ 4 := by omega
    have hcount : (first :: entries).length < 256 ^ 2 := by omega
    have hadd : checkedAdd offset bytes.length = some (offset + bytes.length) :=
      checkedAdd_eq_some.mpr ⟨rfl, by omega⟩
    have haddTotal : checkedAdd total (first :: entries).length =
        some (total + (first :: entries).length) := checkedAdd_eq_some.mpr ⟨rfl, by omega⟩
    have hguard : bytes.length ≠ 0 ∧ bytes.length ≤ maxDirectoryBlockSize ∧
        (first :: entries).length ≠ 0 ∧ (first :: entries).length ≤ maxDirectoryBlockEntries ∧
        0 + offset = offset ∧ representableStreamOffset (0 + offset) = true := by
      rw [representableStreamOffset_iff]
      unfold maxDirectoryBlockSize maxDirectoryBlockEntries
      simp only [List.length_cons] at hlen ⊢
      omega
    have hkey : ∀ p ∈ previous, p < first.hash := fun p hp => hprevious p hp first (by simp)
    have hafter : ∀ p ∈ some first.hash, ∀ e ∈ blocks.flatten, p < e.hash := by
      intro p hp e he
      obtain rfl := Option.some.inj hp
      exact hascending.2.2 _ (by simp) _ (List.mem_map_of_mem he)
    have htail := @ih (some first.hash) (offset + bytes.length)
      (total + (first :: entries).length) (fun x hx => hok x (List.mem_cons_of_mem _ hx))
      hascending.2.1 hafter (by omega) (by omega)
    rw [sparseFrom, List.flatMap_cons, List.append_assoc, List.length_cons, readSparseDirectory,
      sparseRecordBytes]
    simp only [List.head?_cons, Option.map_some, Option.getD_some, List.append_assoc, ← hbytes,
      readLe_leBytes hhash, readLe_leBytes hoffset, readLe_leBytes hlength, readLe_leBytes hcount,
      Option.bind_eq_bind, Option.bind_some, Option.pure_def, guard_of hguard, guard_of hkey,
      hadd, haddTotal, htail]
    rw [List.flatMap_cons, ← hbytes, List.length_append, List.flatten_cons, List.length_append,
      Nat.zero_add, Nat.add_assoc, Nat.add_assoc]

end Sparse

section Directory

/-- The bytes of a block lie where the sparse entry says. -/
structure StoredAt (file : List UInt8) (sparse : SparseEntry) (block : List DirectoryBlockEntry) :
    Prop where
  read : readAt file sparse.blockOffset sparse.blockByteLength = .ok (directoryBlockBytes block)
  count : sparse.entryCount = block.length
  first : sparse.firstHash = (block.head?.map DirectoryBlockEntry.hash).getD 0

private theorem readAt_segment {front bytes back : List UInt8} {offset : ℕ} (h : front.length = offset) :
    readAt (front ++ bytes ++ back) offset bytes.length = .ok bytes := by
  rw [readAt_eq_ok, ← h]
  refine ⟨by simp, ?_⟩
  rw [List.append_assoc, List.drop_left, List.take_left]

private theorem forall₂_storedAt {front back : List UInt8} {blocks : List (List DirectoryBlockEntry)}
    {offset : ℕ} (h : front.length = offset) :
    List.Forall₂ (StoredAt (front ++ blocks.flatMap directoryBlockBytes ++ back))
      (sparseFrom offset blocks) blocks := by
  induction blocks generalizing front offset with
  | nil => exact List.Forall₂.nil
  | cons block blocks ih =>
    have hfile : front ++ (block :: blocks).flatMap directoryBlockBytes ++ back =
        front ++ directoryBlockBytes block ++ blocks.flatMap directoryBlockBytes ++ back := by
      simp
    have htail := @ih (front ++ directoryBlockBytes block)
      (offset + (directoryBlockBytes block).length) (by simp [h])
    rw [hfile, sparseFrom]
    refine List.Forall₂.cons ⟨?_, rfl, rfl⟩ htail
    rw [List.append_assoc (front ++ directoryBlockBytes block)]
    exact readAt_segment h

variable {file : List UInt8} {sparse : SparseEntry} {block : List DirectoryBlockEntry}

theorem StoredAt.readDirectoryBlock (h : StoredAt file sparse block) (hok : BlockOk block) :
    readDirectoryBlock file sparse =
      if CountsFit block then .ok block else .error .schemaMismatch := by
  rw [PositionPostings.readDirectoryBlock, h.read, ok_bind,
    decodeDirectoryBlock_bytes hok.ne_nil hok.length_le hok.representable]

theorem StoredAt.head (h : StoredAt file sparse block) (hok : BlockOk block) :
    block.head?.map DirectoryBlockEntry.hash = some sparse.firstHash := by
  obtain ⟨first, rest, rfl⟩ := List.exists_cons_of_ne_nil hok.ne_nil
  rw [h.first]
  rfl

theorem StoredAt.blockOf (h : StoredAt file sparse block) (hok : BlockOk block)
    (hfit : CountsFit block) : BlockOf file sparse block :=
  ⟨by rw [h.readDirectoryBlock hok, if_pos hfit], h.count.symm, h.head hok⟩

theorem StoredAt.checkDirectoryBlock (h : StoredAt file sparse block) (hok : BlockOk block)
    (totals : DirectoryTotals) :
    checkDirectoryBlock file totals sparse =
      if CountsFit block then orSchemaMismatch (block.foldlM checkDirectoryEntry totals)
      else .error .schemaMismatch := by
  have hshape : ¬(block.length ≠ sparse.entryCount ∨
      block.head?.map DirectoryBlockEntry.hash ≠ some sparse.firstHash) := by
    rw [h.head hok, h.count]
    simp
  rw [PositionPostings.checkDirectoryBlock, h.readDirectoryBlock hok]
  split
  · rw [ok_bind, if_neg hshape]
  · rfl

private theorem countsFit_append {front back : List DirectoryBlockEntry} :
    CountsFit (front ++ back) ↔ CountsFit front ∧ CountsFit back := by
  simp only [CountsFit, List.mem_append, or_imp, forall_and]

private theorem foldlM_checkDirectoryBlock_bytes {sparse : List SparseEntry}
    {blocks : List (List DirectoryBlockEntry)} (h : List.Forall₂ (StoredAt file) sparse blocks)
    (hok : ∀ block ∈ blocks, BlockOk block) (totals : DirectoryTotals) :
    sparse.foldlM (checkDirectoryBlock file) totals =
      if CountsFit blocks.flatten then
        orSchemaMismatch (blocks.flatten.foldlM checkDirectoryEntry totals)
      else .error .schemaMismatch := by
  induction h generalizing totals with
  | nil => rfl
  | @cons s block sparse blocks hblock _ ih =>
    have htail := ih fun x hx => hok x (List.mem_cons_of_mem _ hx)
    rw [List.foldlM_cons, hblock.checkDirectoryBlock (hok block List.mem_cons_self),
      List.flatten_cons, List.foldlM_append]
    simp only [countsFit_append]
    by_cases hfit : CountsFit block
    · rw [if_pos hfit]
      cases hcheck : block.foldlM checkDirectoryEntry totals with
      | none =>
        simp only [orSchemaMismatch, Option.bind_eq_bind, Option.bind_none, ite_self]
        rfl
      | some totals' =>
        simp only [orSchemaMismatch, ok_bind, Option.bind_eq_bind, Option.bind_some, htail, hfit,
          true_and]
    · rw [if_neg hfit, if_neg fun hboth => hfit hboth.1]
      rfl

private theorem foldlM_checkDirectoryEntry_entriesFrom {groups : List HashGroup} {offset : ℕ}
    {totals : DirectoryTotals} (hoffset : totals.expectedPostingOffset = offset)
    (hprevious : ∀ p ∈ totals.previousHash, ∀ g ∈ groups, p < g.1)
    (hascending : (groups.map Prod.fst).Pairwise (· < ·))
    (hfit : offset + (groups.flatMap groupBytes).length < 2 ^ 63)
    (htotal : totals.totalOccurrences + (groups.flatMap Prod.snd).length < 2 ^ 64) :
    ∃ last, (entriesFrom offset groups).foldlM checkDirectoryEntry totals =
      some ⟨offset + (groups.flatMap groupBytes).length, last,
        totals.totalOccurrences + (groups.flatMap Prod.snd).length⟩ := by
  induction groups generalizing offset totals with
  | nil =>
    subst hoffset
    exact ⟨totals.previousHash, rfl⟩
  | cons group groups ih =>
    rw [List.flatMap_cons, List.length_append] at hfit htotal
    rw [List.map_cons, List.pairwise_cons] at hascending
    have hlength : (entryOf offset group).postingByteLength = (groupBytes group).length := rfl
    have hoccurrence : (entryOf offset group).occurrenceCount = group.2.length := rfl
    have hguard : (∀ p ∈ totals.previousHash, p < (entryOf offset group).hash) ∧
        (entryOf offset group).postingOffset = totals.expectedPostingOffset ∧
        representableStreamOffset (entryOf offset group).postingOffset := by
      refine ⟨fun p hp => hprevious p hp group List.mem_cons_self, hoffset.symm, ?_⟩
      exact representableStreamOffset_iff.mpr (by simp only [entryOf]; omega)
    have hend : checkedAdd totals.expectedPostingOffset (entryOf offset group).postingByteLength =
        some (offset + (groupBytes group).length) :=
      checkedAdd_eq_some.mpr ⟨by rw [hoffset, hlength], by omega⟩
    have hcount : checkedAdd totals.totalOccurrences (entryOf offset group).occurrenceCount =
        some (totals.totalOccurrences + group.2.length) :=
      checkedAdd_eq_some.mpr ⟨by rw [hoccurrence], by omega⟩
    have hafter : ∀ p ∈ some group.1, ∀ g ∈ groups, p < g.1 := by
      intro p hp g hg
      obtain rfl := Option.some.inj hp
      exact hascending.1 _ (List.mem_map_of_mem hg)
    have htail := @ih (offset + (groupBytes group).length) ⟨offset + (groupBytes group).length,
      some group.1, totals.totalOccurrences + group.2.length⟩ rfl hafter hascending.2 (by omega)
      (by dsimp only; omega)
    obtain ⟨last, hlast⟩ := htail
    refine ⟨last, ?_⟩
    have hstep : checkDirectoryEntry totals (entryOf offset group) =
        some ⟨offset + (groupBytes group).length, some group.1,
          totals.totalOccurrences + group.2.length⟩ := by
      simp only [checkDirectoryEntry, guard_of hguard, hend, hcount, Option.bind_eq_bind,
        Option.bind_some, Option.pure_def]
      rfl
    rw [entriesFrom, List.foldlM_cons, hstep, Option.bind_eq_bind, Option.bind_some, hlast]
    simp only [List.flatMap_cons, List.length_append, Nat.add_assoc]

end Directory

section Open

/-- What is left to assemble once the last position and the last block have been flushed. -/
structure Finished (groups : List HashGroup) (blocks : List (List DirectoryBlockEntry))
    (s : MergeState) : Prop where
  output : s.output = List.replicate fixedHeaderSize 0 ++ groups.flatMap groupBytes
  entries : blocks.flatten = entriesFrom fixedHeaderSize groups
  size : ∀ block ∈ blocks, block ≠ [] ∧ block.length ≤ maxDirectoryBlockEntries
  dirspool : s.dirspool = blocks.flatMap directoryBlockBytes
  sparse : s.sparse = sparseFrom 0 blocks
  distinct : s.distinctHashCount = groups.length

theorem AtBoundary.finished {groups : List HashGroup} {s : MergeState} (h : AtBoundary groups s) :
    ∃ blocks, Finished groups blocks s.flushDirectoryBlock ∧
      s.flushDirectoryBlock.totalOccurrences = s.totalOccurrences := by
  obtain ⟨blocks, hfull, hentries, hroom, hspool, hsparse⟩ := h.directory
  have hsize : ∀ block ∈ blocks, block ≠ [] ∧ block.length ≤ maxDirectoryBlockEntries := by
    intro block hblock
    have hlen := hfull block hblock
    refine ⟨?_, hlen.le⟩
    rintro rfl
    simp [maxDirectoryBlockEntries] at hlen
  by_cases hpending : s.pending = []
  · have hflush : s.flushDirectoryBlock = s := by
      unfold MergeState.flushDirectoryBlock
      rw [hpending]
    rw [hflush]
    rw [hpending, List.append_nil] at hentries
    exact ⟨blocks, ⟨h.output, hentries, hsize, hspool, hsparse, h.distinct⟩, rfl⟩
  · rw [flushDirectoryBlock_eq hpending]
    refine ⟨blocks ++ [s.pending], ⟨h.output, ?_, ?_, ?_, ?_, h.distinct⟩, rfl⟩
    · rw [← hentries]
      simp
    · intro block hblock
      rcases List.mem_append.mp hblock with hblock | hblock
      · exact hsize block hblock
      · rw [List.mem_singleton.mp hblock]
        exact ⟨hpending, hroom.le⟩
    · simp [hspool]
    · simp only [hsparse, hspool, sparseFrom_concat, Nat.zero_add]

def assembledHeader (b : Builder) (s : MergeState) : Header :=
  let metadataBytes := (sortMetadata b.gameMetadata).flatMap metadataRecordBytes
  ⟨b.indexedGameCount, s.totalOccurrences, s.distinctHashCount, s.output.length,
    (sortMetadata b.gameMetadata).length, s.output.length + metadataBytes.length,
    s.dirspool.length, s.output.length + metadataBytes.length + s.dirspool.length,
    s.sparse.length⟩

/-- What a reader of the assembled file keeps in memory. -/
def assembledReader (b : Builder) (s : MergeState) (blocks : List (List DirectoryBlockEntry)) :
    Reader :=
  ⟨assembledHeader b s, (sortMetadata b.gameMetadata).map metadataRecord,
    sparseFrom (assembledHeader b s).directoryOffset blocks⟩

theorem mem_sortMetadata {metadata : List (ℕ × GameMetadata)} {item : ℕ × GameMetadata} :
    item ∈ sortMetadata metadata ↔ item ∈ metadata := Order.mem_sortBy

/-- A finished merge over acceptable groups and metadata, whose file a stream can address. -/
structure Assembled (groups : List HashGroup) (blocks : List (List DirectoryBlockEntry))
    (b : Builder) (s : MergeState) : Prop where
  finished : Finished groups blocks s
  total : s.totalOccurrences = (groups.flatMap Prod.snd).length
  ascending : (groups.map Prod.fst).Pairwise (· < ·)
  groupOk : ∀ g ∈ groups, GroupOk g
  gameCount : b.indexedGameCount = b.gameMetadata.length
  metadataNodup : (b.gameMetadata.map Prod.fst).Nodup
  metadataOk : ∀ item ∈ b.gameMetadata, MetadataOk item
  size : (assembleArtifact b s).length < 2 ^ 63

variable {groups : List HashGroup} {blocks : List (List DirectoryBlockEntry)} {b : Builder}
  {s : MergeState}

private theorem Finished.assembleArtifact_eq (h : Finished groups blocks s) :
    assembleArtifact b s = headerBytes (assembledHeader b s) ++ groups.flatMap groupBytes ++
      (sortMetadata b.gameMetadata).flatMap metadataRecordBytes ++
      blocks.flatMap directoryBlockBytes ++
      (sparseFrom (assembledHeader b s).directoryOffset blocks).flatMap
        (sparseRecordBytes 0) := by
  have hdrop : s.output.drop fixedHeaderSize = groups.flatMap groupBytes := by
    rw [h.output]
    exact List.drop_left' (by simp)
  have hsparse : s.sparse.flatMap (sparseRecordBytes (assembledHeader b s).directoryOffset) =
      (sparseFrom (assembledHeader b s).directoryOffset blocks).flatMap
        (sparseRecordBytes 0) := by
    rw [h.sparse, sparseRecordBytes_add, Nat.add_zero]
  rw [← hsparse, ← hdrop, ← h.dirspool]
  rfl

private theorem length_occurrences_le_bytes (groups : List HashGroup) :
    (groups.flatMap Prod.snd).length ≤ (groups.flatMap groupBytes).length := by
  induction groups with
  | nil => exact le_refl _
  | cons g groups ih =>
    have hhead := length_occurrences_le g
    rw [List.flatMap_cons, List.flatMap_cons, List.length_append, List.length_append]
    omega

theorem length_groups_le {groups : List HashGroup} (h : ∀ g ∈ groups, GroupOk g) :
    groups.length ≤ (groups.flatMap Prod.snd).length := by
  induction groups with
  | nil => exact le_refl _
  | cons g groups ih =>
    have hhead := List.length_pos_iff.mpr (h g List.mem_cons_self).ne_nil
    have htail := ih fun x hx => h x (List.mem_cons_of_mem _ hx)
    rw [List.flatMap_cons, List.length_append, List.length_cons]
    omega

private theorem length_flatMap_metadata (items : List (ℕ × GameMetadata)) :
    (items.flatMap metadataRecordBytes).length = items.length * metadataRecordSize := by
  induction items with
  | nil => rfl
  | cons item items ih =>
    rw [List.flatMap_cons, List.length_append, ih, length_metadataRecordBytes, List.length_cons,
      Nat.succ_mul, Nat.add_comm]

private theorem length_flatMap_sparse (sparse : List SparseEntry) :
    (sparse.flatMap (sparseRecordBytes 0)).length = sparse.length * sparseRecordSize := by
  induction sparse with
  | nil => rfl
  | cons entry sparse ih =>
    rw [List.flatMap_cons, List.length_append, ih, length_sparseRecordBytes, List.length_cons,
      Nat.succ_mul, Nat.add_comm]

theorem Finished.length_assembleArtifact (h : Finished groups blocks s) :
    (assembledHeader b s).metadataOffset = fixedHeaderSize + (groups.flatMap groupBytes).length ∧
    (assembledHeader b s).metadataOffset +
        (assembledHeader b s).metadataCount * metadataRecordSize =
      (assembledHeader b s).directoryOffset ∧
    (assembledHeader b s).directoryOffset + (assembledHeader b s).directoryByteLength =
      (assembledHeader b s).sparseOffset ∧
    (assembledHeader b s).sparseOffset + (assembledHeader b s).sparseCount * sparseRecordSize =
      (assembleArtifact b s).length := by
  have hsparse : s.sparse.length = blocks.length := by rw [h.sparse, length_sparseFrom]
  have houtput : s.output.length = fixedHeaderSize + (groups.flatMap groupBytes).length := by
    rw [h.output, List.length_append, List.length_replicate]
  have hmetadata := length_flatMap_metadata (sortMetadata b.gameMetadata)
  refine ⟨houtput, by rw [assembledHeader, hmetadata], rfl, ?_⟩
  rw [h.assembleArtifact_eq]
  simp only [List.length_append, length_headerBytes, length_flatMap_sparse, length_sparseFrom,
    hmetadata, ← h.dirspool]
  simp only [assembledHeader, hmetadata, houtput, hsparse]

theorem Assembled.blockOk (h : Assembled groups blocks b s) : ∀ block ∈ blocks, BlockOk block := by
  intro block hblock
  obtain ⟨hne, hlen⟩ := h.finished.size block hblock
  obtain ⟨hstart, hmetadata, hdirectory, hend⟩ := h.finished.length_assembleArtifact (b := b)
  have hsize := h.size
  have hrep : Representable (entriesFrom fixedHeaderSize groups) :=
    representable_entriesFrom h.ascending h.groupOk (by omega)
  rw [← h.finished.entries] at hrep
  exact ⟨hne, hlen, hrep.sublist (List.infix_of_mem_flatten hblock)⟩

theorem Finished.storedAt (h : Finished groups blocks s) :
    List.Forall₂ (StoredAt (assembleArtifact b s))
      (sparseFrom (assembledHeader b s).directoryOffset blocks) blocks := by
  obtain ⟨hstart, hmetadata, _, _⟩ := h.length_assembleArtifact (b := b)
  have hmetadataBytes : ((sortMetadata b.gameMetadata).flatMap metadataRecordBytes).length =
      (assembledHeader b s).metadataCount * metadataRecordSize :=
    length_flatMap_metadata (sortMetadata b.gameMetadata)
  rw [h.assembleArtifact_eq]
  exact forall₂_storedAt (by simp only [List.length_append, length_headerBytes]; omega)

theorem Finished.readAt_groupBytes {front back : List HashGroup} {group : HashGroup}
    (h : Finished (front ++ group :: back) blocks s) :
    readAt (assembleArtifact b s) (fixedHeaderSize + (front.flatMap groupBytes).length)
      (groupBytes group).length = .ok (groupBytes group) := by
  rw [h.assembleArtifact_eq, List.flatMap_append, List.flatMap_cons]
  have hfile : ∀ header rest₁ rest₂ rest₃ : List UInt8,
      header ++ (front.flatMap groupBytes ++ (groupBytes group ++ back.flatMap groupBytes)) ++
        rest₁ ++ rest₂ ++ rest₃ =
      header ++ front.flatMap groupBytes ++ groupBytes group ++
        (back.flatMap groupBytes ++ rest₁ ++ rest₂ ++ rest₃) := by
    intro header rest₁ rest₂ rest₃
    simp only [List.append_assoc]
  rw [hfile]
  exact readAt_segment (by rw [List.length_append, length_headerBytes])

private theorem Assembled.headerFits (h : Assembled groups blocks b s) : (assembledHeader b s).Fits := by
  obtain ⟨hstart, hmetadata, hdirectory, hend⟩ := h.finished.length_assembleArtifact (b := b)
  have hsize := h.size
  have hoccurrences := length_occurrences_le_bytes groups
  have hgroups := length_groups_le h.groupOk
  have htotal := h.total
  have hdistinct := h.finished.distinct
  have hcount : (assembledHeader b s).indexedGameCount = (assembledHeader b s).metadataCount := by
    rw [assembledHeader, h.gameCount, sortMetadata, Order.length_sortBy]
  have htotal' : (assembledHeader b s).occurrenceCount = s.totalOccurrences := rfl
  have hdistinct' : (assembledHeader b s).distinctHashCount = s.distinctHashCount := rfl
  unfold metadataRecordSize at hmetadata
  unfold sparseRecordSize at hend
  constructor <;> omega

theorem Assembled.openArtifact_eq (h : Assembled groups blocks b s) :
    openArtifact (assembleArtifact b s) =
      if CountsFit (entriesFrom fixedHeaderSize groups) then .ok (assembledReader b s blocks)
      else .error .schemaMismatch := by
  obtain ⟨hstart, hmetadataEnd, hdirectoryEnd, hend⟩ :=
    h.finished.length_assembleArtifact (b := b)
  have hsize := h.size
  have hbytes := length_flatMap_metadata (sortMetadata b.gameMetadata)
  have hoccurrences := length_occurrences_le_bytes groups
  have hgroups := length_groups_le h.groupOk
  have hentries := congrArg List.length h.finished.entries
  rw [length_entriesFrom] at hentries
  have hhashes : (blocks.flatten.map DirectoryBlockEntry.hash).Pairwise (· < ·) := by
    rw [h.finished.entries, map_hash_entriesFrom]
    exact h.ascending
  have hcount : (assembledHeader b s).metadataCount = (assembledHeader b s).indexedGameCount := by
    rw [assembledHeader, h.gameCount, sortMetadata, Order.length_sortBy]
  have hfile := h.finished.assembleArtifact_eq (b := b)
  have hheader : parseHeader (assembleArtifact b s) = some (assembledHeader b s) := by
    rw [hfile]
    simp only [List.append_assoc]
    exact parseHeader_bytes h.headerFits _
  have hsections := checkSections_eq hcount (by omega) hmetadataEnd hdirectoryEnd hend hsize
  have hmetadata : readMetadata (assembledHeader b s).metadataCount none
      ((assembleArtifact b s).drop (assembledHeader b s).metadataOffset) =
      some ((sortMetadata b.gameMetadata).map metadataRecord) := by
    rw [hfile, List.append_assoc, List.append_assoc, List.drop_left' (by simp [hstart])]
    exact readMetadata_bytes _ (fun item hitem => h.metadataOk item (mem_sortMetadata.mp hitem))
      (Order.pairwise_lt_map_sortBy h.metadataNodup) (by simp)
  have hspool : (assembledHeader b s).directoryByteLength =
      (blocks.flatMap directoryBlockBytes).length := by
    rw [assembledHeader, h.finished.dirspool]
  have hsparseCount : (assembledHeader b s).sparseCount = blocks.length := by
    rw [assembledHeader, h.finished.sparse, length_sparseFrom]
  have hmetadataBytes : ((sortMetadata b.gameMetadata).flatMap metadataRecordBytes).length =
      (assembledHeader b s).metadataCount * metadataRecordSize := hbytes
  have hsparse : readSparseDirectory (assembledHeader b s).sparseCount none
      (assembledHeader b s).directoryOffset 0
      ((assembleArtifact b s).drop (assembledHeader b s).sparseOffset) =
      some (sparseFrom (assembledHeader b s).directoryOffset blocks,
        (assembledHeader b s).sparseOffset, (assembledHeader b s).distinctHashCount) := by
    have hread := @readSparseDirectory_bytes blocks none (assembledHeader b s).directoryOffset 0 []
      h.blockOk hhashes (by simp) (by omega) (by omega)
    have hdistinct : (assembledHeader b s).distinctHashCount = 0 + blocks.flatten.length := by
      rw [assembledHeader, h.finished.distinct, Nat.zero_add, hentries]
    rw [hfile, List.drop_left' (by simp only [List.length_append, length_headerBytes]; omega),
      hsparseCount, ← hdirectoryEnd, hspool, hdistinct]
    simpa using hread
  obtain ⟨last, hlast⟩ := @foldlM_checkDirectoryEntry_entriesFrom groups fixedHeaderSize
    ⟨fixedHeaderSize, none, 0⟩ rfl (by simp) h.ascending (by omega) (by dsimp only; omega)
  rw [openArtifact, hheader]
  simp only [orSchemaMismatch, ok_bind, hsections, hmetadata, hsparse, ne_eq, not_true_eq_false,
    or_self, if_false, foldlM_checkDirectoryBlock_bytes h.finished.storedAt h.blockOk, h.finished.entries,
    hlast]
  split
  · have htotals : ¬(fixedHeaderSize + (groups.flatMap groupBytes).length ≠
        (assembledHeader b s).metadataOffset ∨
        0 + (groups.flatMap Prod.snd).length ≠ (assembledHeader b s).occurrenceCount) := by
      have htotal : (assembledHeader b s).occurrenceCount = (groups.flatMap Prod.snd).length :=
        h.total
      omega
    rw [ok_bind, if_neg htotals]
    rfl
  · rfl

end Open

end MotifChess.Db.PositionPostings
