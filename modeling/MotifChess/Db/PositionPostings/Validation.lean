/- GID: MotifChess/Db/PositionPostings/Validation
   generality: implementation
   digest: What a successful open guarantees of an arbitrary artifact file. -/

import MotifChess.Db.PositionPostings.Reader
import MotifChess.Order.Tiling

set_option autoImplicit false
set_option relaxedAutoImplicit false

namespace MotifChess.Db.PositionPostings

open Codec LittleEndian
open MotifChess.Order (Tiles)

def DirectoryBlockEntry.range (entry : DirectoryBlockEntry) : ℕ × ℕ :=
  (entry.postingOffset, entry.postingByteLength)

def SparseEntry.range (sparse : SparseEntry) : ℕ × ℕ :=
  (sparse.blockOffset, sparse.blockByteLength)

/-- The relations between the sections of a file that the reader holds open. -/
structure Intact (file : List UInt8) (reader : Reader) (entries : List DirectoryBlockEntry) :
    Prop where
  metadata_ascending : reader.metadata.Pairwise fun a b => a.id < b.id
  metadata_nonzero : ∀ record ∈ reader.metadata, record.id ≠ 0
  metadata_count : reader.metadata.length = reader.header.indexedGameCount
  sections : Tiles 0 [(0, fixedHeaderSize),
    (fixedHeaderSize, reader.header.metadataOffset - fixedHeaderSize),
    (reader.header.metadataOffset, reader.metadata.length * metadataRecordSize),
    (reader.header.directoryOffset, reader.header.directoryByteLength),
    (reader.header.sparseOffset, reader.sparseDirectory.length * sparseRecordSize)] file.length
  blocks : Tiles reader.header.directoryOffset (reader.sparseDirectory.map SparseEntry.range)
    reader.header.sparseOffset
  postings : Tiles fixedHeaderSize (entries.map DirectoryBlockEntry.range)
    reader.header.metadataOffset
  hashes_ascending : (entries.map DirectoryBlockEntry.hash).Pairwise (· < ·)
  distinct_total : entries.length = reader.header.distinctHashCount
  occurrence_total :
    (entries.map DirectoryBlockEntry.occurrenceCount).sum = reader.header.occurrenceCount
  valid : ∀ entry ∈ entries, entry.Valid ∧ entry.hash < 2 ^ 64
  offsets_fit : reader.header.metadataOffset ≤ streamoffMax ∧
    reader.header.sparseOffset ≤ streamoffMax ∧ file.length < 2 ^ 64

section Sections

private theorem checkSections_sound {h : Header} {fileSize : ℕ}
    (hcheck : checkSections h fileSize = some ()) :
    h.metadataCount = h.indexedGameCount ∧ fixedHeaderSize ≤ h.metadataOffset ∧
      h.metadataOffset + h.metadataCount * metadataRecordSize = h.directoryOffset ∧
      h.directoryOffset + h.directoryByteLength = h.sparseOffset ∧
      h.sparseOffset + h.sparseCount * sparseRecordSize = fileSize ∧
      h.metadataOffset ≤ streamoffMax ∧ h.sparseOffset ≤ streamoffMax ∧ fileSize < 2 ^ 64 := by
  simp only [checkSections, Option.bind_eq_bind, Option.bind_eq_some_iff, Option.guard_eq_some',
    checkedMultiply_eq_some, checkedAdd_eq_some, representableStreamOffset, decide_eq_true_eq,
    exists_const] at hcheck
  obtain ⟨⟨hcount, hstart⟩, _, ⟨rfl, _⟩, _, ⟨rfl, _⟩, hmetadata, _, ⟨rfl, _⟩, hdirectory,
    _, ⟨rfl, _⟩, _, ⟨rfl, hfit⟩, hend, hmetadataFit, hsparseFit⟩ := hcheck
  exact ⟨hcount, hstart, hmetadata, hdirectory, hend, hmetadataFit, hsparseFit, hend ▸ hfit⟩

private theorem readMetadataRecord_id_ne {input rest : List UInt8} {record : MetadataRecord}
    (h : readMetadataRecord input = some (record, rest)) : record.id ≠ 0 := by
  simp only [readMetadataRecord, Option.bind_eq_bind, Option.bind_eq_some_iff,
    Option.guard_eq_some', Option.pure_def, Option.some.injEq, Prod.mk.injEq, Prod.exists,
    exists_const] at h
  obtain ⟨id, _, hid, _, _, _, _, _, _, _, _, _, _, _, _, ⟨hne, _⟩, rfl, _⟩ := h
  have hlt : id < 2 ^ 32 := readLe_lt hid
  intro hzero
  have hid : (UInt32.ofNat id).toNat = 0 := congrArg UInt32.toNat hzero
  rw [UInt32.toNat_ofNat', Nat.mod_eq_of_lt hlt] at hid
  exact hne hid

private theorem readMetadata_sound {count : ℕ} {previous : Option UInt32} {input : List UInt8}
    {records : List MetadataRecord} (h : readMetadata count previous input = some records) :
    records.length = count ∧ (∀ record ∈ records, record.id ≠ 0) ∧
      (previous.toList ++ records.map MetadataRecord.id).IsChain (· < ·) := by
  induction count generalizing previous input records with
  | zero =>
    obtain rfl := Option.some.inj h
    refine ⟨rfl, by simp, ?_⟩
    cases previous <;> simp
  | succ count ih =>
    simp only [readMetadata, Option.bind_eq_bind, Option.bind_eq_some_iff, Option.guard_eq_some',
      Option.pure_def, Option.some.injEq, Prod.exists, exists_const] at h
    obtain ⟨record, _, hrecord, hprevious, tail, htail, rfl⟩ := h
    rw [Option.all_eq_true] at hprevious
    obtain ⟨hlen, hne, hchain⟩ := ih htail
    refine ⟨by simp [hlen], ?_, ?_⟩
    · simpa using ⟨readMetadataRecord_id_ne hrecord, hne⟩
    · cases previous with
      | none => simpa using hchain
      | some id => exact List.IsChain.cons_cons (of_decide_eq_true (hprevious id rfl)) hchain

private theorem readSparseDirectory_sound {count expected total stop sum : ℕ}
    {previous : Option ℕ} {input : List UInt8} {entries : List SparseEntry}
    (h : readSparseDirectory count previous expected total input = some (entries, stop, sum)) :
    entries.length = count ∧ Tiles expected (entries.map SparseEntry.range) stop ∧
      sum = total + (entries.map SparseEntry.entryCount).sum ∧
      (previous.toList ++ entries.map SparseEntry.firstHash).IsChain (· < ·) := by
  induction count generalizing previous expected total input entries with
  | zero =>
    simp only [readSparseDirectory, Option.some.injEq, Prod.mk.injEq] at h
    obtain ⟨rfl, rfl, rfl⟩ := h
    refine ⟨rfl, rfl, rfl, ?_⟩
    cases previous <;> simp
  | succ count ih =>
    simp only [readSparseDirectory, Option.bind_eq_bind, Option.bind_eq_some_iff,
      Option.guard_eq_some', Option.pure_def, Option.some.injEq, Prod.mk.injEq, Prod.exists,
      exists_const, checkedAdd_eq_some] at h
    obtain ⟨hash, _, _, offset, _, _, length, _, _, entryCount, _, _, ⟨_, _, _, _, hoffset, _⟩,
      hprevious, _, ⟨rfl, _⟩, _, ⟨rfl, _⟩, tail, _, _, htail, rfl, rfl, rfl⟩ := h
    obtain ⟨hlen, htiles, hsum, hchain⟩ := ih htail
    refine ⟨by simp [hlen], ⟨hoffset, htiles⟩, ?_, ?_⟩
    · rw [hsum, List.map_cons, List.sum_cons, Nat.add_assoc]
    · cases previous with
      | none => simpa using hchain
      | some id => exact List.IsChain.cons_cons (hprevious id rfl) hchain

end Sections

section Directory

private theorem foldlM_checkDirectoryEntry {entries : List DirectoryBlockEntry}
    {totals totals' : DirectoryTotals}
    (h : entries.foldlM checkDirectoryEntry totals = some totals') :
    Tiles totals.expectedPostingOffset (entries.map DirectoryBlockEntry.range)
        totals'.expectedPostingOffset ∧
      totals'.totalOccurrences =
        totals.totalOccurrences + (entries.map DirectoryBlockEntry.occurrenceCount).sum ∧
      (totals.previousHash.toList ++ entries.map DirectoryBlockEntry.hash).IsChain (· < ·) := by
  induction entries generalizing totals with
  | nil =>
    obtain rfl := Option.some.inj h
    refine ⟨rfl, rfl, ?_⟩
    cases totals.previousHash <;> simp
  | cons entry entries ih =>
    simp only [List.foldlM_cons, checkDirectoryEntry, Option.bind_eq_bind, Option.bind_eq_some_iff,
      Option.guard_eq_some', Option.pure_def, Option.some.injEq, exists_const,
      checkedAdd_eq_some] at h
    obtain ⟨_, ⟨⟨hprevious, hoffset, _⟩, _, ⟨rfl, _⟩, _, ⟨rfl, _⟩, rfl⟩, htail⟩ := h
    obtain ⟨htiles, hsum, hchain⟩ := ih htail
    refine ⟨⟨hoffset, htiles⟩, ?_, ?_⟩
    · rw [hsum, List.map_cons, List.sum_cons, Nat.add_assoc]
    · cases hprev : totals.previousHash with
      | none => simpa using hchain
      | some id => exact List.IsChain.cons_cons (hprevious id hprev) hchain

/-- The block that a sparse entry points to, with the count and first hash recorded there. -/
structure BlockOf (file : List UInt8) (sparse : SparseEntry) (block : List DirectoryBlockEntry) :
    Prop where
  read : readDirectoryBlock file sparse = .ok block
  count : block.length = sparse.entryCount
  first : block.head?.map DirectoryBlockEntry.hash = some sparse.firstHash

private theorem foldlM_checkDirectoryBlock {file : List UInt8} {sparse : List SparseEntry}
    {totals totals' : DirectoryTotals}
    (h : sparse.foldlM (checkDirectoryBlock file) totals = .ok totals') :
    ∃ blocks, List.Forall₂ (BlockOf file) sparse blocks ∧
      blocks.flatten.foldlM checkDirectoryEntry totals = some totals' := by
  induction sparse generalizing totals with
  | nil =>
    obtain rfl := Except.ok.inj h
    exact ⟨[], List.Forall₂.nil, rfl⟩
  | cons first sparse ih =>
    rw [List.foldlM_cons, bind_eq_ok] at h
    obtain ⟨middle, hfirst, hrest⟩ := h
    rw [checkDirectoryBlock, bind_eq_ok] at hfirst
    obtain ⟨block, hread, hcheck⟩ := hfirst
    split at hcheck
    · cases hcheck
    · next hshape =>
      rw [orSchemaMismatch_eq_ok] at hcheck
      obtain ⟨blocks, hblocks, hfold⟩ := ih hrest
      have hcount : block.length = first.entryCount := by
        by_contra hne
        exact hshape (Or.inl hne)
      have hfirst : block.head?.map DirectoryBlockEntry.hash = some first.firstHash := by
        by_contra hne
        exact hshape (Or.inr hne)
      refine ⟨block :: blocks, hblocks.cons ⟨hread, hcount, hfirst⟩, ?_⟩
      rw [List.flatten_cons, List.foldlM_append, hcheck]
      exact hfold

end Directory

section Queries

variable {file : List UInt8} {sparse : List SparseEntry}
  {blocks : List (List DirectoryBlockEntry)}

theorem foldlM_readDirectoryBlock (hblocks : List.Forall₂ (BlockOf file) sparse blocks)
    {σ : Type} (visit : σ → DirectoryBlockEntry → Result σ) (init : σ) :
    sparse.foldlM (fun s sparse => do
      let entries ← readDirectoryBlock file sparse
      entries.foldlM visit s) init = blocks.flatten.foldlM visit init := by
  induction hblocks generalizing init with
  | nil => rfl
  | cons hblock _ ih =>
    rw [List.foldlM_cons, hblock.read, ok_bind, List.flatten_cons, List.foldlM_append]
    exact bind_congr ih

private theorem firstHash_le {first : SparseEntry} {block : List DirectoryBlockEntry}
    (hblock : BlockOf file first block)
    (hascending : (block.map DirectoryBlockEntry.hash).Pairwise (· < ·)) :
    ∀ entry ∈ block, first.firstHash ≤ entry.hash := by
  have hfirst := hblock.first
  cases block with
  | nil => cases hfirst
  | cons head block =>
    have hhead : first.firstHash = head.hash := by simpa using hfirst.symm
    rw [List.map_cons, List.pairwise_cons] at hascending
    intro entry hentry
    rw [hhead]
    rcases List.mem_cons.mp hentry with rfl | hentry
    · exact le_refl _
    · exact (hascending.1 _ (List.mem_map_of_mem hentry)).le

private theorem forall₂_append_left {α β : Type} {R : α → β → Prop} {front back : List α}
    {l : List β} (h : List.Forall₂ R (front ++ back) l) :
    ∃ l₁ l₂, l = l₁ ++ l₂ ∧ List.Forall₂ R front l₁ ∧ List.Forall₂ R back l₂ := by
  refine ⟨l.take front.length, l.drop front.length, (List.take_append_drop _ _).symm, ?_, ?_⟩
  · simpa using List.forall₂_take front.length h
  · simpa using List.forall₂_drop front.length h

private theorem find?_append_of_forall_ne {front back : List DirectoryBlockEntry} {hash : ℕ}
    (h : ∀ entry ∈ front, entry.hash ≠ hash) :
    (front ++ back).find? (fun entry => decide (entry.hash = hash)) =
      back.find? (fun entry => decide (entry.hash = hash)) := by
  have hnone : front.find? (fun entry => decide (entry.hash = hash)) = none := by
    rw [List.find?_eq_none]
    simpa using h
  rw [List.find?_append, hnone, Option.none_or]

private theorem lt_of_forall_firstHash_lt {hash : ℕ}
    (hblocks : List.Forall₂ (BlockOf file) sparse blocks)
    (hsparse : ∀ s ∈ sparse, hash < s.firstHash)
    (hascending : (blocks.flatten.map DirectoryBlockEntry.hash).Pairwise (· < ·)) :
    ∀ entry ∈ blocks.flatten, hash < entry.hash := by
  induction hblocks with
  | nil => simp
  | cons hblock _ ih =>
    rw [List.flatten_cons, List.map_append, List.pairwise_append] at hascending
    intro entry hentry
    rcases List.mem_append.mp hentry with hmem | hmem
    · exact (hsparse _ List.mem_cons_self).trans_le (firstHash_le hblock hascending.1 entry hmem)
    · exact ih (fun s hs => hsparse s (List.mem_cons_of_mem _ hs)) hascending.2.1 entry hmem

private theorem find?_eq_none_of_lt {entries : List DirectoryBlockEntry} {hash : ℕ}
    (h : ∀ entry ∈ entries, hash < entry.hash) :
    entries.find? (fun entry => decide (entry.hash = hash)) = none := by
  rw [List.find?_eq_none]
  intro entry hentry
  simpa using (h entry hentry).ne'

theorem findDirectoryBlockEntry_eq (hblocks : List.Forall₂ (BlockOf file) sparse blocks)
    (hsparse : (sparse.map SparseEntry.firstHash).SortedLT)
    (hascending : (blocks.flatten.map DirectoryBlockEntry.hash).Pairwise (· < ·)) (hash : ℕ) :
    findDirectoryBlockEntry file sparse hash =
      .ok (blocks.flatten.find? fun entry => decide (entry.hash = hash)) := by
  obtain ⟨front, back, rfl, hfront, hback⟩ :=
    Order.Bisection.ascending_split_le hsparse.sortedLE hash
  have hupper := Order.Bisection.upperBound_append hfront hback
  obtain ⟨low, high, rfl, hlow, hhigh⟩ := forall₂_append_left hblocks
  rw [List.flatten_append, List.map_append, List.pairwise_append] at hascending
  have hlarger := find?_eq_none_of_lt
    (lt_of_forall_firstHash_lt hhigh hback hascending.2.1)
  rw [findDirectoryBlockEntry, findSparseBlock, hupper, List.flatten_append]
  rcases List.eq_nil_or_concat' front with rfl | ⟨front, s, rfl⟩
  · cases hlow
    simp only [List.flatten_nil, List.nil_append, hlarger]
    rfl
  · obtain ⟨low, last, rfl, _, hlast⟩ := forall₂_append_left hlow
    obtain ⟨block, _, hblock, hnil, rfl⟩ := List.forall₂_cons_left_iff.mp hlast
    cases hnil
    rw [List.flatten_append, List.flatten_singleton, List.map_append, List.pairwise_append]
      at hascending
    obtain ⟨⟨_, hsorted, hbefore⟩, _⟩ := hascending
    have hsmaller : ∀ entry ∈ low.flatten, entry.hash ≠ hash := by
      intro entry hentry
      have hfirst := hblock.first
      cases block with
      | nil => cases hfirst
      | cons head block =>
        have hhead : head.hash = s.firstHash := by simpa using hfirst
        have hlt := hbefore _ (List.mem_map_of_mem hentry) head.hash (by simp)
        have hle := hfront s (by simp)
        omega
    have hget : (front ++ [s] ++ back)[(front ++ [s]).length - 1]? = some s := by simp
    rw [if_neg (by simp), hget, List.flatten_append, List.flatten_singleton, List.append_assoc,
      find?_append_of_forall_ne hsmaller, List.find?_append, hlarger, Option.or_none]
    dsimp only
    rw [hblock.read, ok_bind, Order.Bisection.findKey_eq_find? hsorted.sortedLT]
    rfl

end Queries

section Open

private theorem tiles_sections {h : Header} {metadataCount sparseCount size : ℕ}
    (hstart : fixedHeaderSize ≤ h.metadataOffset)
    (hmetadata : h.metadataOffset + metadataCount * metadataRecordSize = h.directoryOffset)
    (hdirectory : h.directoryOffset + h.directoryByteLength = h.sparseOffset)
    (hsparse : h.sparseOffset + sparseCount * sparseRecordSize = size) :
    Tiles 0 [(0, fixedHeaderSize), (fixedHeaderSize, h.metadataOffset - fixedHeaderSize),
      (h.metadataOffset, metadataCount * metadataRecordSize),
      (h.directoryOffset, h.directoryByteLength),
      (h.sparseOffset, sparseCount * sparseRecordSize)] size := by
  have hpostings : 0 + fixedHeaderSize + (h.metadataOffset - fixedHeaderSize) =
      h.metadataOffset := by omega
  refine ⟨rfl, (Nat.zero_add _).symm, ?_⟩
  rw [hpostings]
  refine ⟨rfl, ?_⟩
  rw [hmetadata]
  refine ⟨rfl, ?_⟩
  rw [hdirectory]
  exact ⟨rfl, hsparse⟩

private theorem length_flatten_blocks {file : List UInt8} {sparse : List SparseEntry}
    {blocks : List (List DirectoryBlockEntry)}
    (hblocks : List.Forall₂ (BlockOf file) sparse blocks) :
    blocks.flatten.length = (sparse.map SparseEntry.entryCount).sum := by
  induction hblocks with
  | nil => rfl
  | cons hblock _ ih =>
    rw [List.flatten_cons, List.length_append, ih, hblock.count, List.map_cons, List.sum_cons]

private theorem BlockOf.sound {file : List UInt8} {sparse : SparseEntry}
    {block : List DirectoryBlockEntry} (h : BlockOf file sparse block) :
    block ≠ [] ∧ block.length ≤ maxDirectoryBlockEntries ∧ block.IsChain Follows ∧
      ∀ e ∈ block, e.Valid ∧ e.hash < 2 ^ 64 ∧ e.postingOffset < 2 ^ 64 := by
  have hread := h.read
  rw [readDirectoryBlock, bind_eq_ok] at hread
  obtain ⟨_, _, hdecode⟩ := hread
  exact decodeDirectoryBlock_sound hdecode

private theorem valid_of_mem_blocks {file : List UInt8} {sparse : List SparseEntry}
    {blocks : List (List DirectoryBlockEntry)}
    (hblocks : List.Forall₂ (BlockOf file) sparse blocks) :
    ∀ entry ∈ blocks.flatten, entry.Valid ∧ entry.hash < 2 ^ 64 := by
  induction hblocks with
  | nil => simp
  | cons hblock _ ih =>
    intro entry hentry
    rcases List.mem_append.mp hentry with hmem | hmem
    · obtain ⟨hvalid, hhash, _⟩ := hblock.sound.2.2.2 entry hmem
      exact ⟨hvalid, hhash⟩
    · exact ih entry hmem

private theorem exists_block_of_mem {file : List UInt8} {sparse : List SparseEntry}
    {blocks : List (List DirectoryBlockEntry)}
    (hblocks : List.Forall₂ (BlockOf file) sparse blocks) {s : SparseEntry} (hs : s ∈ sparse) :
    ∃ block, BlockOf file s block := by
  induction hblocks with
  | nil => cases hs
  | cons hblock _ ih =>
    rcases List.mem_cons.mp hs with rfl | hs
    · exact ⟨_, hblock⟩
    · exact ih hs

theorem openArtifact_sound {file : List UInt8} {reader : Reader}
    (h : openArtifact file = .ok reader) :
    ∃ blocks, List.Forall₂ (BlockOf file) reader.sparseDirectory blocks ∧
      (reader.sparseDirectory.map SparseEntry.firstHash).SortedLT ∧
      Intact file reader blocks.flatten := by
  simp only [openArtifact, bind_eq_ok, orSchemaMismatch_eq_ok, Prod.exists] at h
  obtain ⟨header, _, _, hsections, metadata, hmetadata, sparse, stop, sum, hsparse, h⟩ := h
  split at h
  · cases h
  · next hdirectory =>
    rw [bind_eq_ok] at h
    obtain ⟨totals, htotals, h⟩ := h
    split at h
    · cases h
    · next hpostings =>
      obtain rfl := Except.ok.inj h
      obtain ⟨hcount, hstart, hmetadataEnd, hdirectoryEnd, hsparseEnd, hmetadataFit, hsparseFit,
        hfit⟩ := checkSections_sound hsections
      obtain ⟨hrecords, hnonzero, hids⟩ := readMetadata_sound hmetadata
      obtain ⟨hsparseCount, hblockTiles, hsum, hfirstHashes⟩ := readSparseDirectory_sound hsparse
      obtain ⟨blocks, hblocks, hfold⟩ := foldlM_checkDirectoryBlock htotals
      obtain ⟨hpostingTiles, hoccurrences, hhashes⟩ := foldlM_checkDirectoryEntry hfold
      have hstop : stop = header.sparseOffset := by
        by_contra hne
        exact hdirectory (Or.inl hne)
      have hdistinct : sum = header.distinctHashCount := by
        by_contra hne
        exact hdirectory (Or.inr hne)
      have hexpected : totals.expectedPostingOffset = header.metadataOffset := by
        by_contra hne
        exact hpostings (Or.inl hne)
      have htotal : totals.totalOccurrences = header.occurrenceCount := by
        by_contra hne
        exact hpostings (Or.inr hne)
      have hascending : (metadata.map MetadataRecord.id).IsChain (· < ·) := hids
      have hkeys : (sparse.map SparseEntry.firstHash).IsChain (· < ·) := hfirstHashes
      refine ⟨blocks, hblocks, hkeys.pairwise.sortedLT, ?_⟩
      exact
        { metadata_ascending := List.pairwise_map.mp hascending.pairwise
          metadata_nonzero := hnonzero
          metadata_count := hrecords.trans hcount
          sections := tiles_sections hstart (by rw [hrecords]; exact hmetadataEnd) hdirectoryEnd
            (by rw [hsparseCount]; exact hsparseEnd)
          blocks := hstop ▸ hblockTiles
          postings := hexpected ▸ hpostingTiles
          hashes_ascending := List.IsChain.pairwise hhashes
          distinct_total := by
            rw [length_flatten_blocks hblocks, ← hdistinct, hsum, Nat.zero_add]
          occurrence_total := by rw [← htotal, hoccurrences, Nat.zero_add]
          valid := valid_of_mem_blocks hblocks
          offsets_fit := ⟨hmetadataFit, hsparseFit, hfit⟩ }

private theorem firstSummary_eq {entries : List DirectoryBlockEntry} {hash : ℕ}
    {summary : PositionPostingsSummary}
    (hascending : (entries.map DirectoryBlockEntry.hash).Pairwise (· < ·)) :
    (entries.find? fun entry => decide (entry.hash = hash)).map DirectoryBlockEntry.summary =
        some summary ↔
      ∃ entry ∈ entries, entry.hash = hash ∧ entry.summary = summary := by
  rw [← Order.Bisection.findKey_eq_find? hascending.sortedLT]
  simp only [Option.map_eq_some_iff, Order.Bisection.findKey_eq_some hascending.sortedLT,
    and_assoc]

/-- An artifact that opens is intact, and its two-level search agrees with a full traversal. -/
theorem openArtifact_failClosed {file : List UInt8} {reader : Reader}
    (h : openArtifact file = .ok reader) :
    ∃ entries, Intact file reader entries ∧
      (∀ {σ : Type} (visitor : σ → ℕ → PositionPostingsSummary → Result σ) (init : σ),
        reader.forEachSummary file visitor init =
          entries.foldlM (fun s entry => visitor s entry.hash entry.summary) init) ∧
      (∀ hash, ∃ answer, reader.summary file hash = .ok answer ∧
        ∀ summary, answer = some summary ↔
          ∃ entry ∈ entries, entry.hash = hash ∧ entry.summary = summary) ∧
      (∀ sparse ∈ reader.sparseDirectory, ∃ block, readDirectoryBlock file sparse = .ok block ∧
        sparse.blockOffset + sparse.blockByteLength ≤ reader.header.sparseOffset) ∧
      ∀ entry ∈ entries,
        entry.postingOffset + entry.postingByteLength ≤ reader.header.metadataOffset ∧
        ∃ bytes, readAt file entry.postingOffset entry.postingByteLength = .ok bytes := by
  obtain ⟨blocks, hblocks, hsparse, hintact⟩ := openArtifact_sound h
  refine ⟨blocks.flatten, hintact, fun visitor init => ?_, fun hash => ?_, fun sparse hs => ?_,
    fun entry hentry => ?_⟩
  · exact foldlM_readDirectoryBlock hblocks
      (fun s (entry : DirectoryBlockEntry) => visitor s entry.hash entry.summary) init
  · refine ⟨_, ?_, fun summary => firstSummary_eq hintact.hashes_ascending⟩
    rw [Reader.summary, findDirectoryBlockEntry_eq hblocks hsparse hintact.hashes_ascending]
    rfl
  · obtain ⟨block, hblock⟩ := exists_block_of_mem hblocks hs
    exact ⟨block, hblock.read, (hintact.blocks.mem_le (List.mem_map_of_mem hs)).2⟩
  · have hend := (hintact.postings.mem_le (List.mem_map_of_mem hentry)).2
    have hfile : reader.header.metadataOffset ≤ file.length := by
      have hmetadata := (hintact.sections.mem_le
        (List.mem_cons_of_mem _ (List.mem_cons_of_mem _ List.mem_cons_self))).2
      exact (Nat.le_add_right _ _).trans hmetadata
    exact ⟨hend, _, readAt_eq_ok.mpr ⟨hend.trans hfile, rfl⟩⟩

/-- The file of one game that reaches the hashes 7 and 9. -/
def sampleArtifact : List UInt8 :=
  magic ++ [6, 0, 0, 0, 88, 0, 0, 0, 1, 0, 0, 0, 0, 0, 0, 0, 2, 0, 0, 0, 0, 0, 0, 0,
    2, 0, 0, 0, 0, 0, 0, 0, 94, 0, 0, 0, 0, 0, 0, 0, 1, 0, 0, 0, 0, 0, 0, 0,
    104, 0, 0, 0, 0, 0, 0, 0, 33, 0, 0, 0, 0, 0, 0, 0, 137, 0, 0, 0, 0, 0, 0, 0,
    1, 0, 0, 0, 0, 0, 0, 0] ++ [1, 1, 0, 1, 1, 1] ++ [1, 0, 0, 0, 2, 1, 208, 7, 0, 0] ++
    [7, 0, 0, 0, 0, 0, 0, 0, 88, 0, 0, 0, 0, 0, 0, 0, 2, 0, 0, 0, 2, 0, 0, 0, 0,
      3, 1, 0, 0, 3, 1, 1, 1] ++
    [7, 0, 0, 0, 0, 0, 0, 0, 104, 0, 0, 0, 0, 0, 0, 0, 33, 0, 0, 0, 2, 0]

def sampleReader : Reader where
  header := ⟨1, 2, 2, 94, 1, 104, 33, 137, 1⟩
  metadata := [⟨1, 1, some 2000, none⟩]
  sparseDirectory := [⟨7, 104, 33, 2⟩]

theorem openArtifact_failClosed_sample :
    openArtifact sampleArtifact = .ok sampleReader ∧
      ∃ entries, Intact sampleArtifact sampleReader entries := by
  have hopen : openArtifact sampleArtifact = .ok sampleReader := by decide +kernel
  obtain ⟨entries, hintact, _⟩ := openArtifact_failClosed hopen
  exact ⟨hopen, entries, hintact⟩

end Open

end MotifChess.Db.PositionPostings
