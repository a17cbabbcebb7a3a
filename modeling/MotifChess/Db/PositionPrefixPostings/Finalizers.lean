/- GID: MotifChess/Db/PositionPrefixPostings/Finalizers
   generality: implementation
   digest: Both ways to finalize write one file, and a reader of it answers with the ids of each prefix. -/

import MotifChess.Db.PositionPrefixPostings.Artifact
import Mathlib.Data.UInt

set_option autoImplicit false
set_option relaxedAutoImplicit false

namespace MotifChess.Db.PositionPrefixPostings

open Codec LittleEndian
open MotifChess.Order
open MotifChess.Order.Buckets

section Append

/-- The runs on disk and the buffer together hold the records of the rows, whatever their number. -/
structure Buffered (rows : List PositionRow) (runs : List (List Record)) (s : Sidecar) : Prop where
  files : s.spillFiles = runs.map spillBytes
  sorted : ∀ run ∈ runs, run.Pairwise (· < ·)
  mem : ∀ r, r ∈ runs.flatten ++ s.records ↔ r ∈ rows.map (Record.ofRow s.prefixBits)

variable {rows : List PositionRow} {runs : List (List Record)} {s : Sidecar}

theorem Buffered.new (prefixBits spillThreshold : ℕ) :
    Buffered [] [] { prefixBits, spillThreshold } where
  files := rfl
  sorted := by simp
  mem := by simp

theorem Buffered.spill (h : Buffered rows runs s) :
    ∃ t runs', s.spillCurrentBuffer true = (t, .ok ()) ∧ Buffered rows runs' t ∧ t.records = [] ∧
      t.prefixBits = s.prefixBits := by
  unfold Sidecar.spillCurrentBuffer
  split
  · next hempty => exact ⟨s, runs, rfl, h, by simpa using hempty, rfl⟩
  · refine ⟨_, runs ++ [sortUnique s.records], rfl, ⟨?_, ?_, ?_⟩, rfl, rfl⟩
    · rw [h.files, List.map_append, List.map_singleton]
    · intro run hrun
      rcases List.mem_append.mp hrun with hmem | hmem
      · exact h.sorted run hmem
      · rw [List.mem_singleton.mp hmem]
        exact pairwise_sortUnique _
    · intro r
      rw [← h.mem r, List.flatten_append, List.flatten_singleton, List.append_nil,
        List.mem_append, List.mem_append, mem_sortUnique]

theorem Buffered.push (h : Buffered rows runs s) (row : PositionRow) :
    Buffered (rows ++ [row]) runs
      { s with records := s.records ++ [Record.ofRow s.prefixBits row] } where
  files := h.files
  sorted := h.sorted
  mem r := by
    rw [← List.append_assoc, List.mem_append, h.mem, List.map_append, List.mem_append,
      List.map_singleton]

theorem Buffered.appendRows (h : Buffered rows runs s) (call : List PositionRow) :
    ∃ t runs', s.appendRows (fun _ => true) call = (t, .ok ()) ∧ Buffered (rows ++ call) runs' t ∧
      t.prefixBits = s.prefixBits := by
  induction call generalizing rows runs s with
  | nil => exact ⟨s, runs, rfl, by simpa using h, rfl⟩
  | cons row call ih =>
    have hpushed := h.push row
    rw [Sidecar.appendRows]
    dsimp only
    split
    · obtain ⟨t, runs', hspill, hspilled, -, hbits⟩ := hpushed.spill
      obtain ⟨u, runs'', happend, hbuffered, hbits'⟩ := ih hspilled
      rw [hspill]
      exact ⟨u, runs'', happend, by simpa using hbuffered, hbits'.trans hbits⟩
    · obtain ⟨u, runs'', happend, hbuffered, hbits'⟩ := ih hpushed
      exact ⟨u, runs'', happend, by simpa using hbuffered, hbits'⟩

/-- Calls of `append`, one after the other, until one fails. -/
def Sidecar.appendAll : List (List PositionRow) → Sidecar → Sidecar × Result Unit
  | [], s => (s, .ok ())
  | call :: calls, s =>
    match s.append (fun _ => true) call with
    | (s, .error e) => (s, .error e)
    | (s, .ok ()) => appendAll calls s

private theorem Buffered.appendAll (h : Buffered rows runs s) (hvalid : validPrefixBits s.prefixBits = true)
    (calls : List (List PositionRow)) :
    ∃ t runs', s.appendAll calls = (t, .ok ()) ∧ Buffered (rows ++ calls.flatten) runs' t ∧
      t.prefixBits = s.prefixBits := by
  induction calls generalizing rows runs s with
  | nil => exact ⟨s, runs, rfl, by simpa using h, rfl⟩
  | cons call calls ih =>
    obtain ⟨t, runs', happend, hbuffered, hbits⟩ := h.appendRows call
    obtain ⟨u, runs'', hrest, hbuffered', hbits'⟩ := ih hbuffered (hbits ▸ hvalid)
    rw [Sidecar.appendAll, Sidecar.append, if_pos hvalid, happend]
    exact ⟨u, runs'', hrest, by simpa using hbuffered', hbits'.trans hbits⟩

end Append

section Merge

variable {prefixBits : ℕ}

private theorem readRecord_bytes {r : Record} (hvalid : validPrefixBits prefixBits = true)
    (h : r.Fits prefixBits) (rest : List UInt8) :
    readRecord (r.bytes ++ rest) = some (r, rest) := by
  have hbits := two_pow_prefixBits_le hvalid
  have hprefix : r.prefixValue < 256 ^ 4 := by
    have hlt := h.prefix_lt
    omega
  have hgame : r.gameKey < 256 ^ 4 := h.game_lt
  rw [readRecord, Record.bytes, List.append_assoc, readLe_leBytes hprefix]
  simp only [Option.bind_eq_bind, Option.bind_some, readLe_leBytes hgame]
  rfl

private theorem delivers_of_input (hvalid : validPrefixBits prefixBits = true) {run : List Record}
    (hfits : ∀ r ∈ run, r.Fits prefixBits) (current : Record) :
    RunMerge.Delivers Cursor.current advanceCursor
      ⟨run.flatMap Record.bytes, run.length, current⟩ run := by
  induction run generalizing current with
  | nil => exact .done rfl
  | cons r run ih =>
    have hadvance : advanceCursor ⟨(r :: run).flatMap Record.bytes, (r :: run).length, current⟩ =
        .ok (some ⟨run.flatMap Record.bytes, run.length, r⟩) := by
      rw [advanceCursor, if_neg (by simp), List.flatMap_cons,
        readRecord_bytes hvalid (hfits r List.mem_cons_self)]
      rfl
    exact .next hadvance (ih (fun x hx => hfits x (List.mem_cons_of_mem _ hx)) r)

private theorem exists_openCursor (hvalid : validPrefixBits prefixBits = true) {run : List Record}
    (hsorted : run.Pairwise (· < ·)) (hfits : ∀ r ∈ run, r.Fits prefixBits) :
    ∃ c, openCursor (spillBytes run) = .ok c ∧
      RunMerge.Delivers Cursor.current advanceCursor c run := by
  have hcount : run.length < 256 ^ 8 := length_lt_of_fits hvalid (hsorted.imp ne_of_lt) hfits
  refine ⟨_, ?_, delivers_of_input hvalid hfits ⟨0, 0⟩⟩
  rw [openCursor, spillBytes, readLe_leBytes hcount]

theorem foldl_visit (merged : List Record) (s : MergeState) :
    let records := uniqueFrom s.previous merged
    let t := merged.foldl MergeState.visit s
    t.scratch = s.scratch ++ (records.map Record.gameKey).flatMap (leBytes 4) ∧
      t.bucketCounts =
        records.foldl (fun counts r => counts.modify r.prefixValue (· + 1)) s.bucketCounts ∧
      t.totalCount = s.totalCount + records.length := by
  induction merged generalizing s with
  | nil => simp [uniqueFrom]
  | cons r merged ih =>
    dsimp only at ih ⊢
    rw [List.foldl_cons, uniqueFrom]
    by_cases hsame : s.previous = some r
    · rw [if_pos hsame, MergeState.visit, if_pos hsame]
      exact ih s
    · rw [if_neg hsame]
      obtain ⟨hscratch, hcounts, htotal⟩ := ih (s.visit r)
      have hvisit : s.visit r = ⟨s.scratch ++ leBytes 4 r.gameKey,
          s.bucketCounts.modify r.prefixValue (· + 1), s.totalCount + 1, some r⟩ := if_neg hsame
      rw [hvisit] at hscratch hcounts htotal
      rw [hvisit]
      refine ⟨?_, hcounts, ?_⟩
      · rw [hscratch, List.map_cons, List.flatMap_cons, List.append_assoc]
      · rw [htotal, List.length_cons]
        dsimp only
        omega

private theorem length_flatten_le (runs : List (List Record)) :
    runs.flatten.length ≤ ((runs.map spillBytes).map List.length).sum := by
  induction runs with
  | nil => simp
  | cons run runs ih =>
    have hrun : run.length ≤ (run.flatMap Record.bytes).length := by
      induction run with
      | nil => simp
      | cons r run hle =>
        rw [List.flatMap_cons, List.length_append, List.length_cons]
        have hbytes : r.bytes.length = 8 := by simp [Record.bytes]
        omega
    rw [List.flatten_cons, List.length_append, List.map_cons, List.map_cons, List.sum_cons, spillBytes,
      List.length_append]
    omega

/-- Merging ascending runs writes the ids, counts the buckets, and counts the records of all runs, each
of them once. -/
private theorem mergeSpills_eq (hvalid : validPrefixBits prefixBits = true) {runs : List (List Record)}
    (hsorted : ∀ run ∈ runs, run.Pairwise (· < ·))
    (hfits : ∀ run ∈ runs, ∀ r ∈ run, r.Fits prefixBits) :
    ∃ merged, mergeSpills prefixBits (runs.map spillBytes) = .ok merged ∧
      merged.scratch =
        ((sortUnique runs.flatten).map Record.gameKey).flatMap (leBytes 4) ∧
      prefixSums 0 merged.bucketCounts = offsetsOf prefixBits (sortUnique runs.flatten) ∧
      merged.totalCount = (sortUnique runs.flatten).length := by
  have hopens : List.Forall₂ (fun file run => ∃ c, openCursor file = .ok c ∧
      RunMerge.Delivers Cursor.current advanceCursor c run) (runs.map spillBytes) runs := by
    rw [List.forall₂_map_left_iff, List.forall₂_same]
    exact fun run hrun => exists_openCursor hvalid (hsorted run hrun) (hfits run hrun)
  have hascending : ∀ run ∈ runs, run.Pairwise (· ≤ ·) := fun run hrun =>
    (hsorted run hrun).imp le_of_lt
  obtain ⟨cursors, heap, records, hcursors, hheap, hperm, hrecords, hmerge⟩ :=
    RunMerge.mergeFiles_eq_foldlM
      (fun s record => (.ok (MergeState.visit s record) : Result MergeState)) hopens hascending
      (Nat.lt_succ_of_le (length_flatten_le runs))
  have hunique : uniqueFrom none records = sortUnique runs.flatten := by
    change unique records = unique (Order.sortBy id runs.flatten)
    refine unique_congr hrecords (pairwise_sortBy _) fun r => ?_
    rw [hperm.mem_iff, Order.mem_sortBy]
  obtain ⟨hscratch, hcounts, htotal⟩ := foldl_visit records (.init prefixBits)
  rw [MergeState.init, hunique] at hscratch hcounts htotal
  refine ⟨records.foldl MergeState.visit (.init prefixBits), ?_, ?_, ?_, ?_⟩
  · have hfold : records.foldlM (fun s record => (.ok (MergeState.visit s record) : Result MergeState))
        (.init prefixBits) = .ok (records.foldl MergeState.visit (.init prefixBits)) :=
      List.foldlM_pure
    rw [mergeSpills, hcursors, ok_bind, hheap, ok_bind]
    dsimp only
    rw [hmerge, hfold]
  · rw [MergeState.init, hscratch, List.nil_append]
  · rw [MergeState.init, hcounts]
    exact prefixSums_bucketCounts
  · rw [MergeState.init, htotal, Nat.zero_add]

end Merge

section Finalize

variable {rows : List PositionRow} {runs : List (List Record)} {s : Sidecar}

private theorem sortUnique_congr {records records' : List Record}
    (h : ∀ r, r ∈ records ↔ r ∈ records') : sortUnique records = sortUnique records' := by
  refine unique_congr (pairwise_sortBy _) (pairwise_sortBy _) fun r => ?_
  rw [Order.mem_sortBy, Order.mem_sortBy, h]

theorem Buffered.fits (h : Buffered rows runs s) (hvalid : validPrefixBits s.prefixBits = true)
    {r : Record} (hr : r ∈ runs.flatten ++ s.records) : r.Fits s.prefixBits := by
  obtain ⟨row, -, rfl⟩ := List.mem_map.mp ((h.mem r).mp hr)
  exact Record.ofRow_fits hvalid row

theorem Buffered.finalizeExternalMerge (h : Buffered rows runs s)
    (hvalid : validPrefixBits s.prefixBits = true) :
    s.finalizeExternalMerge {} = ({ s with
      records := []
      spillFiles := []
      offsets := offsetsOf s.prefixBits (sortUnique (rows.map (Record.ofRow s.prefixBits)))
      postings := []
      file := some (artifactBytes s.prefixBits
        (sortUnique (rows.map (Record.ofRow s.prefixBits)))) }, .ok ()) := by
  obtain ⟨t, runs', hspill, hbuffered, hempty, hbits⟩ := h.spill
  have hkept : ∃ spillFiles, t = { s with records := [], spillFiles } := by
    unfold Sidecar.spillCurrentBuffer at hspill
    split at hspill
    · next hnone =>
      obtain ⟨rfl, -⟩ := Prod.mk.inj hspill
      exact ⟨s.spillFiles, by rw [← List.isEmpty_iff.mp hnone]⟩
    · obtain ⟨rfl, -⟩ := Prod.mk.inj hspill
      exact ⟨_, rfl⟩
  obtain ⟨spillFiles, rfl⟩ := hkept
  have hmem : ∀ r, r ∈ runs'.flatten ↔ r ∈ rows.map (Record.ofRow s.prefixBits) := by
    intro r
    have hr := hbuffered.mem r
    rwa [List.append_nil] at hr
  have hfits : ∀ run ∈ runs', ∀ r ∈ run, r.Fits s.prefixBits := fun run hrun r hr =>
    hbuffered.fits hvalid (List.mem_append_left _ (List.mem_flatten.mpr ⟨run, hrun, hr⟩))
  obtain ⟨merged, hmerged, hscratch, hoffsets, htotal⟩ :=
    mergeSpills_eq hvalid hbuffered.sorted hfits
  rw [sortUnique_congr hmem] at hscratch hoffsets htotal
  have hfiles : spillFiles = runs'.map spillBytes := hbuffered.files
  rw [Sidecar.finalizeExternalMerge, hspill]
  simp only [Bool.not_true, Bool.false_eq_true, if_false, hfiles, hmerged, Sidecar.writeArtifact,
    hoffsets, hscratch, htotal, artifactBytes]

theorem Buffered.finalize (h : Buffered rows runs s) (hvalid : validPrefixBits s.prefixBits = true) :
    ∃ t, s.finalize {} = (t, .ok ()) ∧ t.file = some (artifactBytes s.prefixBits
      (sortUnique (rows.map (Record.ofRow s.prefixBits)))) := by
  rw [Sidecar.finalize, if_pos hvalid]
  split
  · next hnone =>
    have hruns : runs = [] := by
      rw [h.files, List.isEmpty_iff, List.map_eq_nil_iff] at hnone
      exact hnone
    have hmem : ∀ r, r ∈ s.records ↔ r ∈ rows.map (Record.ofRow s.prefixBits) := by
      intro r
      rw [← h.mem r, hruns, List.flatten_nil, List.nil_append]
    rw [finalizeInMemory_published rfl, sortUnique_congr hmem]
    exact ⟨_, rfl, rfl⟩
  · rw [h.finalizeExternalMerge hvalid]
    exact ⟨_, rfl, rfl⟩

end Finalize

section Read

variable {prefixBits : ℕ} {records : List Record}

private theorem openFile_artifactBytes (hvalid : validPrefixBits prefixBits = true)
    (hsorted : records.Pairwise (· < ·)) (hfits : ∀ r ∈ records, r.Fits prefixBits)
    {s : Sidecar} (hbits : s.prefixBits = prefixBits)
    (hfile : s.file = some (artifactBytes prefixBits records)) :
    s.openFile = ({ s with
      offsets := offsetsOf prefixBits records
      postings := records.map Record.gameKey }, .ok ()) := by
  have hfitting := fitting_of_pairwise hvalid hsorted hfits
  have hcount := length_lt_of_fits hvalid (hsorted.imp ne_of_lt) hfits
  have hoffsets := @readInts_flatMap 8 _ hfitting.offset_lt
    ((records.map Record.gameKey).flatMap (leBytes 4))
  have hpostings := @readInts_flatMap 4 _ hfitting.posting_lt []
  rw [hfitting.length] at hoffsets
  rw [List.append_nil, List.length_map] at hpostings
  have hchecked : validOffsets records.length (offsetsOf prefixBits records) = true := by
    rw [validOffsets, decide_eq_true_eq]
    refine ⟨?_, ?_, hfitting.sorted⟩
    · rw [List.head?_eq_getElem?, offsetsOf, getElem?_bucketOffsets (Nat.zero_le _)]
      simp
    · rw [hfitting.last, List.length_map]
  simp only [Sidecar.openFile, hfile, hbits, artifactBytes, readHeader_headerBytes hvalid hcount,
    hoffsets, hchecked, hpostings, if_true]

private theorem candidates_of_records (hvalid : validPrefixBits prefixBits = true)
    (hsorted : records.Pairwise (· < ·)) {s : Sidecar} (hbits : s.prefixBits = prefixBits)
    (hoffsets : s.offsets = offsetsOf prefixBits records)
    (hpostings : s.postings = records.map Record.gameKey) (hash : UInt64) :
    s.candidates hash = .ids ((records.filter fun r =>
      r.prefixValue = prefixOf prefixBits hash).map Record.gameKey) := by
  have hlt := prefixOf_lt hvalid hash
  have hne : s.offsets.isEmpty = false := by
    rw [List.isEmpty_eq_false_iff, hoffsets]
    exact List.ne_nil_of_length_pos (by simp [offsetsOf])
  have hmap : (records.map Record.prefixValue).Pairwise (· ≤ ·) :=
    List.pairwise_map.mpr (hsorted.imp prefix_le)
  have hcount := @countP_lt_succ _ Record.prefixValue records (prefixOf prefixBits hash)
  have hbound : (records.countP fun r => r.prefixValue < prefixOf prefixBits hash + 1) ≤
      records.length := List.countP_le_length
  rw [Sidecar.candidates, hne, if_neg (by decide), hoffsets, hpostings, hbits, offsetsOf]
  have hnext : prefixOf prefixBits hash + 1 ≤ 2 ^ prefixBits := hlt
  simp only [getElem?_bucketOffsets hlt.le, getElem?_bucketOffsets hnext]
  rw [if_pos ⟨by omega, by simpa using hbound⟩, hcount, Nat.add_sub_cancel_left, ← List.map_drop,
    ← List.map_take, take_drop_bucket hmap]

end Read

section Agreement

variable {prefixBits : ℕ}

/-- The rows of some calls of `append` to a new sidecar, finalized. -/
def build (prefixBits spillThreshold : ℕ) (calls : List (List PositionRow)) : Sidecar × Result Unit :=
  match ({ prefixBits, spillThreshold } : Sidecar).appendAll calls with
  | (s, .error e) => (s, .error e)
  | (s, .ok ()) => s.finalize {}

/-- The ids that a list of rows has for the prefix of a hash, in ascending order and without repetition. -/
structure IdsOf (prefixBits : ℕ) (rows : List PositionRow) (hash : UInt64) (ids : List ℕ) : Prop where
  ascending : ids.Pairwise (· < ·)
  mem : ∀ id, id ∈ ids ↔ ∃ row ∈ rows,
    prefixOf prefixBits row.zobristHash = prefixOf prefixBits hash ∧ row.gameId.toNat = id

private theorem idsOf_filter (rows : List PositionRow) (hash : UInt64) : IdsOf prefixBits rows hash
    (((sortUnique (rows.map (Record.ofRow prefixBits))).filter fun r =>
      r.prefixValue = prefixOf prefixBits hash).map Record.gameKey) where
  ascending := by
    rw [List.pairwise_map]
    have hsorted := (pairwise_sortUnique (rows.map (Record.ofRow prefixBits))).filter
      fun r => r.prefixValue = prefixOf prefixBits hash
    refine hsorted.imp_of_mem fun {a b} ha hb hlt => ?_
    have hprefix : a.prefixValue = b.prefixValue := by
      have ha := of_decide_eq_true (List.mem_filter.mp ha).2
      have hb := of_decide_eq_true (List.mem_filter.mp hb).2
      rw [ha, hb]
    have hkey : a.key < b.key := hlt
    rw [Record.key, Record.key, Prod.Lex.toLex_lt_toLex] at hkey
    rcases hkey with hne | ⟨-, hlt⟩
    · exact absurd hprefix (Nat.ne_of_lt hne)
    · exact hlt
  mem id := by
    simp only [List.mem_map, List.mem_filter, mem_sortUnique, decide_eq_true_eq]
    constructor
    · rintro ⟨r, ⟨⟨row, hrow, rfl⟩, hprefix⟩, rfl⟩
      exact ⟨row, hrow, hprefix, rfl⟩
    · rintro ⟨row, hrow, hprefix, rfl⟩
      exact ⟨Record.ofRow prefixBits row, ⟨⟨row, hrow, rfl⟩, hprefix⟩, rfl⟩

private theorem build_ok (hvalid : validPrefixBits prefixBits = true) (spillThreshold : ℕ)
    (calls : List (List PositionRow)) :
    ∃ t, build prefixBits spillThreshold calls = (t, .ok ()) ∧ t.file = some (artifactBytes prefixBits
      (sortUnique (calls.flatten.map (Record.ofRow prefixBits)))) := by
  obtain ⟨s, runs, happend, hbuffered, hbits⟩ :=
    (Buffered.new prefixBits spillThreshold).appendAll hvalid calls
  have hsame : s.prefixBits = prefixBits := hbits
  obtain ⟨t, hfinalize, hfile⟩ := hbuffered.finalize (hsame ▸ hvalid)
  rw [hsame, List.nil_append] at hfile
  refine ⟨t, ?_, hfile⟩
  simp only [build, happend, hfinalize]

/-- Whatever the spill threshold and the calls, the same rows make the same file, and a fresh reader of
it answers every hash with the ids of the rows that share its prefix. -/
theorem finalizers_agree (hvalid : validPrefixBits prefixBits = true) (rows : List PositionRow) :
    ∃ file, (∀ spillThreshold calls, calls.flatten = rows →
        ∃ t, build prefixBits spillThreshold calls = (t, .ok ()) ∧ t.file = some file) ∧
      ∀ spillThreshold, ∃ reader : Sidecar,
        Sidecar.openFile { prefixBits, spillThreshold, file := some file } = (reader, .ok ()) ∧
          ∀ hash, ∃ ids, reader.candidates hash = .ids ids ∧ IdsOf prefixBits rows hash ids := by
  have hfits : ∀ r ∈ sortUnique (rows.map (Record.ofRow prefixBits)), r.Fits prefixBits := by
    intro r hr
    obtain ⟨row, -, rfl⟩ := List.mem_map.mp (mem_sortUnique.mp hr)
    exact Record.ofRow_fits hvalid row
  refine ⟨artifactBytes prefixBits (sortUnique (rows.map (Record.ofRow prefixBits))),
    fun spillThreshold calls hcalls => ?_, fun spillThreshold => ?_⟩
  · subst hcalls
    exact build_ok hvalid spillThreshold calls
  · refine ⟨_, openFile_artifactBytes hvalid (pairwise_sortUnique _) hfits rfl rfl, fun hash => ?_⟩
    exact ⟨_, candidates_of_records hvalid (pairwise_sortUnique _) rfl rfl rfl hash,
      idsOf_filter rows hash⟩

private def sampleRows : List PositionRow :=
  [⟨0, 7, 0, 0, 0, none, none⟩, ⟨1, 5, 0, 0, 0, none, none⟩, ⟨2 ^ 63, 5, 0, 0, 0, none, none⟩,
    ⟨0, 5, 0, 0, 0, none, none⟩]

/-- With a threshold of two the rows are spilled to two runs that are merged, and with one of ten they
are finalized in memory. -/
theorem finalizers_agree_sample :
    (∃ s t, ({ prefixBits := 1, spillThreshold := 2 } : Sidecar).appendAll [sampleRows] =
        (s, .ok ()) ∧ s.spillFiles.length = 2 ∧
      ({ prefixBits := 1, spillThreshold := 10 } : Sidecar).appendAll [sampleRows] = (t, .ok ()) ∧
        t.spillFiles = []) ∧
    ∃ file, (∀ spillThreshold calls, calls.flatten = sampleRows →
        ∃ t, build 1 spillThreshold calls = (t, .ok ()) ∧ t.file = some file) ∧
      ∀ spillThreshold, ∃ reader : Sidecar,
        Sidecar.openFile { prefixBits := 1, spillThreshold, file := some file } = (reader, .ok ()) ∧
          ∀ hash, ∃ ids, reader.candidates hash = .ids ids ∧ IdsOf 1 sampleRows hash ids := by
  refine ⟨?_, finalizers_agree (by decide) sampleRows⟩
  have hspilled : (({ prefixBits := 1, spillThreshold := 2 } : Sidecar).appendAll
      [sampleRows]).1.spillFiles.length = 2 := by
    decide +kernel
  have hbuffered : (({ prefixBits := 1, spillThreshold := 10 } : Sidecar).appendAll
      [sampleRows]).1.spillFiles = [] := by
    decide +kernel
  obtain ⟨s, -, hs, -⟩ := (Buffered.new 1 2).appendAll (by decide) [sampleRows]
  obtain ⟨t, -, ht, -⟩ := (Buffered.new 1 10).appendAll (by decide) [sampleRows]
  rw [hs] at hspilled
  rw [ht] at hbuffered
  exact ⟨s, t, hs, hspilled, ht, hbuffered⟩

end Agreement

section Merged

/-- A merge of spilled runs leaves a sidecar that answers the prefix of some appended row from outside
of its arrays. -/
theorem outOfBounds_of_merged {rows : List PositionRow} {runs : List (List Record)} {s t : Sidecar}
    (h : Buffered rows runs s) (hvalid : validPrefixBits s.prefixBits = true)
    (hspilled : s.spillFiles ≠ []) (hfinalize : s.finalize {} = (t, .ok ())) {row : PositionRow}
    (hrow : row ∈ rows) : t.candidates row.zobristHash = .outOfBounds := by
  have hmerged : t = _ := (congrArg Prod.fst (hfinalize.symm.trans (by
    rw [Sidecar.finalize, if_pos hvalid, if_neg (by simpa using hspilled),
      h.finalizeExternalMerge hvalid])))
  have hlt := prefixOf_lt hvalid row.zobristHash
  have hnext : prefixOf s.prefixBits row.zobristHash + 1 ≤ 2 ^ s.prefixBits := hlt
  have hcount : 0 < (sortUnique (rows.map (Record.ofRow s.prefixBits))).countP fun r =>
      r.prefixValue < prefixOf s.prefixBits row.zobristHash + 1 := by
    rw [List.countP_pos_iff]
    refine ⟨Record.ofRow s.prefixBits row, mem_sortUnique.mpr (List.mem_map_of_mem hrow), ?_⟩
    exact decide_eq_true (Nat.lt_succ_self _)
  have hne : (offsetsOf s.prefixBits
      (sortUnique (rows.map (Record.ofRow s.prefixBits)))).isEmpty = false := by
    rw [List.isEmpty_eq_false_iff]
    exact List.ne_nil_of_length_pos (by simp [offsetsOf])
  rw [offsetsOf] at hne
  subst hmerged
  simp only [Sidecar.candidates, offsetsOf, hne, Bool.false_eq_true, if_false,
    getElem?_bucketOffsets hlt.le, getElem?_bucketOffsets hnext, List.length_nil]
  rw [if_neg fun hfit => Nat.not_lt.mpr hfit.2 hcount]

end Merged

end MotifChess.Db.PositionPrefixPostings
