/- GID: MotifChess/Db/PositionPostings/TruncatedSpills
   generality: implementation
   digest: A merge over run files that lost their ends: which truncations it notices. -/

import MotifChess.Db.PositionPostings.Finalize

set_option autoImplicit false
set_option relaxedAutoImplicit false

namespace MotifChess.Db.PositionPostings

open Codec LittleEndian

section Cut

/-- A run as it was spilled, and how many bytes of its file are left when the merge reads it. -/
structure CutRun where
  records : List Record
  fits : ∀ r ∈ records, r.Fits
  length : ℕ

def CutRun.file (run : CutRun) : List UInt8 := (Builder.spillBytes run.records).take run.length

/-- The file holds fewer complete records than its header announces, or not even a header. -/
def Short (file : List UInt8) : Prop :=
  match readLe 8 file with
  | none => True
  | some (count, rest) => rest.length / spillRecordSize < count

instance (file : List UInt8) : Decidable (Short file) := by
  unfold Short
  split <;> infer_instance

/-- How many complete records precede the first chunk that cannot be read in full. -/
def CutRun.chunked (run : CutRun) : ℕ :=
  (run.file.length - 8) / spillRecordSize / spillReadBufferRecords * spillReadBufferRecords

/-- The records that reach the merge: all of a whole file, the full chunks of a short one. -/
def CutRun.delivered (run : CutRun) : List Record :=
  if Short run.file then run.records.take run.chunked else run.records

variable {run : CutRun}

private theorem CutRun.length_file :
    run.file.length = min run.length (8 + run.records.length * spillRecordSize) := by
  rw [file, List.length_take, Builder.spillBytes, List.length_append, length_leBytes,
    length_flatMap_recordBytes]

private theorem CutRun.file_eq (h : 8 ≤ run.file.length) :
    run.file = leBytes 8 run.records.length ++
      (run.records.flatMap Record.bytes).take (run.file.length - 8) := by
  have hlength := run.length_file
  have hmin : run.file = (Builder.spillBytes run.records).take run.file.length := by
    rw [file, List.length_take, ← List.take_take, List.take_length]
  have hheader : (leBytes 8 run.records.length).length = 8 := length_leBytes 8 _
  conv_lhs => rw [hmin]
  rw [Builder.spillBytes, List.take_append, hheader, List.take_of_length_le (by omega)]

private theorem short_of_torn {file : List UInt8} (h : file.length < 8) : Short file := by
  have hnone : readLe 8 file = none := by
    rw [readLe, if_pos h]
  rw [Short, hnone]
  trivial

private theorem CutRun.short_iff (hcount : run.records.length < 2 ^ 64) (h : 8 ≤ run.file.length) :
    Short run.file ↔ run.file.length - 8 < run.records.length * spillRecordSize := by
  have hlt : run.records.length < 256 ^ 8 := hcount
  have hlength := run.length_file
  rw [Short, run.file_eq h, readLe_leBytes hlt, ← run.file_eq h]
  show (List.take _ _).length / spillRecordSize < run.records.length ↔ _
  rw [List.length_take, length_flatMap_recordBytes, Nat.div_lt_iff_lt_mul (by decide),
    Nat.min_eq_left (by omega)]

private theorem CutRun.file_of_not_short (hcount : run.records.length < 2 ^ 64) (h : ¬Short run.file) :
    run.file = Builder.spillBytes run.records := by
  have hheader : 8 ≤ run.file.length := by
    by_contra hlt
    exact h (short_of_torn (by omega))
  have hlength := run.length_file
  rw [run.short_iff hcount hheader] at h
  rw [run.file_eq hheader, Builder.spillBytes, List.take_of_length_le]
  rw [length_flatMap_recordBytes]
  omega

end Cut

section Torn

variable {metadata : List (ℕ × GameMetadata)}

/-- The cursor still has to deliver the records `l`, and then meets a chunk that is cut short. -/
structure TornAt (c : Cursor) (l : List Record) : Prop where
  good : c.eofbit = false ∧ c.failbit = false
  chunks : ∃ front back tail missing, l = front ++ back ∧ c.buffer = front.flatMap Record.bytes ∧
    c.input = back.flatMap Record.bytes ++ tail ∧ c.remaining = l.length + missing ∧
    spillReadBufferRecords ∣ back.length ∧
    tail.length < min missing spillReadBufferRecords * spillRecordSize

private theorem isEmpty_flatMap_cons (r : Record) (front : List Record) :
    ((r :: front).flatMap Record.bytes).isEmpty = false := by
  rw [List.isEmpty_eq_false_iff]
  intro hnil
  have hlength := congrArg List.length hnil
  rw [length_flatMap_recordBytes, List.length_cons, spillRecordSize, List.length_nil] at hlength
  omega

private theorem TornAt.fill {c : Cursor} {r : Record} {l : List Record} (h : TornAt c (r :: l)) :
    c.fill.failbit = false ∧ ∃ buffer, c.fill.buffer = r.bytes ++ buffer ∧
      TornAt { c.fill with remaining := c.fill.remaining - 1, current := r, buffer := buffer } l := by
  obtain ⟨front, back, tail, missing, hsplit, hbuffer, hinput, hremaining, hchunks, htail⟩ := h.chunks
  obtain ⟨hgood, hfail⟩ := h.good
  cases front with
  | cons first front =>
    obtain ⟨rfl, rfl⟩ := List.cons.inj hsplit
    have hfill : c.fill = c := by
      rw [Cursor.fill, hbuffer, isEmpty_flatMap_cons, if_neg Bool.false_ne_true]
    rw [hfill]
    refine ⟨hfail, front.flatMap Record.bytes, hbuffer, ⟨hgood, hfail⟩, front, back, tail, missing,
      rfl, rfl, hinput, ?_, hchunks, htail⟩
    show c.remaining - 1 = _
    rw [hremaining, List.length_cons]
    omega
  | nil =>
    rw [List.nil_append] at hsplit
    subst hsplit
    obtain ⟨k, hk⟩ := hchunks
    have hsize : spillReadBufferRecords ≤ (r :: l).length := by
      rw [hk]
      have hpos : k ≠ 0 := by
        rintro rfl
        cases hk
      exact Nat.le_mul_of_pos_right _ (Nat.pos_of_ne_zero hpos)
    have hcount : min c.remaining spillReadBufferRecords = spillReadBufferRecords := by
      rw [hremaining]
      omega
    have hlength : c.input.length = (r :: l).length * spillRecordSize + tail.length := by
      rw [hinput, List.length_append, length_flatMap_recordBytes]
    have henough : ¬c.input.length < spillReadBufferRecords * spillRecordSize := by
      have hmul := Nat.mul_le_mul_right spillRecordSize hsize
      omega
    have htake : (((r :: l).take spillReadBufferRecords).flatMap Record.bytes).length =
        spillReadBufferRecords * spillRecordSize := by
      rw [length_flatMap_recordBytes, List.length_take, Nat.min_eq_left hsize]
    have hbytes : c.input = ((r :: l).take spillReadBufferRecords).flatMap Record.bytes ++
        (((r :: l).drop spillReadBufferRecords).flatMap Record.bytes ++ tail) := by
      rw [← List.append_assoc, ← List.flatMap_append, List.take_append_drop, hinput]
    have hfill : c.fill = { c with
        input := ((r :: l).drop spillReadBufferRecords).flatMap Record.bytes ++ tail
        buffer := ((r :: l).take spillReadBufferRecords).flatMap Record.bytes } := by
      have hempty : c.buffer.isEmpty = true := by rw [hbuffer]; rfl
      rw [Cursor.fill, hempty, hcount, if_pos rfl]
      simp only [if_neg henough]
      rw [hbytes, List.take_left' htake, List.drop_left' htake]
    rw [hfill]
    refine ⟨hfail, (l.take (spillReadBufferRecords - 1)).flatMap Record.bytes, rfl, ⟨hgood, hfail⟩,
      l.take (spillReadBufferRecords - 1), l.drop (spillReadBufferRecords - 1), tail, missing,
      (List.take_append_drop _ l).symm, rfl, rfl, ?_, ?_, htail⟩
    · show c.remaining - 1 = _
      rw [hremaining, List.length_cons]
      omega
    · have hdrop : l.drop (spillReadBufferRecords - 1) = (r :: l).drop spillReadBufferRecords := rfl
      rw [hdrop, List.length_drop, hk]
      exact Nat.dvd_sub (Nat.dvd_mul_right _ _) (Nat.dvd_refl _)

theorem TornAt.step {c : Cursor} {r : Record} {l : List Record} (h : TornAt c (r :: l))
    (hr : Known metadata r) :
    ∃ c', stepCursor metadata c = .ok (some c') ∧ c'.current = r ∧ TornAt c' l := by
  obtain ⟨hfits, hgame, hlookup⟩ := hr
  obtain ⟨hfail, buffer, hbuffer, hat⟩ := h.fill
  have hpos : c.remaining ≠ 0 := by
    obtain ⟨front, back, tail, missing, _, _, _, hremaining, _⟩ := h.chunks
    rw [hremaining, List.length_cons]
    omega
  have hknown : ¬(r.gameKey = 0 ∨ (metadata.lookup r.gameKey).isNone = true) := by
    intro hbad
    rcases hbad with hzero | hnone
    · exact hgame hzero
    · rw [Option.isNone_iff_eq_none.mp hnone] at hlookup
      cases hlookup
  refine ⟨_, ?_, rfl, hat⟩
  rw [stepCursor, Cursor.advance, if_neg hpos]
  simp only [hfail, hbuffer, decodeRecord_bytes hfits, if_neg hknown]
  rfl

theorem TornAt.step_nil {c : Cursor} (h : TornAt c []) : stepCursor metadata c = .ok none := by
  obtain ⟨front, back, tail, missing, hsplit, hbuffer, hinput, hremaining, _, htail⟩ := h.chunks
  obtain ⟨rfl, rfl⟩ := List.append_eq_nil_iff.mp hsplit.symm
  rw [List.length_nil, Nat.zero_add] at hremaining
  have hpos : c.remaining ≠ 0 := by
    intro hzero
    rw [hremaining] at hzero
    rw [hzero, Nat.zero_min, Nat.zero_mul] at htail
    exact Nat.not_lt_zero _ htail
  have hshort : c.input.length < min c.remaining spillReadBufferRecords * spillRecordSize := by
    rw [hinput, hremaining]
    exact htail
  have hempty : c.buffer.isEmpty = true := by rw [hbuffer]; rfl
  have hfill : c.fill =
      { c with input := [], eofbit := true, failbit := true, remaining := 0 } := by
    rw [Cursor.fill, hempty, if_pos rfl]
    simp only [if_pos hshort]
  rw [stepCursor, Cursor.advance, if_neg hpos, hfill]
  rfl

theorem TornAt.delivers {c : Cursor} {l : List Record} (h : TornAt c l)
    (hl : ∀ r ∈ l, Known metadata r) : Delivers metadata c l := by
  induction l generalizing c with
  | nil => exact Delivers.done h.step_nil
  | cons r l ih =>
    obtain ⟨c', hstep, hcurrent, hat⟩ := h.step (hl r List.mem_cons_self)
    exact Delivers.step hstep hcurrent (ih hat fun x hx => hl x (List.mem_cons_of_mem _ hx))

private theorem CutRun.tornAt {run : CutRun} (hcount : run.records.length < 2 ^ 64)
    (h : 8 ≤ run.file.length) (hshort : Short run.file) :
    ∃ c, openCursor run.file = .ok c ∧ TornAt c (run.records.take run.chunked) := by
  have hlt : run.records.length < 256 ^ 8 := hcount
  rw [run.short_iff hcount h] at hshort
  set left := run.file.length - 8 with hleft
  have hfull : run.chunked * spillRecordSize ≤ left := by
    have hchunk := Nat.div_mul_le_self (left / spillRecordSize) spillReadBufferRecords
    have hrecord := Nat.div_mul_le_self left spillRecordSize
    calc run.chunked * spillRecordSize
        ≤ left / spillRecordSize * spillRecordSize := Nat.mul_le_mul_right _ hchunk
      _ ≤ left := hrecord
  have hfewer : run.chunked < run.records.length := by
    by_contra hge
    have hmul := Nat.mul_le_mul_right spillRecordSize (Nat.le_of_not_lt hge)
    omega
  have htake : (run.records.take run.chunked).length = run.chunked := by
    rw [List.length_take]
    omega
  have hbytes : ((run.records.take run.chunked).flatMap Record.bytes).length =
      run.chunked * spillRecordSize := by
    rw [length_flatMap_recordBytes, htake]
  have hinput : (run.records.flatMap Record.bytes).take left =
      (run.records.take run.chunked).flatMap Record.bytes ++
        ((run.records.drop run.chunked).flatMap Record.bytes).take
          (left - run.chunked * spillRecordSize) := by
    conv_lhs => rw [← List.take_append_drop run.chunked run.records, List.flatMap_append]
    rw [List.take_append, hbytes, List.take_of_length_le (by omega)]
  rw [openCursor, run.file_eq h, readLe_leBytes hlt]
  refine ⟨_, rfl, ⟨rfl, rfl⟩, [], run.records.take run.chunked, _,
    run.records.length - run.chunked, rfl, rfl, hinput, ?_, ?_, ?_⟩
  · show run.records.length = _
    rw [htake]
    omega
  · rw [htake]
    exact Nat.dvd_mul_left _ _
  · have hrest : left - run.chunked * spillRecordSize <
        (run.records.length - run.chunked) * spillRecordSize := by
      rw [Nat.sub_mul]
      omega
    have hchunk : left - run.chunked * spillRecordSize <
        spillReadBufferRecords * spillRecordSize := by
      have hmod := Nat.mod_lt (left / spillRecordSize)
        (show 0 < spillReadBufferRecords by decide)
      have hdiv := Nat.div_add_mod (left / spillRecordSize) spillReadBufferRecords
      have hmod' := Nat.mod_lt left (show 0 < spillRecordSize by decide)
      have hdiv' := Nat.div_add_mod left spillRecordSize
      have hchunked : run.chunked =
          left / spillRecordSize / spillReadBufferRecords * spillReadBufferRecords := rfl
      simp only [spillRecordSize, spillReadBufferRecords] at *
      omega
    refine (List.length_take_le _ _).trans_lt ?_
    rcases Nat.le_total (run.records.length - run.chunked) spillReadBufferRecords with hle | hle
    · rwa [Nat.min_eq_left hle]
    · rwa [Nat.min_eq_right hle]

theorem CutRun.opens {run : CutRun} (hcount : run.records.length < 2 ^ 64)
    (h : 8 ≤ run.file.length) (hknown : ∀ r ∈ run.records, Known metadata r) :
    Opens metadata run.file run.delivered := by
  rw [CutRun.delivered]
  split
  · next hshort =>
    obtain ⟨c, hc, hat⟩ := run.tornAt hcount h hshort
    exact ⟨c, hc, hat.delivers fun r hr => hknown r (List.mem_of_mem_take hr)⟩
  · next hshort =>
    rw [run.file_of_not_short hcount hshort]
    exact opens_spillBytes hcount hknown

private theorem CutRun.delivered_sublist (run : CutRun) : run.delivered.Sublist run.records := by
  rw [CutRun.delivered]
  split
  · exact List.take_sublist _ _
  · exact List.Sublist.refl _

private theorem CutRun.length_delivered_le {run : CutRun} (hcount : run.records.length < 2 ^ 64) :
    run.delivered.length ≤ run.file.length := by
  rw [CutRun.delivered]
  split
  · have hchunk := Nat.div_mul_le_self ((run.file.length - 8) / spillRecordSize)
      spillReadBufferRecords
    have hrecord := Nat.div_le_self (run.file.length - 8) spillRecordSize
    have htake := List.length_take_le run.chunked run.records
    have hchunked : run.chunked = (run.file.length - 8) / spillRecordSize /
        spillReadBufferRecords * spillReadBufferRecords := rfl
    omega
  · next hshort =>
    rw [run.file_of_not_short hcount hshort, Builder.spillBytes, List.length_append,
      length_flatMap_recordBytes, spillRecordSize]
    omega

end Torn

section Appended

/-- A builder whose appends all succeeded holds acceptable rows and an up-to-date game count. -/
structure Appended (rows : List PositionRow) (b : Builder) : Prop where
  inv : ∃ runs, BuilderInv rows runs b
  acceptable : Acceptable rows
  count : b.indexedGameCount = b.gameMetadata.length

theorem Appended.new (threshold : ℕ) : Appended [] (Builder.new threshold) where
  inv := ⟨[], BuilderInv.new threshold⟩
  acceptable := ⟨by simp, by simp, by simp⟩
  count := rfl

theorem Appended.append {rows call : List PositionRow} {b b' : Builder} (h : Appended rows b)
    (hcall : b.append call = .ok b') : Appended (rows ++ call) b' := by
  obtain ⟨runs, hinv⟩ := h.inv
  rw [Builder.append] at hcall
  split at hcall
  · cases hcall
  · obtain ⟨middle, hrows, hb'⟩ := bind_eq_ok.mp hcall
    obtain rfl := Except.ok.inj hb'
    have hacc := acceptable_of_foldlM_appendRow hinv h.acceptable hrows
    obtain ⟨last, runs', hrows', hinv', -⟩ := foldlM_appendRow_ok hinv hacc
    obtain rfl := Except.ok.inj (hrows.symm.trans hrows')
    exact ⟨⟨runs', hinv'.files, hinv'.sorted, hinv'.records, hinv'.metadata⟩, hacc, rfl⟩

theorem Appended.foldlM {rows : List PositionRow} {calls : List (List PositionRow)}
    {b b' : Builder} (h : Appended rows b) (hcalls : calls.foldlM Builder.append b = .ok b') :
    Appended (rows ++ calls.flatten) b' := by
  induction calls generalizing rows b with
  | nil =>
    obtain rfl := Except.ok.inj hcalls
    simpa using h
  | cons call calls ih =>
    rw [List.foldlM_cons] at hcalls
    obtain ⟨middle, hcall, hrest⟩ := bind_eq_ok.mp hcalls
    simpa using ih (h.append hcall) hrest

end Appended

section Detect

/-- No position occurs 2^32 times among the records. -/
def RecordsFit (records : List Record) : Prop :=
  ∀ hash, (records.filter fun r => decide (r.hash = hash)).toFinset.card < 2 ^ 32

private def occurrenceOfRecord (r : Record) : Occurrence :=
  ⟨UInt32.ofNat r.gameKey, UInt16.ofNat r.ply⟩

private theorem card_filter_records (rows : List PositionRow) (hash : UInt64) :
    ((rows.map Record.ofRow).filter fun r => decide (r.hash = hash.toNat)).toFinset.card =
      (occurrenceSet rows hash).card := by
  set records := (rows.map Record.ofRow).filter fun r => decide (r.hash = hash.toNat)
  have hof : ∀ row, occurrenceOfRecord (Record.ofRow row) = occurrenceOf row := by
    intro row
    simp [occurrenceOfRecord, Record.ofRow, occurrenceOf]
  have hmem : ∀ r, r ∈ records ↔ ∃ row ∈ rows, row.zobristHash = hash ∧ Record.ofRow row = r := by
    intro r
    simp only [records, List.mem_filter, List.mem_map, decide_eq_true_eq]
    constructor
    · intro h
      obtain ⟨⟨row, hrow, rfl⟩, hhash⟩ := h
      exact ⟨row, hrow, UInt64.toNat_inj.mp hhash, rfl⟩
    · intro h
      obtain ⟨row, hrow, rfl, rfl⟩ := h
      exact ⟨⟨row, hrow, rfl⟩, rfl⟩
  have himage : occurrenceSet rows hash = records.toFinset.image occurrenceOfRecord := by
    ext o
    simp only [occurrenceSet, List.mem_toFinset, List.mem_map, List.mem_filter, decide_eq_true_eq,
      Finset.mem_image, hmem]
    constructor
    · intro h
      obtain ⟨row, ⟨hrow, hhash⟩, rfl⟩ := h
      exact ⟨_, ⟨row, hrow, hhash, rfl⟩, hof row⟩
    · intro h
      obtain ⟨r, ⟨row, hrow, hhash, rfl⟩, rfl⟩ := h
      exact ⟨row, ⟨hrow, hhash⟩, (hof row).symm⟩
  rw [himage, Finset.card_image_of_injOn]
  intro r hr r' hr' heq
  obtain ⟨row, _, rfl, rfl⟩ := (hmem r).mp (List.mem_toFinset.mp hr)
  obtain ⟨row', _, hhash, rfl⟩ := (hmem r').mp (List.mem_toFinset.mp hr')
  rw [hof, hof] at heq
  obtain ⟨hid, hply⟩ := Occurrence.mk.inj heq
  rw [Record.ofRow, Record.ofRow, hhash, hid, hply]

private theorem recordsFit_iff (rows : List PositionRow) :
    RecordsFit (rows.map Record.ofRow) ↔ OccurrencesFit rows := by
  constructor
  · intro h hash
    rw [← card_filter_records]
    exact h hash.toNat
  · intro h hash
    by_cases hlt : hash < 2 ^ 64
    · have hround : (UInt64.ofNat hash).toNat = hash := by
        rw [UInt64.toNat_ofNat', Nat.mod_eq_of_lt hlt]
      have hcard := h (UInt64.ofNat hash)
      rwa [← card_filter_records, hround] at hcard
    · have hnil : ((rows.map Record.ofRow).filter fun r => decide (r.hash = hash)) = [] := by
        rw [List.filter_eq_nil_iff]
        intro r hr
        obtain ⟨row, _, rfl⟩ := List.mem_map.mp hr
        have hrow := row.zobristHash.toNat_lt
        rw [decide_eq_true_eq]
        show row.zobristHash.toNat ≠ hash
        omega
      rw [hnil]
      decide

theorem RecordsFit.perm {records records' : List Record} (h : records.Perm records') :
    RecordsFit records ↔ RecordsFit records' := by
  have hcard : ∀ hash, (records.filter fun r => decide (r.hash = hash)).toFinset =
      (records'.filter fun r => decide (r.hash = hash)).toFinset := fun hash =>
    List.toFinset_eq_of_perm _ _ (h.filter _)
  simp only [RecordsFit, hcard]

/-- The builder about to merge, after its run files lost what the cuts leave out. -/
def cutSpills (b : Builder) (runs : List CutRun) : Builder :=
  { b.spillCurrentBuffer with spillFiles := runs.map CutRun.file }

/-- A merge that is handed a file with fewer records than its header announces publishes nothing. -/
def DetectsTruncation (b : Builder) : Prop :=
  (∃ file ∈ b.spillFiles, Short file) → ∀ artifact, mergeRuns b ≠ .ok artifact

private theorem mapM_ne_ok {α β : Type} {f : α → Result β} {l : List α} {a : α} (ha : a ∈ l)
    (hf : ∀ b, f a ≠ .ok b) (bs : List β) : l.mapM f ≠ .ok bs := by
  induction l generalizing bs with
  | nil => cases ha
  | cons first l ih =>
    intro hok
    rw [List.mapM_cons] at hok
    obtain ⟨b, hb, hrest⟩ := bind_eq_ok.mp hok
    obtain ⟨bs', hbs, _⟩ := bind_eq_ok.mp hrest
    rcases List.mem_cons.mp ha with rfl | ha
    · exact hf b hb
    · exact ih ha bs' hbs

private theorem bytes_injective {r r' : Record} (h : r.Fits) (h' : r'.Fits)
    (heq : r.bytes = r'.bytes) : r = r' := by
  have hr := decodeRecord_bytes h []
  have hr' := decodeRecord_bytes h' []
  rw [heq, hr'] at hr
  exact (Prod.mk.inj (Option.some.inj hr)).1.symm

private theorem flatMap_bytes_injective {l l' : List Record} (h : ∀ r ∈ l, r.Fits)
    (h' : ∀ r ∈ l', r.Fits) (heq : l.flatMap Record.bytes = l'.flatMap Record.bytes) : l = l' := by
  have hlength := congrArg List.length heq
  rw [length_flatMap_recordBytes, length_flatMap_recordBytes] at hlength
  have hsame : l.length = l'.length := Nat.eq_of_mul_eq_mul_right (by decide) hlength
  clear hlength
  induction l generalizing l' with
  | nil => exact (List.eq_nil_of_length_eq_zero hsame.symm).symm
  | cons r l ih =>
    cases l' with
    | nil => cases hsame
    | cons r' l' =>
      rw [List.flatMap_cons, List.flatMap_cons] at heq
      have hbytes : r.bytes.length = r'.bytes.length := by
        rw [length_recordBytes, length_recordBytes]
      obtain ⟨hhead, htail⟩ := List.append_inj heq hbytes
      rw [bytes_injective (h r List.mem_cons_self) (h' r' List.mem_cons_self) hhead,
        ih (fun x hx => h x (List.mem_cons_of_mem _ hx))
          (fun x hx => h' x (List.mem_cons_of_mem _ hx)) htail (Nat.succ.inj hsame)]

private theorem spillBytes_injective {l l' : List Record} (h : ∀ r ∈ l, r.Fits) (h' : ∀ r ∈ l', r.Fits)
    (heq : Builder.spillBytes l = Builder.spillBytes l') : l = l' := by
  rw [Builder.spillBytes, Builder.spillBytes] at heq
  have hheader : (leBytes 8 l.length).length = (leBytes 8 l'.length).length := by
    rw [length_leBytes, length_leBytes]
  exact flatMap_bytes_injective h h' (List.append_inj heq hheader).2

private theorem runs_eq_of_files {rows : List PositionRow} {found : List (List Record)} {b : Builder}
    (h : BuilderInv rows found b) (hempty : b.records = []) {runs : List CutRun}
    (hruns : b.spillFiles = runs.map fun run => Builder.spillBytes run.records) :
    found = runs.map CutRun.records := by
  have hfits : ∀ run ∈ found, ∀ r ∈ run, r.Fits := by
    intro run hrun r hr
    have hmem := (h.perm_of_spilled hempty).mem_iff.mp (List.mem_flatten.mpr ⟨run, hrun, hr⟩)
    obtain ⟨row, _, rfl⟩ := List.mem_map.mp hmem
    exact Record.ofRow_fits row
  have heq := h.files.symm.trans hruns
  clear h hruns
  induction found generalizing runs with
  | nil =>
    rw [List.map_nil] at heq
    rw [List.map_eq_nil_iff.mp heq.symm]
    rfl
  | cons run found ih =>
    cases runs with
    | nil => cases heq
    | cons first runs =>
      rw [List.map_cons, List.map_cons] at heq
      obtain ⟨hhead, htail⟩ := List.cons.inj heq
      rw [List.map_cons, ← ih (fun x hx => hfits x (List.mem_cons_of_mem _ hx)) htail,
        spillBytes_injective (hfits run List.mem_cons_self) first.fits hhead]

private theorem mergeRuns_of_torn_header {b : Builder} {file : List UInt8} (hfile : file ∈ b.spillFiles)
    (htorn : file.length < 8) (artifact : List UInt8) : mergeRuns b ≠ .ok artifact := by
  intro hok
  obtain ⟨staged, hstaged, _⟩ := bind_eq_ok.mp hok
  rw [stageArtifact] at hstaged
  obtain ⟨cursors, hcursors, _⟩ := bind_eq_ok.mp hstaged
  refine mapM_ne_ok hfile (fun c hc => ?_) cursors hcursors
  have hnone : readLe 8 file = none := by rw [readLe, if_pos htorn]
  rw [openCursor, hnone] at hc
  cases hc

private theorem exists_rows_of_sublist {rows : List PositionRow} {l whole : List Record}
    (h : l.Sublist whole) (hperm : whole.Perm (rows.map Record.ofRow)) :
    ∃ left, left ⊆ rows ∧ l.Perm (left.map Record.ofRow) := by
  obtain ⟨m, hm, hsub⟩ := h.subperm.trans hperm.subperm
  obtain ⟨left, hleft, rfl⟩ := List.sublist_map_iff.mp hsub
  exact ⟨left, hleft.subset, hm.symm⟩

private theorem flatMap_delivered_sublist (runs : List CutRun) :
    (runs.flatMap CutRun.delivered).Sublist (runs.map CutRun.records).flatten := by
  induction runs with
  | nil => exact List.Sublist.refl _
  | cons run runs ih =>
    rw [List.flatMap_cons, List.map_cons, List.flatten_cons]
    exact run.delivered_sublist.append ih

private theorem length_delivered_le_sum {runs : List CutRun}
    (hcount : ∀ run ∈ runs, run.records.length < 2 ^ 64) :
    (runs.flatMap CutRun.delivered).length ≤ ((runs.map CutRun.file).map List.length).sum := by
  induction runs with
  | nil => exact Nat.le_refl _
  | cons run runs ih =>
    have hrun := CutRun.length_delivered_le (hcount run List.mem_cons_self)
    have hrest := ih fun x hx => hcount x (List.mem_cons_of_mem _ hx)
    rw [List.flatMap_cons, List.length_append, List.map_cons, List.map_cons, List.sum_cons]
    omega

variable {threshold : ℕ} {calls : List (List PositionRow)} {b : Builder} {runs : List CutRun}

private theorem mergeRuns_cutSpills {rows : List PositionRow} (h : Appended rows b)
    (hruns : b.spillCurrentBuffer.spillFiles = runs.map fun run => Builder.spillBytes run.records)
    (hspills : ∀ file ∈ b.spillCurrentBuffer.spillFiles, file.length < 2 ^ 63)
    (hstaged : ∀ file, stageArtifact (cutSpills b runs) = .ok file → file.length < 2 ^ 63)
    (hheader : ∀ run ∈ runs, 8 ≤ run.file.length) :
    (∃ artifact, mergeRuns (cutSpills b runs) = .ok artifact) ↔
      RecordsFit (runs.flatMap CutRun.delivered) := by
  obtain ⟨before, hinv⟩ := h.inv
  obtain ⟨found, hspilled, hempty, _, hcount, hmetadata⟩ := hinv.spill
  have hfound := runs_eq_of_files hspilled hempty hruns
  have hmem : ∀ run ∈ runs, run.records ∈ found := by
    intro run hrun
    rw [hfound]
    exact List.mem_map_of_mem hrun
  have hlength : ∀ run ∈ runs, run.records.length < 2 ^ 64 := fun run hrun =>
    hspilled.length_lt hspills (hmem run hrun)
  have hopens : List.Forall₂ (Opens (cutSpills b runs).gameMetadata) (runs.map CutRun.file)
      (runs.map CutRun.delivered) := by
    rw [List.forall₂_map_left_iff, List.forall₂_map_right_iff, List.forall₂_same]
    intro run hrun
    exact run.opens (hlength run hrun) (hheader run hrun)
      (hspilled.known hempty h.acceptable.id_ne (hmem run hrun))
  have hsorted : ∀ run ∈ runs.map CutRun.delivered, run.Pairwise (· ≤ ·) := by
    intro delivered hdelivered
    obtain ⟨run, hrun, rfl⟩ := List.mem_map.mp hdelivered
    exact (hspilled.sorted _ (hmem run hrun)).sublist run.delivered_sublist
  have hflat : (runs.map CutRun.delivered).flatten = runs.flatMap CutRun.delivered :=
    List.flatMap_def.symm
  obtain ⟨merged, hperm, hascending, hstage⟩ := stageArtifact_of_opens (b := cutSpills b runs)
    hopens hsorted (by
      rw [hflat]
      exact length_delivered_le_sum hlength)
  rw [hflat] at hperm
  have hsub : (runs.flatMap CutRun.delivered).Sublist found.flatten := by
    rw [hfound]
    exact flatMap_delivered_sublist runs
  obtain ⟨left, hleft, hrows⟩ := exists_rows_of_sublist hsub (hspilled.perm_of_spilled hempty)
  obtain ⟨groups, blocks, hgroups, hassembled⟩ := exists_assembled (b := cutSpills b runs)
    (hperm.trans hrows) hascending (fun row hrow => h.acceptable.id_ne row (hleft hrow))
    (by
      show b.spillCurrentBuffer.indexedGameCount = b.spillCurrentBuffer.gameMetadata.length
      rw [hcount, h.count, hmetadata])
    hspilled.metadata.nodup (metadataOk_of_metadataOf hspilled.metadata h.acceptable)
    (hstaged _ hstage)
  have hopen := hassembled.openArtifact_eq
  rw [RecordsFit.perm hrows, recordsFit_iff, ← countsFit_iff hgroups fixedHeaderSize, mergeRuns,
    hstage, ok_bind, hopen]
  by_cases hfit : CountsFit (entriesFrom fixedHeaderSize groups)
  · rw [if_pos hfit]
    exact ⟨fun _ => hfit, fun _ => ⟨_, rfl⟩⟩
  · rw [if_neg hfit]
    constructor
    · intro hok
      obtain ⟨artifact, hok⟩ := hok
      cases hok
    · intro hfits
      exact absurd hfits hfit

/-- A truncated run goes unnoticed unless a header is torn or the rest overflows a count. -/
theorem detectsTruncation_iff (happend : calls.foldlM Builder.append (Builder.new threshold) = .ok b)
    (hruns : b.spillCurrentBuffer.spillFiles = runs.map fun run => Builder.spillBytes run.records)
    (hspills : ∀ file ∈ b.spillCurrentBuffer.spillFiles, file.length < 2 ^ 63)
    (hstaged : ∀ file, stageArtifact (cutSpills b runs) = .ok file → file.length < 2 ^ 63) :
    DetectsTruncation (cutSpills b runs) ↔
      (∀ run ∈ runs, ¬Short run.file) ∨ (∃ run ∈ runs, run.file.length < 8) ∨
        ¬RecordsFit (runs.flatMap CutRun.delivered) := by
  have happended := (Appended.new threshold).foldlM happend
  rw [List.nil_append] at happended
  have hfile : ∀ run ∈ runs, run.file ∈ (cutSpills b runs).spillFiles := fun run hrun =>
    List.mem_map_of_mem hrun
  by_cases htorn : ∃ run ∈ runs, run.file.length < 8
  · obtain ⟨run, hrun, hlength⟩ := htorn
    have hdetects : DetectsTruncation (cutSpills b runs) := fun _ artifact =>
      mergeRuns_of_torn_header (hfile run hrun) hlength artifact
    exact ⟨fun _ => Or.inr (Or.inl ⟨run, hrun, hlength⟩), fun _ => hdetects⟩
  · have hheader : ∀ run ∈ runs, 8 ≤ run.file.length := by
      intro run hrun
      by_contra hlt
      exact htorn ⟨run, hrun, by omega⟩
    have hmerge := mergeRuns_cutSpills happended hruns hspills hstaged hheader
    constructor
    · intro hdetects
      by_contra hneither
      rw [not_or, not_or, not_not] at hneither
      obtain ⟨hshort, _, hfit⟩ := hneither
      rw [not_forall₂] at hshort
      obtain ⟨run, hrun, hshort⟩ := hshort
      obtain ⟨artifact, hok⟩ := hmerge.mpr hfit
      exact hdetects ⟨run.file, hfile run hrun, not_not.mp hshort⟩ artifact hok
    · intro hcondition hshort artifact hok
      obtain ⟨file, hmem, hshort⟩ := hshort
      obtain ⟨run, hrun, rfl⟩ := List.mem_map.mp hmem
      rcases hcondition with hwhole | hcondition
      · exact hwhole run hrun hshort
      · rcases hcondition with hheaderTorn | hoverflow
        · exact htorn hheaderTorn
        · exact hoverflow (hmerge.mp ⟨artifact, hok⟩)

private theorem fits_of_mem {l : List Record}
    (h : ∀ r ∈ l, r.hash < 2 ^ 64 ∧ r.gameKey < 2 ^ 32 ∧ r.ply < 2 ^ 16) : ∀ r ∈ l, r.Fits :=
  fun r hr => ⟨(h r hr).1, (h r hr).2.1, (h r hr).2.2⟩

/-- Two rows that are spilled to a file each. -/
private def twoRows : List (List PositionRow) := [[⟨7, 1, 0, 0, 1, none, none⟩, ⟨9, 1, 1, 0, 1, none, none⟩]]

private def twoRuns (length : ℕ) : List CutRun :=
  [⟨[⟨7, 1, 0⟩], fits_of_mem (by decide), 22⟩, ⟨[⟨9, 1, 1⟩], fits_of_mem (by decide), length⟩]

private def twoSpills : Builder :=
  ((twoRows.foldlM Builder.append (Builder.new 1)).toOption).getD (Builder.new 1)

private theorem twoSpills_append : twoRows.foldlM Builder.append (Builder.new 1) = .ok twoSpills := by
  rfl

/-- One byte is missing from the second file: its record is lost, and the merge succeeds. -/
theorem not_detectsTruncation :
    ¬∀ (threshold : ℕ) (calls : List (List PositionRow)) (b : Builder) (runs : List CutRun),
      calls.foldlM Builder.append (Builder.new threshold) = .ok b →
      (b.spillCurrentBuffer.spillFiles = runs.map fun run => Builder.spillBytes run.records) →
      DetectsTruncation (cutSpills b runs) := by
  intro hall
  have hok : (mergeRuns (cutSpills twoSpills (twoRuns 21))).toOption.isSome = true := by
    decide +kernel
  have hshort : ∃ file ∈ (cutSpills twoSpills (twoRuns 21)).spillFiles, Short file := by
    decide +kernel
  obtain ⟨artifact, hartifact⟩ := Option.isSome_iff_exists.mp hok
  exact hall 1 twoRows twoSpills (twoRuns 21) twoSpills_append (by decide +kernel) hshort artifact
    (toOption_eq_some.mp hartifact)

theorem detectsTruncation_iff_sample :
    DetectsTruncation (cutSpills twoSpills (twoRuns 21)) ↔
      (∀ run ∈ twoRuns 21, ¬Short run.file) ∨ (∃ run ∈ twoRuns 21, run.file.length < 8) ∨
        ¬RecordsFit ((twoRuns 21).flatMap CutRun.delivered) := by
  have hstaged : ∀ file ∈ (stageArtifact (cutSpills twoSpills (twoRuns 21))).toOption,
      file.length < 2 ^ 63 := by
    decide +kernel
  exact detectsTruncation_iff twoSpills_append (by decide +kernel) (by decide +kernel)
    fun file hfile => hstaged file (by rw [hfile]; rfl)

end Detect

end MotifChess.Db.PositionPostings
