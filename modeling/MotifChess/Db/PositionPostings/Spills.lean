/- GID: MotifChess/Db/PositionPostings/Spills
   generality: implementation
   digest: Appended rows reach the merge unchanged through sorted spill files. -/

import MotifChess.Db.PositionPostings.MergeRuns

set_option autoImplicit false
set_option relaxedAutoImplicit false

namespace MotifChess.Db.PositionPostings

open Codec LittleEndian
open MotifChess.Order
open MotifChess.Order.RunMerge

/-- The rows that `append` accepts: nonzero ids, known results, one metadata record per game. -/
structure Acceptable (rows : List PositionRow) : Prop where
  id_ne : ∀ row ∈ rows, row.gameId ≠ 0
  result_range : ∀ row ∈ rows, -1 ≤ row.result ∧ row.result ≤ 1
  consistent : ∀ row ∈ rows, ∀ row' ∈ rows, row.gameId = row'.gameId →
    GameMetadata.ofRow row = GameMetadata.ofRow row'

theorem Acceptable.mono {rows rows' : List PositionRow} (h : Acceptable rows)
    (hsub : rows' ⊆ rows) : Acceptable rows' where
  id_ne row hrow := h.id_ne row (hsub hrow)
  result_range row hrow := h.result_range row (hsub hrow)
  consistent row hrow row' hrow' := h.consistent row (hsub hrow) row' (hsub hrow')

section Metadata

/-- One metadata record for each game among the rows. -/
structure MetadataOf (rows : List PositionRow) (metadata : List (ℕ × GameMetadata)) : Prop where
  nodup : (metadata.map Prod.fst).Nodup
  lookup_row : ∀ row ∈ rows,
    metadata.lookup row.gameId.toNat = some (GameMetadata.ofRow row)
  mem_row : ∀ item ∈ metadata, ∃ row ∈ rows,
    item = (row.gameId.toNat, GameMetadata.ofRow row)

private theorem lookup_eq_none_iff {metadata : List (ℕ × GameMetadata)} {key : ℕ} :
    metadata.lookup key = none ↔ key ∉ metadata.map Prod.fst := by
  induction metadata with
  | nil => simp
  | cons item metadata ih =>
    obtain ⟨k, m⟩ := item
    by_cases hk : key = k
    · simp [hk]
    · have hbeq : (key == k) = false := by simpa using hk
      simp [List.lookup_cons, hbeq, hk, ih]

theorem mem_of_lookup {metadata : List (ℕ × GameMetadata)} {key : ℕ} {m : GameMetadata}
    (h : metadata.lookup key = some m) : (key, m) ∈ metadata := by
  induction metadata with
  | nil => cases h
  | cons item metadata ih =>
    obtain ⟨k, m'⟩ := item
    by_cases hk : key = k
    · simp_all
    · have hbeq : (key == k) = false := by simpa using hk
      rw [List.lookup_cons, hbeq] at h
      exact List.mem_cons_of_mem _ (ih h)

private theorem lookup_concat_of_mem {metadata : List (ℕ × GameMetadata)} {key : ℕ}
    {m : GameMetadata} (item : ℕ × GameMetadata) (h : metadata.lookup key = some m) :
    (metadata ++ [item]).lookup key = some m := by
  rw [List.lookup_append, h]
  rfl

theorem MetadataOf.insert {rows : List PositionRow} {metadata : List (ℕ × GameMetadata)}
    (h : MetadataOf rows metadata) {row : PositionRow} (hacc : Acceptable (rows ++ [row])) :
    MetadataOf (rows ++ [row])
      (if (metadata.lookup row.gameId.toNat).isSome then metadata
      else metadata ++ [(row.gameId.toNat, GameMetadata.ofRow row)]) := by
  cases hlookup : metadata.lookup row.gameId.toNat with
  | some m =>
    rw [Option.isSome_some, if_pos rfl]
    refine ⟨h.nodup, fun other hother => ?_, fun item hitem => ?_⟩
    · rcases List.mem_append.mp hother with hother | hother
      · exact h.lookup_row other hother
      · obtain rfl := List.mem_singleton.mp hother
        have hmem : (other.gameId.toNat, m) ∈ metadata := mem_of_lookup hlookup
        obtain ⟨first, hfirst, heq⟩ := h.mem_row _ hmem
        obtain ⟨hid, rfl⟩ := Prod.mk.inj heq
        rw [hlookup, hacc.consistent first (List.mem_append_left _ hfirst) other (by simp)
          (UInt32.toNat_inj.mp hid.symm)]
    · obtain ⟨first, hfirst, heq⟩ := h.mem_row item hitem
      exact ⟨first, List.mem_append_left _ hfirst, heq⟩
  | none =>
    rw [if_neg (by simp)]
    have hfresh := lookup_eq_none_iff.mp hlookup
    refine ⟨?_, fun other hother => ?_, fun item hitem => ?_⟩
    · rw [List.map_append, List.nodup_append]
      refine ⟨h.nodup, by simp, ?_⟩
      intro a ha b hb
      obtain rfl : b = row.gameId.toNat := by simpa using hb
      rintro rfl
      exact hfresh ha
    · rcases List.mem_append.mp hother with hother | hother
      · exact lookup_concat_of_mem _ (h.lookup_row other hother)
      · obtain rfl := List.mem_singleton.mp hother
        rw [List.lookup_append, hlookup]
        simp
    · rcases List.mem_append.mp hitem with hitem | hitem
      · obtain ⟨first, hfirst, heq⟩ := h.mem_row item hitem
        exact ⟨first, List.mem_append_left _ hfirst, heq⟩
      · exact ⟨row, by simp, List.mem_singleton.mp hitem⟩

end Metadata

section Append

/-- The runs on disk and the buffer together hold the record of every row. -/
structure BuilderInv (rows : List PositionRow) (runs : List (List Record)) (b : Builder) :
    Prop where
  files : b.spillFiles = runs.map Builder.spillBytes
  sorted : ∀ run ∈ runs, run.Pairwise (· ≤ ·)
  records : (runs.flatten ++ b.records).Perm (rows.map Record.ofRow)
  metadata : MetadataOf rows b.gameMetadata

theorem BuilderInv.new (threshold : ℕ) : BuilderInv [] [] (Builder.new threshold) where
  files := rfl
  sorted := by simp
  records := by simp [Builder.new]
  metadata := ⟨by simp [Builder.new], by simp, by simp [Builder.new]⟩

private theorem pairwise_sortRecords (records : List Record) :
    (Builder.sortRecords records).Pairwise (· ≤ ·) := Order.pairwise_sortBy id records

theorem BuilderInv.spill {rows : List PositionRow} {runs : List (List Record)} {b : Builder}
    (h : BuilderInv rows runs b) :
    ∃ runs', BuilderInv rows runs' b.spillCurrentBuffer ∧ b.spillCurrentBuffer.records = [] ∧
      b.spillCurrentBuffer.spillThreshold = b.spillThreshold ∧
      b.spillCurrentBuffer.indexedGameCount = b.indexedGameCount ∧
      b.spillCurrentBuffer.gameMetadata = b.gameMetadata := by
  unfold Builder.spillCurrentBuffer
  split
  · next hempty => exact ⟨runs, h, by simpa using hempty, rfl, rfl, rfl⟩
  · refine ⟨runs ++ [Builder.sortRecords b.records], ⟨?_, ?_, ?_, h.metadata⟩, rfl, rfl, rfl, rfl⟩
    · simp [h.files]
    · intro run hrun
      rcases List.mem_append.mp hrun with hrun | hrun
      · exact h.sorted run hrun
      · rw [List.mem_singleton.mp hrun]
        exact pairwise_sortRecords b.records
    · have hperm : (Builder.sortRecords b.records).Perm b.records := Order.sortBy_perm _ _
      rw [List.flatten_append, List.flatten_singleton, List.append_nil]
      exact (hperm.append_left _).trans h.records

private theorem appendRow_ok {rows : List PositionRow} {runs : List (List Record)} {b : Builder}
    (h : BuilderInv rows runs b) {row : PositionRow} (hacc : Acceptable (rows ++ [row])) :
    ∃ b' runs', b.appendRow row = .ok b' ∧ BuilderInv (rows ++ [row]) runs' b' ∧
      b'.spillThreshold = b.spillThreshold := by
  have hid := hacc.id_ne row (by simp)
  have hrange := hacc.result_range row (by simp)
  have hmatch : ¬∃ m ∈ b.gameMetadata.lookup row.gameId.toNat, m ≠ GameMetadata.ofRow row := by
    rintro ⟨m, hm, hne⟩
    have hmem := mem_of_lookup hm
    obtain ⟨first, hfirst, heq⟩ := h.metadata.mem_row _ hmem
    obtain ⟨hkey, rfl⟩ := Prod.mk.inj heq
    exact hne (hacc.consistent first (List.mem_append_left _ hfirst) row (by simp)
      (UInt32.toNat_inj.mp hkey.symm))
  rw [Builder.appendRow]
  simp only
  rw [if_neg hid, if_neg (by omega), if_neg hmatch]
  set pushed : Builder := { b with
    gameMetadata := if (b.gameMetadata.lookup row.gameId.toNat).isSome then b.gameMetadata
      else b.gameMetadata ++ [(row.gameId.toNat, GameMetadata.ofRow row)]
    records := b.records ++ [Record.ofRow row] } with hpushed
  have hinv : BuilderInv (rows ++ [row]) runs pushed := by
    refine ⟨h.files, h.sorted, ?_, h.metadata.insert hacc⟩
    rw [hpushed, List.map_append, ← List.append_assoc]
    exact h.records.append_right _
  by_cases hfull : pushed.records.length ≥ pushed.spillThreshold
  · obtain ⟨runs', hspill, _, hthreshold, _⟩ := hinv.spill
    exact ⟨_, runs', by rw [if_pos hfull], hspill, hthreshold⟩
  · exact ⟨pushed, runs, by rw [if_neg hfull], hinv, rfl⟩

theorem foldlM_appendRow_ok {rows call : List PositionRow} {runs : List (List Record)}
    {b : Builder} (h : BuilderInv rows runs b) (hacc : Acceptable (rows ++ call)) :
    ∃ b' runs', call.foldlM Builder.appendRow b = .ok b' ∧ BuilderInv (rows ++ call) runs' b' ∧
      b'.spillThreshold = b.spillThreshold := by
  induction call generalizing rows runs b with
  | nil => exact ⟨b, runs, rfl, by simpa using h, rfl⟩
  | cons row call ih =>
    have hfirst : Acceptable (rows ++ [row]) := hacc.mono fun x hx => by
      rcases List.mem_append.mp hx with hx | hx
      · exact List.mem_append_left _ hx
      · rw [List.mem_singleton.mp hx]
        simp
    obtain ⟨middle, runs₁, hrow, hinv, hthreshold⟩ := appendRow_ok h hfirst
    obtain ⟨b', runs', hcall, hinv', hthreshold'⟩ := ih hinv (by simpa using hacc)
    refine ⟨b', runs', ?_, by simpa using hinv', hthreshold'.trans hthreshold⟩
    rw [List.foldlM_cons, hrow]
    exact hcall

private theorem acceptable_of_appendRow {rows : List PositionRow} {runs : List (List Record)}
    {b b' : Builder} (h : BuilderInv rows runs b) (hacc : Acceptable rows) {row : PositionRow}
    (hrow : b.appendRow row = .ok b') : Acceptable (rows ++ [row]) := by
  rw [Builder.appendRow] at hrow
  dsimp only at hrow
  by_cases hid : row.gameId = 0
  · rw [if_pos hid] at hrow
    cases hrow
  rw [if_neg hid] at hrow
  by_cases hrange : row.result < -1 ∨ row.result > 1
  · rw [if_pos hrange] at hrow
    cases hrow
  rw [if_neg hrange] at hrow
  by_cases hmatch : ∃ m ∈ b.gameMetadata.lookup row.gameId.toNat, m ≠ GameMetadata.ofRow row
  · rw [if_pos hmatch] at hrow
    cases hrow
  have hsame : ∀ other ∈ rows, other.gameId = row.gameId →
      GameMetadata.ofRow other = GameMetadata.ofRow row := by
    intro other hother hids
    have hlookup := h.metadata.lookup_row other hother
    rw [hids] at hlookup
    by_contra hne
    exact hmatch ⟨_, hlookup, hne⟩
  refine ⟨?_, ?_, ?_⟩
  · intro other hother
    rcases List.mem_append.mp hother with hold | hnew
    · exact hacc.id_ne other hold
    · rw [List.mem_singleton.mp hnew]
      exact hid
  · intro other hother
    rcases List.mem_append.mp hother with hold | hnew
    · exact hacc.result_range other hold
    · rw [List.mem_singleton.mp hnew]
      omega
  · intro a ha a' ha' hids
    rcases List.mem_append.mp ha with hold | hnew <;> rcases List.mem_append.mp ha' with hold' | hnew'
    · exact hacc.consistent a hold a' hold' hids
    · obtain rfl := List.mem_singleton.mp hnew'
      exact hsame a hold hids
    · obtain rfl := List.mem_singleton.mp hnew
      exact (hsame a' hold' hids.symm).symm
    · rw [List.mem_singleton.mp hnew, List.mem_singleton.mp hnew']

theorem acceptable_of_foldlM_appendRow {rows call : List PositionRow} {runs : List (List Record)}
    {b b' : Builder} (h : BuilderInv rows runs b) (hacc : Acceptable rows)
    (hcall : call.foldlM Builder.appendRow b = .ok b') : Acceptable (rows ++ call) := by
  induction call generalizing rows runs b with
  | nil => simpa using hacc
  | cons row call ih =>
    rw [List.foldlM_cons] at hcall
    obtain ⟨middle, hrow, hrest⟩ := bind_eq_ok.mp hcall
    have hfirst := acceptable_of_appendRow h hacc hrow
    obtain ⟨middle', runs', hrow', hinv, -⟩ := appendRow_ok h hfirst
    obtain rfl := Except.ok.inj (hrow.symm.trans hrow')
    simpa using ih hinv hfirst hrest

/-- A build in progress: every row so far was appended, and the game count is up to date. -/
structure BuildInv (rows : List PositionRow) (b : Builder) : Prop where
  inv : ∃ runs, BuilderInv rows runs b
  threshold : 1 ≤ b.spillThreshold
  count : b.indexedGameCount = b.gameMetadata.length

theorem BuildInv.new {threshold : ℕ} (h : 1 ≤ threshold) : BuildInv [] (Builder.new threshold) :=
  ⟨⟨[], BuilderInv.new threshold⟩, h, rfl⟩

theorem BuildInv.append {rows call : List PositionRow} {b : Builder} (h : BuildInv rows b)
    (hacc : Acceptable (rows ++ call)) :
    ∃ b', b.append call = .ok b' ∧ BuildInv (rows ++ call) b' := by
  obtain ⟨runs, hinv⟩ := h.inv
  obtain ⟨b', runs', hcall, hinv', hthreshold⟩ := foldlM_appendRow_ok hinv hacc
  have hpos := h.threshold
  refine ⟨{ b' with indexedGameCount := b'.gameMetadata.length }, ?_,
    ⟨⟨runs', hinv'.files, hinv'.sorted, hinv'.records, hinv'.metadata⟩, ?_, rfl⟩⟩
  · rw [Builder.append, if_neg (by omega), hcall]
    rfl
  · simpa [hthreshold] using hpos

end Append

section Read

theorem length_recordBytes (r : Record) : r.bytes.length = spillRecordSize := by
  simp [Record.bytes, spillRecordSize]

theorem length_flatMap_recordBytes (l : List Record) :
    (l.flatMap Record.bytes).length = l.length * spillRecordSize := by
  induction l with
  | nil => rfl
  | cons r l ih =>
    rw [List.flatMap_cons, List.length_append, ih, length_recordBytes, List.length_cons,
      Nat.succ_mul, Nat.add_comm]

/-- A record that fits the fields of a spill record. -/
structure Record.Fits (r : Record) : Prop where
  hash_lt : r.hash < 2 ^ 64
  game_lt : r.gameKey < 2 ^ 32
  ply_lt : r.ply < 2 ^ 16

theorem Record.ofRow_fits (row : PositionRow) : (Record.ofRow row).Fits :=
  ⟨row.zobristHash.toNat_lt, row.gameId.toNat_lt, row.ply.toNat_lt⟩

theorem decodeRecord_bytes {r : Record} (h : r.Fits) (rest : List UInt8) :
    decodeRecord (r.bytes ++ rest) = some (r, rest) := by
  have hhash : r.hash < 256 ^ 8 := h.hash_lt
  have hgame : r.gameKey < 256 ^ 4 := h.game_lt
  have hply : r.ply < 256 ^ 2 := h.ply_lt
  rw [decodeRecord, Record.bytes, List.append_assoc, List.append_assoc, readLe_leBytes hhash]
  simp only [Option.bind_eq_bind, Option.bind_some]
  rw [readLe_leBytes hgame]
  simp only [Option.bind_some]
  rw [readLe_leBytes hply]
  rfl

/-- The cursor has not failed and still has to deliver exactly the records `l`. -/
structure CursorAt (c : Cursor) (l : List Record) : Prop where
  good : c.eofbit = false ∧ c.failbit = false
  remaining : c.remaining = l.length
  buffered : ∃ front back, l = front ++ back ∧ c.buffer = front.flatMap Record.bytes ∧
    c.input = back.flatMap Record.bytes

variable {metadata : List (ℕ × GameMetadata)}

/-- The merge knows the game of the record. -/
def Known (metadata : List (ℕ × GameMetadata)) (r : Record) : Prop :=
  r.Fits ∧ r.gameKey ≠ 0 ∧ (metadata.lookup r.gameKey).isSome

private theorem CursorAt.fill {c : Cursor} {r : Record} {l : List Record}
    (h : CursorAt c (r :: l)) :
    c.fill.failbit = false ∧ c.fill.eofbit = false ∧ c.fill.remaining = l.length + 1 ∧
      ∃ front back, l = front ++ back ∧ c.fill.buffer = r.bytes ++ front.flatMap Record.bytes ∧
        c.fill.input = back.flatMap Record.bytes := by
  obtain ⟨front, back, hsplit, hbuffer, hinput⟩ := h.buffered
  have hremaining := h.remaining
  unfold Cursor.fill
  cases front with
  | cons first front =>
    obtain ⟨rfl, rfl⟩ := List.cons.inj hsplit
    have hne : c.buffer.isEmpty = false := by
      rw [hbuffer, List.isEmpty_eq_false_iff, List.flatMap_cons]
      intro hnil
      have := congrArg List.length hnil
      rw [List.length_append, length_recordBytes, spillRecordSize] at this
      simp at this
    rw [hne]
    exact ⟨h.good.2, h.good.1, hremaining, front, back, rfl, hbuffer, hinput⟩
  | nil =>
    rw [List.nil_append] at hsplit
    subst hsplit
    have hempty : c.buffer.isEmpty = true := by rw [hbuffer]; rfl
    set count := min c.remaining spillReadBufferRecords with hcount
    have hpos : 1 ≤ count := by
      rw [hcount, hremaining, List.length_cons, spillReadBufferRecords]
      omega
    have hle : count ≤ (r :: l).length := by
      rw [hcount, hremaining]
      exact Nat.min_le_left _ _
    have hlength : c.input.length = (r :: l).length * spillRecordSize := by
      rw [hinput, length_flatMap_recordBytes]
    have henough : ¬c.input.length < count * spillRecordSize := by
      rw [hlength]
      exact Nat.not_lt_of_le (Nat.mul_le_mul_right _ hle)
    have hsplit := List.take_append_drop count (r :: l)
    have htakeLength : (((r :: l).take count).flatMap Record.bytes).length =
        count * spillRecordSize := by
      rw [length_flatMap_recordBytes, List.length_take, Nat.min_eq_left hle]
    have hbytes : c.input = ((r :: l).take count).flatMap Record.bytes ++
        ((r :: l).drop count).flatMap Record.bytes := by
      rw [← List.flatMap_append, hsplit, hinput]
    obtain ⟨k, hk⟩ : ∃ k, count = k + 1 := ⟨count - 1, by omega⟩
    rw [hempty]
    simp only [if_true, if_neg henough]
    refine ⟨h.good.2, h.good.1, hremaining, l.take k, l.drop k,
      (List.take_append_drop k l).symm, ?_, ?_⟩
    · rw [hbytes, List.take_left' htakeLength, hk, List.take_succ_cons, List.flatMap_cons]
    · rw [hbytes, List.drop_left' htakeLength, hk, List.drop_succ_cons]

/-- Advancing delivers the next record, or stops without an error after the last one. -/
theorem CursorAt.step {c : Cursor} {r : Record} {l : List Record} (h : CursorAt c (r :: l))
    (hr : Known metadata r) :
    ∃ c', stepCursor metadata c = .ok (some c') ∧ c'.current = r ∧ CursorAt c' l := by
  obtain ⟨hfail, heof, hremaining, front, back, hsplit, hbuffer, hinput⟩ := h.fill
  obtain ⟨hfits, hgame, hlookup⟩ := hr
  have hpos : c.remaining ≠ 0 := by rw [h.remaining]; simp
  have hknown : ¬(r.gameKey = 0 ∨ (metadata.lookup r.gameKey).isNone = true) := by
    rintro (hzero | hnone)
    · exact hgame hzero
    · rw [Option.isNone_iff_eq_none.mp hnone] at hlookup
      cases hlookup
  refine ⟨{ c.fill with
    remaining := c.fill.remaining - 1
    current := r
    buffer := front.flatMap Record.bytes }, ?_, rfl, ?_⟩
  · rw [stepCursor, Cursor.advance, if_neg hpos]
    simp only [hfail, hbuffer, decodeRecord_bytes hfits, if_neg hknown]
    rfl
  · exact ⟨⟨heof, hfail⟩, by simp [hremaining], front, back, hsplit, rfl, hinput⟩

theorem CursorAt.step_nil {c : Cursor} (h : CursorAt c []) :
    stepCursor metadata c = .ok none := by
  have hremaining : c.remaining = 0 := h.remaining
  rw [stepCursor, Cursor.advance, if_pos hremaining]
  simp [h.good]

/-- Stepping the cursor yields exactly the records of a list and then the end of the run. -/
inductive Delivers (metadata : List (ℕ × GameMetadata)) : Cursor → List Record → Prop
  | done {c : Cursor} : stepCursor metadata c = .ok none → Delivers metadata c []
  | step {c c' : Cursor} {r : Record} {l : List Record} :
      stepCursor metadata c = .ok (some c') → c'.current = r → Delivers metadata c' l →
      Delivers metadata c (r :: l)

theorem CursorAt.delivers {c : Cursor} {l : List Record} (h : CursorAt c l)
    (hl : ∀ r ∈ l, Known metadata r) : Delivers metadata c l := by
  induction l generalizing c with
  | nil => exact Delivers.done h.step_nil
  | cons r l ih =>
    obtain ⟨c', hstep, hcurrent, hat⟩ := h.step (hl r List.mem_cons_self)
    exact Delivers.step hstep hcurrent (ih hat fun x hx => hl x (List.mem_cons_of_mem _ hx))

theorem Delivers.delivers {c : Cursor} {l : List Record} (h : Delivers metadata c l) :
    RunMerge.Delivers Cursor.current (stepCursor metadata) c l := by
  induction h with
  | done hstep => exact .done hstep
  | step hstep hcurrent _ ih => exact hcurrent ▸ .next hstep ih

private theorem openCursor_spillBytes {run : List Record} (hlen : run.length < 2 ^ 64) :
    ∃ c, openCursor (Builder.spillBytes run) = .ok c ∧ CursorAt c run := by
  have hcount : run.length < 256 ^ 8 := hlen
  rw [openCursor, Builder.spillBytes, readLe_leBytes hcount]
  exact ⟨_, rfl, ⟨rfl, rfl⟩, rfl, [], run, rfl, rfl, rfl⟩

end Read

section Stage

variable {metadata : List (ℕ × GameMetadata)}

private theorem length_le_fuel (runs : List (List Record)) :
    runs.flatten.length ≤ ((runs.map Builder.spillBytes).map List.length).sum := by
  induction runs with
  | nil => simp
  | cons run runs ih =>
    rw [List.flatten_cons, List.length_append, List.map_cons, List.map_cons, List.sum_cons,
      Builder.spillBytes, List.length_append, length_flatMap_recordBytes, spillRecordSize]
    omega

private theorem known_of_metadataOf {rows : List PositionRow} (h : MetadataOf rows metadata)
    (hids : ∀ row ∈ rows, row.gameId ≠ 0) {r : Record} (hr : r ∈ rows.map Record.ofRow) :
    Known metadata r := by
  obtain ⟨row, hrow, rfl⟩ := List.mem_map.mp hr
  have hlookup := h.lookup_row row hrow
  refine ⟨Record.ofRow_fits row, fun hzero => hids row hrow (UInt32.toNat_inj.mp hzero), ?_⟩
  rw [Record.ofRow, hlookup]
  rfl

/-- The merge opens the file and reads from it exactly the records of the run. -/
def Opens (metadata : List (ℕ × GameMetadata)) (file : List UInt8) (run : List Record) : Prop :=
  ∃ c, openCursor file = .ok c ∧ Delivers metadata c run

theorem opens_spillBytes {run : List Record} (hlen : run.length < 2 ^ 64)
    (hrun : ∀ r ∈ run, Known metadata r) : Opens metadata (Builder.spillBytes run) run := by
  obtain ⟨c, hc, hat⟩ := openCursor_spillBytes hlen
  exact ⟨c, hc, hat.delivers hrun⟩

theorem stageArtifact_of_opens {b : Builder} {runs : List (List Record)}
    (hopens : List.Forall₂ (Opens b.gameMetadata) b.spillFiles runs)
    (hsorted : ∀ run ∈ runs, run.Pairwise (· ≤ ·))
    (hfuel : runs.flatten.length ≤ (b.spillFiles.map List.length).sum) :
    ∃ merged : List Record, merged.Perm runs.flatten ∧ merged.Pairwise (· ≤ ·) ∧
      stageArtifact b = .ok (assembleArtifact b
        (merged.foldl MergeState.visit MergeState.init).flushHash.flushDirectoryBlock) := by
  have hdelivers : List.Forall₂ (fun file run => ∃ c, openCursor file = .ok c ∧
      RunMerge.Delivers Cursor.current (stepCursor b.gameMetadata) c run) b.spillFiles runs :=
    hopens.imp fun _ _ ⟨c, hopen, hc⟩ => ⟨c, hopen, hc.delivers⟩
  obtain ⟨cursors, heap, merged, hcursors, hheap, hperm, hascend, hrun⟩ := mergeFiles_eq_foldlM
    (fun s record => (.ok (MergeState.visit s record) : Result MergeState)) hdelivers hsorted
    (Nat.lt_succ_of_le hfuel)
  refine ⟨merged, hperm, hascend, ?_⟩
  have hfold : merged.foldlM (fun s record => (.ok (MergeState.visit s record) : Result MergeState))
      MergeState.init = .ok (merged.foldl MergeState.visit MergeState.init) := List.foldlM_pure
  rw [stageArtifact, hcursors, ok_bind, hheap, ok_bind]
  dsimp only
  rw [hrun, hfold]
  rfl

variable {rows : List PositionRow} {runs : List (List Record)} {b : Builder}

theorem BuilderInv.perm_of_spilled (h : BuilderInv rows runs b) (hempty : b.records = []) :
    runs.flatten.Perm (rows.map Record.ofRow) := by
  simpa [hempty] using h.records

theorem BuilderInv.known (h : BuilderInv rows runs b) (hempty : b.records = [])
    (hids : ∀ row ∈ rows, row.gameId ≠ 0) {run : List Record} (hrun : run ∈ runs) :
    ∀ r ∈ run, Known b.gameMetadata r := fun _ hr =>
  known_of_metadataOf h.metadata hids
    ((h.perm_of_spilled hempty).mem_iff.mp (List.mem_flatten.mpr ⟨run, hrun, hr⟩))

theorem BuilderInv.length_lt (h : BuilderInv rows runs b)
    (hfiles : ∀ file ∈ b.spillFiles, file.length < 2 ^ 63) {run : List Record} (hrun : run ∈ runs) :
    run.length < 2 ^ 64 := by
  have hfile := hfiles (Builder.spillBytes run) (by
    rw [h.files]
    exact List.mem_map_of_mem hrun)
  rw [Builder.spillBytes, List.length_append, length_flatMap_recordBytes, spillRecordSize] at hfile
  omega

theorem stageArtifact_eq (h : BuilderInv rows runs b) (hempty : b.records = [])
    (hids : ∀ row ∈ rows, row.gameId ≠ 0) (hfiles : ∀ file ∈ b.spillFiles, file.length < 2 ^ 63) :
    ∃ merged : List Record, merged.Perm (rows.map Record.ofRow) ∧ merged.Pairwise (· ≤ ·) ∧
      stageArtifact b = .ok (assembleArtifact b
        (merged.foldl MergeState.visit MergeState.init).flushHash.flushDirectoryBlock) := by
  have hopens : List.Forall₂ (Opens b.gameMetadata) b.spillFiles runs := by
    rw [h.files, List.forall₂_map_left_iff, List.forall₂_same]
    intro run hrun
    exact opens_spillBytes (h.length_lt hfiles hrun) (h.known hempty hids hrun)
  have hfuel : runs.flatten.length ≤ (b.spillFiles.map List.length).sum := by
    rw [h.files]
    exact length_le_fuel runs
  obtain ⟨merged, hperm, hsorted, hstage⟩ := stageArtifact_of_opens hopens h.sorted hfuel
  exact ⟨merged, hperm.trans (h.perm_of_spilled hempty), hsorted, hstage⟩

end Stage

end MotifChess.Db.PositionPostings
