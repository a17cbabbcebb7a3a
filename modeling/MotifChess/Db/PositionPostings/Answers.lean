/- GID: MotifChess/Db/PositionPostings/Answers
   generality: specification
   digest: What the set of appended rows prescribes as the answer of every query. -/

import MotifChess.Db.PositionPostings.Spills
import Mathlib.Data.Finset.Sort
import Mathlib.Data.Finset.Image
import Mathlib.Data.List.Dedup

/-! The reference knows nothing of spills, blocks or bytes: it reads the rows as a set.  The order of
the rows and repeated rows are therefore invisible in every answer. -/

set_option autoImplicit false
set_option relaxedAutoImplicit false

namespace MotifChess.Db.PositionPostings

section Reference

def occurrenceOf (row : PositionRow) : Occurrence := ⟨row.gameId, row.ply⟩

/-- The distinct games and plies at which a position occurs. -/
def occurrenceSet (rows : List PositionRow) (hash : UInt64) : Finset Occurrence :=
  ((rows.filter fun row => decide (row.zobristHash = hash)).map occurrenceOf).toFinset

def occurrencesAt (rows : List PositionRow) (hash : UInt64) : List Occurrence :=
  (occurrenceSet rows hash).sort (· ≤ ·)

/-- The result and ratings that the rows give to a game. -/
def metadataAt (rows : List PositionRow) (id : UInt32) : GameMetadata :=
  ((rows.find? fun row => decide (row.gameId = id)).map GameMetadata.ofRow).getD ⟨0, none, none⟩

def matchAt (rows : List PositionRow) (o : Occurrence) : PositionMatch :=
  let m := metadataAt rows o.id
  ⟨o.id, o.ply, m.result, m.whiteElo, m.blackElo⟩

def gameIdsAt (rows : List PositionRow) (hash : UInt64) : List UInt32 :=
  ((occurrencesAt rows hash).map Occurrence.id).dedup

/-- The requested games that reach the position, each at its lowest ply. -/
def firstOccurrencesAt (rows : List PositionRow) (hash : UInt64) (requested : List UInt32) :
    List Occurrence :=
  (occurrencesAt rows hash).filter fun o => decide (o.id ∈ requested ∧
    ∀ o' ∈ occurrencesAt rows hash, o'.id = o.id → o.ply ≤ o'.ply)

def summaryAt (rows : List PositionRow) (hash : UInt64) : Option PositionPostingsSummary := do
  let plies := (occurrencesAt rows hash).map fun o => o.ply.toNat
  let minPly ← plies.min?
  let maxPly ← plies.max?
  return ⟨plies.length, (gameIdsAt rows hash).length, minPly, maxPly⟩

/-- The part of a list from `offset` on, where a zero limit stands for no limit. -/
def window {α : Type} (limit offset : ℕ) (l : List α) : List α :=
  if limit = 0 then l.drop offset else (l.drop offset).take limit

def gameCountOf (rows : List PositionRow) : ℕ := ((rows.map PositionRow.gameId).dedup).length

/-- The reader answers every query on the file as the rows prescribe. -/
structure Answers (reader : Reader) (file : List UInt8) (rows : List PositionRow) : Prop where
  occurrences : ∀ hash limit offset,
    reader.occurrences file (UInt64.toNat hash) limit offset =
      .ok ((window limit offset (occurrencesAt rows hash)).map (matchAt rows))
  distinctGameIds : ∀ hash,
    reader.distinctGameIds file (UInt64.toNat hash) = .ok (gameIdsAt rows hash)
  firstOccurrences : ∀ hash requested,
    reader.firstOccurrences file (UInt64.toNat hash) requested =
      .ok ((firstOccurrencesAt rows hash requested).map (matchAt rows))
  summary : ∀ hash, reader.summary file (UInt64.toNat hash) = .ok (summaryAt rows hash)
  gameCount : reader.header.indexedGameCount = gameCountOf rows

end Reference

section Sorted

theorem eq_of_pairwise_lt {α : Type} [LinearOrder α] {l m : List α} (hl : l.Pairwise (· < ·))
    (hm : m.Pairwise (· < ·)) (hmem : ∀ a, a ∈ l ↔ a ∈ m) : l = m := by
  have hperm : l.Perm m := (List.perm_ext_iff_of_nodup (hl.imp fun h => h.ne)
    (hm.imp fun h => h.ne)).mpr hmem
  exact hperm.eq_of_pairwise (fun a b _ _ hab hba => absurd hab hba.not_gt) hl hm

variable {rows rows' : List PositionRow} {hash : UInt64}

private theorem mem_occurrenceSet {o : Occurrence} :
    o ∈ occurrenceSet rows hash ↔
      ∃ row ∈ rows, row.zobristHash = hash ∧ occurrenceOf row = o := by
  simp only [occurrenceSet, List.mem_toFinset, List.mem_map, List.mem_filter, decide_eq_true_eq,
    and_assoc]

theorem mem_occurrencesAt {o : Occurrence} :
    o ∈ occurrencesAt rows hash ↔
      ∃ row ∈ rows, row.zobristHash = hash ∧ occurrenceOf row = o := by
  rw [occurrencesAt, Finset.mem_sort, mem_occurrenceSet]

theorem pairwise_occurrencesAt : (occurrencesAt rows hash).Pairwise (· < ·) :=
  (Finset.sortedLT_sort _).pairwise

theorem occurrencesAt_eq {l : List Occurrence} (hl : l.Pairwise (· < ·))
    (hmem : ∀ o, o ∈ l ↔ ∃ row ∈ rows, row.zobristHash = hash ∧ occurrenceOf row = o) :
    occurrencesAt rows hash = l :=
  eq_of_pairwise_lt pairwise_occurrencesAt hl fun o => by rw [mem_occurrencesAt, hmem]

end Sorted

section Congruence

variable {rows rows' : List PositionRow}

theorem Acceptable.metadataAt_eq (h : Acceptable rows) {row : PositionRow} (hrow : row ∈ rows) :
    metadataAt rows row.gameId = GameMetadata.ofRow row := by
  unfold metadataAt
  cases hfind : rows.find? fun other => decide (other.gameId = row.gameId) with
  | none => simpa using List.find?_eq_none.mp hfind row hrow
  | some other =>
    have hid : other.gameId = row.gameId := by simpa using List.find?_some hfind
    exact h.consistent other (List.mem_of_find?_eq_some hfind) row hrow hid

private theorem metadataAt_of_notMem {id : UInt32} (h : ∀ row ∈ rows, row.gameId ≠ id) :
    metadataAt rows id = ⟨0, none, none⟩ := by
  have hfind : (rows.find? fun row => decide (row.gameId = id)) = none :=
    List.find?_eq_none.mpr (by simpa using h)
  rw [metadataAt, hfind]
  rfl

private theorem metadataAt_congr (h : Acceptable rows) (hmem : ∀ row, row ∈ rows' ↔ row ∈ rows)
    (id : UInt32) : metadataAt rows' id = metadataAt rows id := by
  have h' : Acceptable rows' := h.mono fun row hrow => (hmem row).mp hrow
  by_cases hid : ∃ row ∈ rows, row.gameId = id
  · obtain ⟨row, hrow, rfl⟩ := hid
    rw [h.metadataAt_eq hrow, h'.metadataAt_eq ((hmem row).mpr hrow)]
  · have hnone : ∀ row ∈ rows, row.gameId ≠ id := fun row hrow heq => hid ⟨row, hrow, heq⟩
    rw [metadataAt_of_notMem hnone,
      metadataAt_of_notMem fun row hrow => hnone row ((hmem row).mp hrow)]

private theorem matchAt_congr (h : Acceptable rows) (hmem : ∀ row, row ∈ rows' ↔ row ∈ rows) :
    matchAt rows' = matchAt rows := by
  funext o
  rw [matchAt, matchAt, metadataAt_congr h hmem]

private theorem occurrencesAt_congr (hmem : ∀ row, row ∈ rows' ↔ row ∈ rows) (hash : UInt64) :
    occurrencesAt rows' hash = occurrencesAt rows hash :=
  occurrencesAt_eq pairwise_occurrencesAt fun o => by simp only [mem_occurrencesAt, hmem]

private theorem gameCountOf_congr (hmem : ∀ row, row ∈ rows' ↔ row ∈ rows) :
    gameCountOf rows' = gameCountOf rows := by
  refine List.Perm.length_eq ((List.perm_ext_iff_of_nodup (List.nodup_dedup _)
    (List.nodup_dedup _)).mpr fun id => ?_)
  simp only [List.mem_dedup, List.mem_map, hmem]

theorem Answers.congr {reader : Reader} {file : List UInt8} (h : Answers reader file rows)
    (hacc : Acceptable rows) (hmem : ∀ row, row ∈ rows' ↔ row ∈ rows) :
    Answers reader file rows' := by
  have hoccurrences := occurrencesAt_congr hmem
  have hmatch := matchAt_congr hacc hmem
  refine ⟨fun hash limit offset => ?_, fun hash => ?_, fun hash requested => ?_, fun hash => ?_, ?_⟩
  · rw [h.occurrences, hoccurrences, hmatch]
  · rw [h.distinctGameIds, gameIdsAt, gameIdsAt, hoccurrences]
  · rw [h.firstOccurrences, firstOccurrencesAt, firstOccurrencesAt, hoccurrences, hmatch]
  · rw [h.summary, summaryAt, summaryAt, gameIdsAt, gameIdsAt, hoccurrences]
  · rw [h.gameCount, gameCountOf_congr hmem]

end Congruence

end MotifChess.Db.PositionPostings
