/- GID: MotifChess/Db/OpeningTreeIndex/PostingCounts
   generality: implementation
   digest: The postings of the replayed games count every position as the games themselves do. -/

import MotifChess.Db.OpeningTreeIndex.Accumulation
import MotifChess.Db.PositionPostings.ReplayAnswers
import MotifChess.Db.PositionPostings.Validation

set_option autoImplicit false
set_option relaxedAutoImplicit false

namespace MotifChess.Db.OpeningTreeIndex

open MotifChess.Order.Aggregation
open PositionPostings

variable {rules : Chess.Rules} {games : List ReplayGame}

section Rows

private theorem map_hash_rowsAfter (row : PositionRow) (board : rules.Board) (ply : ℕ)
    (moves : List UInt16) :
    (rowsAfter rules row board ply moves).map (fun r => r.zobristHash.toNat) =
      hashesAfter rules board moves := by
  induction moves generalizing board ply with
  | nil => rfl
  | cons move moves ih =>
    rw [rowsAfter, hashesAfter]
    exact congrArg _ (ih _ _)

private theorem gameId_of_mem_rowsAfter {row r : PositionRow} {board : rules.Board} {ply : ℕ}
    {moves : List UInt16} (h : r ∈ rowsAfter rules row board ply moves) :
    r.gameId = row.gameId := by
  induction moves generalizing board ply with
  | nil => cases h
  | cons move moves ih =>
    rw [rowsAfter] at h
    rcases List.mem_cons.mp h with rfl | h
    · rfl
    · exact ih h

/-- The rows of a game go through its positions, under its id. -/
theorem replayRows_sound {game : ReplayGame} {call : List PositionRow}
    (h : replayRows rules game = .ok call) :
    call.map (fun r => r.zobristHash.toNat) =
        fullCoverageRootHash rules :: hashesAfter rules rules.start game.moves ∧
      ∀ r ∈ call, r.gameId = UInt32.ofNat game.id := by
  obtain ⟨whiteElo, -, h⟩ := bind_eq_ok.mp h
  obtain ⟨blackElo, -, h⟩ := bind_eq_ok.mp h
  split at h
  · cases h
  · obtain rfl := Except.ok.inj h
    constructor
    · rw [List.map_cons, map_hash_rowsAfter]
      rfl
    · intro r hr
      rcases List.mem_cons.mp hr with rfl | hr
      · rfl
      · exact gameId_of_mem_rowsAfter hr

private theorem replayRows_of_foldlM {b b' : PositionPostings.Builder}
    (h : games.foldlM (appendGame rules) b = .ok b') :
    ∀ game ∈ games, ∃ call, replayRows rules game = .ok call := by
  induction games generalizing b with
  | nil => simp
  | cons game games ih =>
    rw [List.foldlM_cons, bind_eq_ok] at h
    obtain ⟨middle, hgame, hrest⟩ := h
    obtain ⟨call, hcall, -⟩ := bind_eq_ok.mp hgame
    intro g hg
    rcases List.mem_cons.mp hg with rfl | hg
    · exact ⟨call, hcall⟩
    · exact ih hrest g hg

/-- Every game could be replayed, and no two games share an id. -/
structure Replayed (rules : Chess.Rules) (games : List ReplayGame) : Prop where
  rows : ∀ game ∈ games, ∃ call, replayRows rules game = .ok call
  ids : (games.map fun game => UInt32.ofNat game.id).Nodup

theorem mem_gameRows (h : ∀ game ∈ games, ∃ call, replayRows rules game = .ok call)
    {row : PositionRow} : row ∈ gameRows rules games ↔
      ∃ game ∈ games, ∃ call, replayRows rules game = .ok call ∧ row ∈ call := by
  rw [gameRows, List.mem_flatMap]
  constructor
  · rintro ⟨game, hgame, hrow⟩
    obtain ⟨call, hcall⟩ := h game hgame
    rw [hcall] at hrow
    exact ⟨game, hgame, call, hcall, hrow⟩
  · rintro ⟨game, hgame, call, hcall, hrow⟩
    refine ⟨game, hgame, ?_⟩
    rw [hcall]
    exact hrow

theorem mem_map_gameId (h : ∀ game ∈ games, ∃ call, replayRows rules game = .ok call)
    {id : UInt32} : id ∈ (gameRows rules games).map PositionRow.gameId ↔
      id ∈ games.map fun game => UInt32.ofNat game.id := by
  rw [List.mem_map, List.mem_map]
  constructor
  · rintro ⟨row, hrow, rfl⟩
    obtain ⟨game, hgame, call, hcall, hrow⟩ := (mem_gameRows h).mp hrow
    exact ⟨game, hgame, ((replayRows_sound hcall).2 row hrow).symm⟩
  · rintro ⟨game, hgame, rfl⟩
    obtain ⟨call, hcall⟩ := h game hgame
    obtain ⟨hhashes, hids⟩ := replayRows_sound hcall
    cases call with
    | nil => cases hhashes
    | cons row call =>
      refine ⟨row, (mem_gameRows h).mpr ⟨game, hgame, _, hcall, List.mem_cons_self⟩, ?_⟩
      exact hids row List.mem_cons_self

theorem replayed_of_build {threshold : ℕ} {file : List UInt8} (hthreshold : 1 ≤ threshold)
    (h : PositionPostings.build rules threshold games = .ok file) : Replayed rules games := by
  obtain ⟨reader, -, hanswers, hcount⟩ := build_answers_of_ok rules hthreshold h
  obtain ⟨b, hgames, -⟩ := bind_eq_ok.mp h
  have hrows := replayRows_of_foldlM hgames
  refine ⟨hrows, ?_⟩
  have hperm : ((gameRows rules games).map PositionRow.gameId).dedup.Perm
      (games.map fun game => UInt32.ofNat game.id).dedup := by
    refine (List.perm_ext_iff_of_nodup (List.nodup_dedup _) (List.nodup_dedup _)).mpr fun id => ?_
    rw [List.mem_dedup, List.mem_dedup, mem_map_gameId hrows]
  have hlength : (games.map fun game => UInt32.ofNat game.id).dedup.length =
      (games.map fun game => UInt32.ofNat game.id).length := by
    rw [← hperm.length_eq, List.length_map, ← hcount, hanswers.gameCount, gameCountOf]
  rw [← List.dedup_eq_self]
  exact (List.dedup_sublist _).eq_of_length hlength

end Rows

section Distinct

theorem mem_gameIdsAt {rows : List PositionRow} {hash : UInt64} {id : UInt32} :
    id ∈ gameIdsAt rows hash ↔ ∃ row ∈ rows, row.zobristHash = hash ∧ row.gameId = id := by
  rw [gameIdsAt, List.mem_dedup, List.mem_map]
  constructor
  · rintro ⟨o, ho, rfl⟩
    obtain ⟨row, hrow, hhash, rfl⟩ := mem_occurrencesAt.mp ho
    exact ⟨row, hrow, hhash, rfl⟩
  · rintro ⟨row, hrow, hhash, rfl⟩
    exact ⟨occurrenceOf row, mem_occurrencesAt.mpr ⟨row, hrow, hhash, rfl⟩, rfl⟩

theorem nodup_gameIdsAt (rows : List PositionRow) (hash : UInt64) :
    (gameIdsAt rows hash).Nodup := List.nodup_dedup _

theorem mem_rows_iff {game : ReplayGame} {call : List PositionRow}
    (h : replayRows rules game = .ok call) {hash : UInt64} :
    (∃ row ∈ call, row.zobristHash = hash) ↔ hash.toNat ∈ gameVisits rules game := by
  rw [mem_gameVisits, ← (replayRows_sound h).1, List.mem_map]
  simp only [UInt64.toNat_inj]

theorem length_gameIdsAt (h : Replayed rules games) (hash : UInt64) :
    (gameIdsAt (gameRows rules games) hash).length =
      (visitsOf rules games).count hash.toNat := by
  rw [count_visitsOf, List.countP_eq_length_filter]
  set reaching := games.filter fun game => hash.toNat ∈ gameVisits rules game with hreaching
  have hnodup : (reaching.map fun game => UInt32.ofNat game.id).Nodup :=
    h.ids.sublist (List.filter_sublist.map _)
  have hperm : (gameIdsAt (gameRows rules games) hash).Perm
      (reaching.map fun game => UInt32.ofNat game.id) := by
    refine (List.perm_ext_iff_of_nodup (nodup_gameIdsAt _ _) hnodup).mpr fun id => ?_
    rw [mem_gameIdsAt, List.mem_map]
    constructor
    · rintro ⟨row, hrow, hhash, rfl⟩
      obtain ⟨game, hgame, call, hcall, hrow⟩ := (mem_gameRows h.rows).mp hrow
      refine ⟨game, List.mem_filter.mpr ⟨hgame, ?_⟩, ((replayRows_sound hcall).2 row hrow).symm⟩
      rw [decide_eq_true_eq, ← mem_rows_iff hcall]
      exact ⟨row, hrow, hhash⟩
    · rintro ⟨game, hmem, rfl⟩
      obtain ⟨hgame, hvisit⟩ := List.mem_filter.mp hmem
      obtain ⟨call, hcall⟩ := h.rows game hgame
      obtain ⟨row, hrow, hhash⟩ := (mem_rows_iff hcall).mpr (of_decide_eq_true hvisit)
      refine ⟨row, (mem_gameRows h.rows).mpr ⟨game, hgame, call, hcall, hrow⟩, hhash, ?_⟩
      exact (replayRows_sound hcall).2 row hrow
  rw [hperm.length_eq, List.length_map]

theorem length_lt_of_build {threshold : ℕ} {file : List UInt8} (hthreshold : 1 ≤ threshold)
    (h : PositionPostings.build rules threshold games = .ok file) : games.length < 2 ^ 32 := by
  obtain ⟨reader, -, -, -, hfit⟩ := build_answers_fit hthreshold h
  have hstart := length_gameIdsAt (replayed_of_build hthreshold h) (rules.hash rules.start)
  have hall : (visitsOf rules games).count (rules.hash rules.start).toNat = games.length := by
    rw [count_visitsOf, List.countP_eq_length]
    intro game _
    exact decide_eq_true ((mem_gameVisits rules).mpr List.mem_cons_self)
  have hids : (gameIdsAt (gameRows rules games) (rules.hash rules.start)).length ≤
      (occurrencesAt (gameRows rules games) (rules.hash rules.start)).length := by
    rw [gameIdsAt]
    exact (List.dedup_sublist _).length_le.trans_eq (List.length_map _)
  have hoccurrences : (occurrencesAt (gameRows rules games) (rules.hash rules.start)).length =
      (occurrenceSet (gameRows rules games) (rules.hash rules.start)).card := Finset.length_sort _
  have hcard := hfit (rules.hash rules.start)
  omega

end Distinct

section Stream

/-- What the visitor is handed for a directory entry. -/
def entryCount (entry : DirectoryBlockEntry) : ℕ × UInt32 :=
  (entry.hash, UInt32.ofNat entry.distinctGameCount)

theorem foldlM_writeChildCount {written counts : List (ℕ × UInt32)}
    (hasc : ((written ++ counts).map Prod.fst).Pairwise (· < ·)) (hne : ∀ p ∈ counts, p.2 ≠ 0) :
    counts.foldlM (fun w p => writeChildCount w p.1 p.2) written = .ok (written ++ counts) := by
  induction counts generalizing written with
  | nil => rw [List.append_nil]; rfl
  | cons p counts ih =>
    have hlast : ¬(p.2 = 0 ∨ ∃ previous ∈ written.getLast?, p.1 ≤ previous.1) := by
      rintro (hzero | ⟨previous, hprevious, hle⟩)
      · exact hne p List.mem_cons_self hzero
      · rw [List.map_append, List.pairwise_append] at hasc
        have hmem := List.mem_of_getLast? hprevious
        have hlt := hasc.2.2 previous.1 (List.mem_map_of_mem hmem) p.1 (by simp)
        omega
    rw [List.foldlM_cons, writeChildCount, if_neg hlast, ok_bind,
      ih (by simpa using hasc) fun q hq => hne q (List.mem_cons_of_mem p hq)]
    simp

theorem postingsChildCounts_eq {file : List UInt8} {reader : PositionPostings.Reader}
    {blocks : List (List DirectoryBlockEntry)}
    (hblocks : List.Forall₂ (BlockOf file) reader.sparseDirectory blocks) :
    (postingsChildCounts reader file).forEach writeChildCount [] =
      (blocks.flatten.map entryCount).foldlM (fun w p => writeChildCount w p.1 p.2) [] := by
  rw [List.foldlM_map]
  exact foldlM_readDirectoryBlock hblocks
    (fun w entry => writeChildCount w entry.hash (UInt32.ofNat entry.distinctGameCount)) []

end Stream

end MotifChess.Db.OpeningTreeIndex
