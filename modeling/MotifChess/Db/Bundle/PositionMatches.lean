/- GID: MotifChess/Db/Bundle/PositionMatches
   generality: implementation
   digest: The matches of a position as the stored games that reach it, and the games a filter keeps. -/

import MotifChess.Db.Bundle.GameSearches
import MotifChess.Db.PositionPostings.GamePositions

set_option autoImplicit false
set_option relaxedAutoImplicit false

namespace MotifChess.Db

open PositionPostings OpeningTreeIndex MotifChess.Search.OpeningTree

namespace Tables

variable {t : Tables} {filter : SearchFilter} {ids filtered : List UInt32}

theorem mem_findGameIdsWithFilter (hfit : t.IdsFit)
    (h : t.findGameIdsWithFilter ids filter = .ok filtered) {row : GameRow} (hrow : row ∈ t.games)
    (hid : UInt32.ofNat row.id ∈ ids) :
    UInt32.ofNat row.id ∈ filtered ↔ filter.keeps row.stored = true := by
  have hne : ¬ids.isEmpty = true := by
    rw [List.isEmpty_iff]
    rintro rfl
    cases hid
  rw [findGameIdsWithFilter, if_neg hne] at h
  obtain ⟨-, -, h⟩ := bind_eq_ok.mp h
  obtain rfl := Except.ok.inj h
  rw [List.mem_map]
  constructor
  · rintro ⟨other, hother, hsame⟩
    obtain ⟨hlisted, hkept⟩ := List.mem_filter.mp hother
    obtain rfl := hfit.eq_of_id ((mem_withIds hfit).mp hlisted).1 hrow hsame
    exact hkept
  · intro hkept
    exact ⟨row, List.mem_filter.mpr ⟨(mem_withIds hfit).mpr ⟨hrow, hid⟩, hkept⟩, rfl⟩

theorem findGameIdsWithFilter_isOk (hids : ids.Nodup) :
    ∃ filtered, t.findGameIdsWithFilter ids filter = .ok filtered := by
  rw [findGameIdsWithFilter, populatePositionTempTable, if_pos hids]
  split_ifs
  · exact ⟨_, rfl⟩
  · exact ⟨_, rfl⟩

end Tables

namespace Bundle

variable {rules : Chess.Rules} {Tree : Type}
  {buildTree : List ReplayGame → Reader → List UInt8 → Result (List UInt8)}
  {openTree : List UInt8 → Result Tree} {sourceGameCount : Tree → ℕ}
  {b : Bundle (.ofRules rules Tree buildTree openTree sourceGameCount)}

/-- What the postings say of a position. -/
def matchesAt (b : Bundle (.ofRules rules Tree buildTree openTree sourceGameCount)) (hash : UInt64) :
    List PositionMatch := (occurrencesAt b.replayedRows hash).map (matchAt b.replayedRows)

theorem mem_matchesAt (h : b.ValidPostings) {hash : UInt64} {found : PositionMatch} :
    found ∈ b.matchesAt hash ↔ ∃ row ∈ b.tables.games, found.gameId = UInt32.ofNat row.id ∧
      ReachesAt rules row.stored.moves hash found.ply.toNat ∧
      found.result = resultCode row.readResult ∧
      narrowElo row.stored.whiteElo = .ok found.whiteElo ∧
      narrowElo row.stored.blackElo = .ok found.blackElo := by
  rw [matchesAt, List.mem_map]
  constructor
  · rintro ⟨o, ho, rfl⟩
    obtain ⟨game, hgame, hid, hreaches⟩ := (mem_occurrencesAt_gameRows h.replayed).mp ho
    obtain ⟨white, black, hwhite, hblack, hmatch⟩ := matchAt_gameRows h.replayed hgame hid
    obtain ⟨row, hrow, rfl⟩ := List.mem_map.mp hgame
    rw [replayedRows, hmatch]
    exact ⟨row, hrow, hid.symm, hreaches, rfl, hwhite, hblack⟩
  · rintro ⟨row, hrow, hid, hreaches, hresult, hwhite, hblack⟩
    have hgame := List.mem_map_of_mem (f := fun row : GameRow => (⟨row.id, row.readResult,
      row.stored.whiteElo, row.stored.blackElo, row.stored.moves⟩ : ReplayGame)) hrow
    refine ⟨⟨found.gameId, found.ply⟩, (mem_occurrencesAt_gameRows h.replayed).mpr
      ⟨_, hgame, hid.symm, hreaches⟩, ?_⟩
    obtain ⟨white, black, hwhite', hblack', hmatch⟩ :=
      matchAt_gameRows h.replayed hgame (o := ⟨found.gameId, found.ply⟩) hid.symm
    obtain rfl := Except.ok.inj (hwhite.symm.trans hwhite')
    obtain rfl := Except.ok.inj (hblack.symm.trans hblack')
    rw [replayedRows, hmatch, ← hresult]

theorem ValidPostings.toNat_ply (h : b.ValidPostings) {row : GameRow} (hrow : row ∈ b.tables.games)
    {hash : UInt64} {ply : ℕ} (hreaches : ReachesAt rules row.stored.moves hash ply) :
    (UInt16.ofNat ply).toNat = ply := by
  obtain ⟨call, hcall⟩ := h.replayed.rows _ (List.mem_map_of_mem hrow)
  obtain ⟨(hlength : row.stored.moves.length ≤ 65535), -⟩ := mem_replayRows hcall
  have hle := hreaches.1
  rw [UInt16.toNat_ofNat']
  exact Nat.mod_eq_of_lt (by omega)

theorem ValidPostings.mem_occurrencesAt (h : b.ValidPostings) {row : GameRow}
    (hrow : row ∈ b.tables.games) {hash : UInt64} {ply : ℕ}
    (hreaches : ReachesAt rules row.stored.moves hash ply) :
    (⟨UInt32.ofNat row.id, UInt16.ofNat ply⟩ : Occurrence) ∈ occurrencesAt b.replayedRows hash := by
  refine (mem_occurrencesAt_gameRows h.replayed).mpr ⟨_, List.mem_map_of_mem hrow, rfl, ?_⟩
  rw [h.toNat_ply hrow hreaches]
  exact hreaches

theorem ValidPostings.mem_gameIdsAt (h : b.ValidPostings) {row : GameRow}
    (hrow : row ∈ b.tables.games) {hash : UInt64} {ply : ℕ}
    (hreaches : ReachesAt rules row.stored.moves hash ply) :
    UInt32.ofNat row.id ∈ gameIdsAt b.replayedRows hash := by
  rw [gameIdsAt, List.mem_dedup]
  exact List.mem_map_of_mem (h.mem_occurrencesAt hrow hreaches)

end Bundle

end MotifChess.Db
