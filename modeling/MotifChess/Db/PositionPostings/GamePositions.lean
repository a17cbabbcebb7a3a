/- GID: MotifChess/Db/PositionPostings/GamePositions
   generality: implementation
   digest: What the positions of replayed games say about the games themselves. -/

import MotifChess.Db.OpeningTreeIndex.PostingCounts

set_option autoImplicit false
set_option relaxedAutoImplicit false

namespace MotifChess.Db.PositionPostings

open OpeningTreeIndex

section Positions

variable (rules : Chess.Rules)

/-- After so many plies a game is in a position. -/
def ReachesAt (moves : List UInt16) (hash : UInt64) (ply : ℕ) : Prop :=
  ply ≤ moves.length ∧ rules.hash (rules.play rules.start (moves.take ply)) = hash

instance (moves : List UInt16) (hash : UInt64) (ply : ℕ) : Decidable (ReachesAt rules moves hash ply) :=
  inferInstanceAs (Decidable (_ ∧ _))

variable {rules} {games : List ReplayGame}

private theorem mem_rowsAfter {row r : PositionRow} {board : rules.Board} {ply : ℕ} {moves : List UInt16} :
    r ∈ rowsAfter rules row board ply moves ↔ ∃ k move, moves[k]? = some move ∧
      r = { row with
        zobristHash := rules.hash (rules.play board (moves.take (k + 1)))
        ply := UInt16.ofNat (ply + k)
        encodedMove := move } := by
  induction moves generalizing board ply with
  | nil => simp [rowsAfter]
  | cons move moves ih =>
    rw [rowsAfter, List.mem_cons, ih]
    constructor
    · rintro (rfl | ⟨k, other, hother, rfl⟩)
      · exact ⟨0, move, rfl, rfl⟩
      · refine ⟨k + 1, other, hother, ?_⟩
        rw [show ply + 1 + k = ply + (k + 1) by omega]
        rfl
    · rintro ⟨k, other, hother, rfl⟩
      cases k with
      | zero =>
        obtain rfl := Option.some.inj hother
        exact .inl rfl
      | succ k =>
        refine .inr ⟨k, other, hother, ?_⟩
        rw [show ply + 1 + k = ply + (k + 1) by omega]
        rfl

/-- The rows of a game: each position with its ply, under the result and ratings of the game. -/
theorem mem_replayRows {game : ReplayGame} {call : List PositionRow}
    (h : replayRows rules game = .ok call) :
    game.moves.length ≤ 65535 ∧ ∃ whiteElo blackElo, narrowElo game.whiteElo = .ok whiteElo ∧
      narrowElo game.blackElo = .ok blackElo ∧
      (∀ r ∈ call, GameMetadata.ofRow r = ⟨resultCode game.result, whiteElo, blackElo⟩) ∧
      ∀ hash ply, (∃ r ∈ call, r.zobristHash = hash ∧ r.ply = ply) ↔
        ReachesAt rules game.moves hash ply.toNat := by
  obtain ⟨whiteElo, hwhite, h⟩ := bind_eq_ok.mp h
  obtain ⟨blackElo, hblack, h⟩ := bind_eq_ok.mp h
  split_ifs at h with hlong
  obtain rfl := Except.ok.inj h
  have hlength : game.moves.length ≤ 65535 := by omega
  refine ⟨hlength, whiteElo, blackElo, hwhite, hblack, ?_, ?_⟩
  · intro r hr
    rcases List.mem_cons.mp hr with rfl | hr
    · rfl
    · obtain ⟨k, move, -, rfl⟩ := mem_rowsAfter.mp hr
      rfl
  · intro hash ply
    constructor
    · rintro ⟨r, hr, rfl, rfl⟩
      rcases List.mem_cons.mp hr with rfl | hr
      · exact ⟨Nat.zero_le _, rfl⟩
      · obtain ⟨k, move, hk, rfl⟩ := mem_rowsAfter.mp hr
        obtain ⟨hlt, -⟩ := List.getElem?_eq_some_iff.mp hk
        have hply : (UInt16.ofNat (1 + k)).toNat = k + 1 := by
          rw [UInt16.toNat_ofNat']
          omega
        refine ⟨?_, ?_⟩
        · rw [hply]
          omega
        · rw [hply]
    · rintro ⟨hle, rfl⟩
      cases hply : ply.toNat with
      | zero =>
        refine ⟨_, List.mem_cons_self, rfl, ?_⟩
        exact UInt16.toNat_inj.mp hply.symm
      | succ k =>
        have hlt : k < game.moves.length := by omega
        refine ⟨_, List.mem_cons_of_mem _ (mem_rowsAfter.mpr ⟨k, game.moves[k],
          List.getElem?_eq_getElem hlt, rfl⟩), rfl, ?_⟩
        apply UInt16.toNat_inj.mp
        rw [UInt16.toNat_ofNat', hply]
        omega

end Positions

section Games

variable {rules : Chess.Rules} {games : List ReplayGame}

/-- The occurrences of a position are the games that reach it, with the plies at which they do. -/
theorem mem_occurrencesAt_gameRows (h : Replayed rules games) {hash : UInt64} {o : Occurrence} :
    o ∈ occurrencesAt (gameRows rules games) hash ↔ ∃ game ∈ games, UInt32.ofNat game.id = o.id ∧
      ReachesAt rules game.moves hash o.ply.toNat := by
  rw [mem_occurrencesAt]
  constructor
  · rintro ⟨row, hrow, hhash, rfl⟩
    obtain ⟨game, hgame, call, hcall, hmem⟩ := (mem_gameRows h.rows).mp hrow
    obtain ⟨-, _, _, -, -, -, hreaches⟩ := mem_replayRows hcall
    exact ⟨game, hgame, ((replayRows_sound hcall).2 row hmem).symm,
      (hreaches hash row.ply).mp ⟨row, hmem, hhash, rfl⟩⟩
  · rintro ⟨game, hgame, hid, hreaches⟩
    obtain ⟨call, hcall⟩ := h.rows game hgame
    obtain ⟨-, _, _, -, -, -, hrows⟩ := mem_replayRows hcall
    obtain ⟨row, hrow, hhash, hply⟩ := (hrows hash o.ply).mpr hreaches
    refine ⟨row, (mem_gameRows h.rows).mpr ⟨game, hgame, call, hcall, hrow⟩, hhash, ?_⟩
    rw [occurrenceOf, (replayRows_sound hcall).2 row hrow, hid, hply]

/-- An occurrence is answered with the result and the ratings of its game. -/
theorem matchAt_gameRows (h : Replayed rules games) {game : ReplayGame} (hgame : game ∈ games)
    {o : Occurrence} (hid : UInt32.ofNat game.id = o.id) : ∃ whiteElo blackElo,
      narrowElo game.whiteElo = .ok whiteElo ∧ narrowElo game.blackElo = .ok blackElo ∧
      matchAt (gameRows rules games) o =
        ⟨o.id, o.ply, resultCode game.result, whiteElo, blackElo⟩ := by
  obtain ⟨call, hcall⟩ := h.rows game hgame
  obtain ⟨-, whiteElo, blackElo, hwhite, hblack, hmetadata, hreaches⟩ := mem_replayRows hcall
  refine ⟨whiteElo, blackElo, hwhite, hblack, ?_⟩
  have hfound : ∃ row, (gameRows rules games).find? (fun row => decide (row.gameId = o.id)) =
      some row := by
    obtain ⟨start, hstart, -⟩ := (hreaches (rules.hash rules.start) 0).mpr ⟨Nat.zero_le _, rfl⟩
    rw [← Option.isSome_iff_exists, List.find?_isSome]
    refine ⟨start, (mem_gameRows h.rows).mpr ⟨game, hgame, call, hcall, hstart⟩, ?_⟩
    rw [decide_eq_true_eq, ← hid]
    exact (replayRows_sound hcall).2 start hstart
  obtain ⟨row, hrow⟩ := hfound
  obtain ⟨other, hother, otherCall, hotherCall, hmem⟩ :=
    (mem_gameRows h.rows).mp (List.mem_of_find?_eq_some hrow)
  have hrowId : row.gameId = o.id := by simpa using List.find?_some hrow
  have hsame : other = game := by
    refine List.inj_on_of_nodup_map h.ids hother hgame ?_
    rw [← (replayRows_sound hotherCall).2 row hmem, hrowId, hid]
  subst hsame
  obtain rfl := Except.ok.inj (hcall.symm.trans hotherCall)
  rw [matchAt, metadataAt, hrow, Option.map_some, Option.getD_some, hmetadata row hmem]

end Games

end MotifChess.Db.PositionPostings
