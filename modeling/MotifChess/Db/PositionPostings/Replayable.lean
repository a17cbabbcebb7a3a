/- GID: MotifChess/Db/PositionPostings/Replayable
   generality: implementation
   digest: Which games can be replayed, and that games which can are always built into a file. -/

import MotifChess.Db.PositionPostings.FileSizes
import MotifChess.Db.PositionPostings.GamePositions

set_option autoImplicit false
set_option relaxedAutoImplicit false

namespace MotifChess.Db

/-- The postings have room for the rating. -/
def FitsInt16 (elo : Option Int32) : Prop := ∀ value ∈ elo, -32768 ≤ value.toInt ∧ value.toInt ≤ 32767

instance (elo : Option Int32) : Decidable (FitsInt16 elo) := Option.decidableForallMem elo

@[simp] theorem fitsInt16_none : FitsInt16 none := by
  intro value hvalue
  cases hvalue

theorem FitsInt16.or {elo other : Option Int32} (h : FitsInt16 elo) (hother : FitsInt16 other) :
    FitsInt16 (elo.or other) := by
  cases elo with
  | none => exact hother
  | some value => exact h

theorem fitsInt16_toInt32 (elo : Option Int16) : FitsInt16 (elo.map Int16.toInt32) := by
  intro value hvalue
  obtain ⟨narrow, -, rfl⟩ := Option.map_eq_some_iff.mp hvalue
  rw [Int16.toInt_toInt32]
  have hlow := narrow.le_toInt
  have hhigh := narrow.toInt_lt
  omega

theorem narrowElo_ok_iff {elo : Option Int32} :
    (∃ narrowed, narrowElo elo = .ok narrowed) ↔ FitsInt16 elo := by
  cases elo with
  | none => exact ⟨fun _ => fitsInt16_none, fun _ => ⟨none, rfl⟩⟩
  | some value =>
    have hfits : FitsInt16 (some value) ↔ ¬(value < -32768 ∨ 32767 < value) := by
      rw [not_or, Int32.not_lt, Int32.not_lt, Int32.le_iff_toInt_le, Int32.le_iff_toInt_le]
      constructor
      · intro h
        exact h value rfl
      · rintro h other hother
        obtain rfl := Option.some.inj hother
        exact h
    unfold narrowElo
    dsimp only
    split_ifs with hrange
    · rw [Bool.or_eq_true, decide_eq_true_eq, decide_eq_true_eq] at hrange
      refine ⟨fun ⟨_, h⟩ => ?_, fun h => absurd hrange (hfits.mp h)⟩
      cases h
    · rw [Bool.or_eq_true, decide_eq_true_eq, decide_eq_true_eq] at hrange
      exact ⟨fun _ => hfits.mpr hrange, fun _ => ⟨_, rfl⟩⟩

namespace PositionPostings

open OpeningTreeIndex

/-- The ratings fit the postings, and there is a ply for every move. -/
structure Replayable (whiteElo blackElo : Option Int32) (moves : List UInt16) : Prop where
  whiteElo : FitsInt16 whiteElo
  blackElo : FitsInt16 blackElo
  moves : moves.length ≤ 65535

/-- Every game has an id of its own, in the range of the ids that the postings store. -/
structure Numbered (games : List ReplayGame) : Prop where
  nodup : (games.map ReplayGame.id).Nodup
  range : ∀ game ∈ games, 0 < game.id ∧ game.id < 2 ^ 32

variable {rules : Chess.Rules} {games : List ReplayGame} {threshold : ℕ}

private theorem replayRows_ok_iff {game : ReplayGame} : (∃ call, replayRows rules game = .ok call) ↔
    Replayable game.whiteElo game.blackElo game.moves := by
  constructor
  · rintro ⟨call, hcall⟩
    obtain ⟨hlength, white, black, hwhite, hblack, -⟩ := mem_replayRows hcall
    exact ⟨narrowElo_ok_iff.mp ⟨white, hwhite⟩, narrowElo_ok_iff.mp ⟨black, hblack⟩, hlength⟩
  · rintro ⟨hwhite, hblack, hlength⟩
    obtain ⟨white, hwhite⟩ := narrowElo_ok_iff.mpr hwhite
    obtain ⟨black, hblack⟩ := narrowElo_ok_iff.mpr hblack
    rw [replayRows, hwhite, ok_bind, hblack, ok_bind, if_neg (Nat.not_lt.mpr hlength)]
    exact ⟨_, rfl⟩

private theorem Numbered.ofNat_inj (h : Numbered games) {game other : ReplayGame} (hgame : game ∈ games)
    (hother : other ∈ games) (hid : UInt32.ofNat game.id = UInt32.ofNat other.id) : game = other := by
  have hvalue := congrArg UInt32.toNat hid
  rw [UInt32.toNat_ofNat', UInt32.toNat_ofNat', Nat.mod_eq_of_lt (h.range game hgame).2,
    Nat.mod_eq_of_lt (h.range other hother).2] at hvalue
  exact List.inj_on_of_nodup_map h.nodup hgame hother hvalue

theorem Numbered.replayed (h : Numbered games)
    (hgames : ∀ game ∈ games, Replayable game.whiteElo game.blackElo game.moves) :
    Replayed rules games where
  rows := fun game hgame => replayRows_ok_iff.mpr (hgames game hgame)
  ids := by
    have hnodup : games.Nodup := List.Nodup.of_map _ h.nodup
    exact hnodup.map_on fun game hgame other hother => h.ofNat_inj hgame hother

private theorem resultCode_range (result : String) : -1 ≤ resultCode result ∧ resultCode result ≤ 1 := by
  unfold resultCode
  split_ifs <;> omega

theorem Numbered.acceptable (hnumbered : Numbered games) (h : Replayed rules games) :
    Acceptable (gameRows rules games) := by
  have hrow : ∀ row ∈ gameRows rules games, ∃ game ∈ games, row.gameId = UInt32.ofNat game.id ∧
      ∃ white black, narrowElo game.whiteElo = .ok white ∧ narrowElo game.blackElo = .ok black ∧
        GameMetadata.ofRow row = ⟨resultCode game.result, white, black⟩ := by
    intro row hrow
    obtain ⟨game, hgame, call, hcall, hmem⟩ := (mem_gameRows h.rows).mp hrow
    obtain ⟨-, white, black, hwhite, hblack, hmetadata, -⟩ := mem_replayRows hcall
    exact ⟨game, hgame, (replayRows_sound hcall).2 row hmem, white, black, hwhite,
      hblack, hmetadata row hmem⟩
  constructor
  · intro row hmem hzero
    obtain ⟨game, hgame, hid, -⟩ := hrow row hmem
    have hvalue := congrArg UInt32.toNat (hid.symm.trans hzero)
    obtain ⟨hpos, hlt⟩ := hnumbered.range game hgame
    rw [UInt32.toNat_ofNat', Nat.mod_eq_of_lt hlt] at hvalue
    exact hpos.ne' hvalue
  · intro row hmem
    obtain ⟨game, -, -, white, black, -, -, hmetadata⟩ := hrow row hmem
    rw [show row.result = resultCode game.result from congrArg GameMetadata.result hmetadata]
    exact resultCode_range game.result
  · intro row hmem row' hmem' hsame
    obtain ⟨game, hgame, hid, white, black, hwhite, hblack, hmetadata⟩ := hrow row hmem
    obtain ⟨game', hgame', hid', white', black', hwhite', hblack', hmetadata'⟩ := hrow row' hmem'
    obtain rfl := hnumbered.ofNat_inj hgame hgame' (hid.symm.trans (hsame.trans hid'))
    obtain rfl := Except.ok.inj (hwhite.symm.trans hwhite')
    obtain rfl := Except.ok.inj (hblack.symm.trans hblack')
    rw [hmetadata, hmetadata']

private theorem gameRows_cons {game : ReplayGame} {call : List PositionRow}
    (h : replayRows rules game = .ok call) :
    gameRows rules (game :: games) = call ++ gameRows rules games := by
  rw [gameRows, List.flatMap_cons, h]
  rfl

private theorem BuildInv.foldlM_appendGame_ok {rows : List PositionRow} {b : Builder} (h : BuildInv rows b)
    (hgames : ∀ game ∈ games, ∃ call, replayRows rules game = .ok call)
    (hacc : Acceptable (rows ++ gameRows rules games)) :
    ∃ b', games.foldlM (appendGame rules) b = .ok b' ∧ BuildInv (rows ++ gameRows rules games) b' := by
  induction games generalizing rows b with
  | nil => exact ⟨b, rfl, by simpa [gameRows] using h⟩
  | cons game games ih =>
    obtain ⟨call, hcall⟩ := hgames game List.mem_cons_self
    rw [gameRows_cons hcall, ← List.append_assoc] at hacc ⊢
    obtain ⟨middle, happend, hmiddle⟩ := h.append (hacc.mono (List.subset_append_left _ _))
    obtain ⟨b', hrest, hinv⟩ :=
      ih hmiddle (fun other hother => hgames other (List.mem_cons_of_mem _ hother)) hacc
    refine ⟨b', ?_, hinv⟩
    rw [List.foldlM_cons, appendGame, hcall, ok_bind, happend]
    exact hrest

private theorem gameCountOf_gameRows (h : Replayed rules games) :
    gameCountOf (gameRows rules games) = games.length := by
  have hperm : ((gameRows rules games).map PositionRow.gameId).dedup.Perm
      (games.map fun game => UInt32.ofNat game.id) := by
    refine (List.perm_ext_iff_of_nodup (List.nodup_dedup _) h.ids).mpr fun id => ?_
    rw [List.mem_dedup, mem_map_gameId h.rows]
  rw [gameCountOf, hperm.length_eq, List.length_map]

/-- The counts of the occurrences fit their type, and the files of the build their streams. -/
structure BuildFits (rules : Chess.Rules) (threshold : ℕ) (games : List ReplayGame) : Prop where
  occurrences : OccurrencesFit (gameRows rules games)
  streams : ∀ b, games.foldlM (appendGame rules) (Builder.new threshold) = .ok b → b.streamsFit = true

private theorem length_rowsAfter (row : PositionRow) (board : rules.Board) (ply : ℕ) (moves : List UInt16) :
    (rowsAfter rules row board ply moves).length = moves.length := by
  induction moves generalizing board ply with
  | nil => rfl
  | cons move moves ih => rw [rowsAfter, List.length_cons, ih, List.length_cons]

private theorem length_replayRows {game : ReplayGame} {call : List PositionRow}
    (h : replayRows rules game = .ok call) : call.length ≤ 2 ^ 16 := by
  obtain ⟨whiteElo, -, h⟩ := bind_eq_ok.mp h
  obtain ⟨blackElo, -, h⟩ := bind_eq_ok.mp h
  split_ifs at h with hlong
  obtain rfl := Except.ok.inj h
  rw [List.length_cons, length_rowsAfter]
  omega

private theorem length_gameRows_le (h : ∀ game ∈ games, ∃ call, replayRows rules game = .ok call) :
    (gameRows rules games).length ≤ games.length * 2 ^ 16 := by
  induction games with
  | nil => exact Nat.zero_le _
  | cons game games ih =>
    obtain ⟨call, hcall⟩ := h game List.mem_cons_self
    have hhead := length_replayRows hcall
    have htail := ih fun other hother => h other (List.mem_cons_of_mem game hother)
    rw [gameRows_cons hcall, List.length_append, List.length_cons]
    omega

theorem Numbered.buildFits (hthreshold : 1 ≤ threshold) (h : Numbered games)
    (hgames : ∀ game ∈ games, Replayable game.whiteElo game.blackElo game.moves)
    (hoccurrences : OccurrencesFit (gameRows rules games)) : BuildFits rules threshold games where
  occurrences := hoccurrences
  streams := by
    intro b hb
    have hreplayed : Replayed rules games := h.replayed hgames
    have hacc := h.acceptable hreplayed
    have hlength := length_lt_of_ids (by decide) h.nodup h.range
    have hrows := length_gameRows_le hreplayed.rows
    obtain ⟨-, hinv⟩ := (BuildInv.new hthreshold).of_foldlM_appendGame rules
      (hacc.mono (List.nil_subset _)) hb
    rw [List.nil_append] at hinv
    exact streamsFit_iff.mpr (hinv.streamsFit hacc (by omega))

theorem build_ok_iff (hthreshold : 1 ≤ threshold) (hnumbered : Numbered games) :
    (∃ file, build rules threshold games = .ok file) ↔
      (∀ game ∈ games, Replayable game.whiteElo game.blackElo game.moves) ∧
        BuildFits rules threshold games := by
  constructor
  · rintro ⟨file, hfile⟩
    have hreplayed := replayed_of_build hthreshold hfile
    obtain ⟨-, -, -, -, hoccurrences⟩ := build_answers_fit hthreshold hfile
    refine ⟨fun game hgame => replayRows_ok_iff.mp (hreplayed.rows game hgame), hoccurrences, ?_⟩
    intro b hb
    rw [build, hb, ok_bind] at hfile
    split_ifs at hfile with hcount hstreams
    rwa [Bool.not_eq_true, Bool.not_eq_false'] at hstreams
  · rintro ⟨hgames, hoccurrences, hstreams⟩
    have hreplayed : Replayed rules games := hnumbered.replayed hgames
    have hacc := hnumbered.acceptable hreplayed
    obtain ⟨b, hb, hinv⟩ := (BuildInv.new hthreshold).foldlM_appendGame_ok hreplayed.rows
      (by rwa [List.nil_append])
    rw [List.nil_append] at hinv
    obtain ⟨runs, hruns⟩ := hinv.inv
    have hcount : games.length = b.indexedGameCount := by
      rw [hinv.count, hruns.metadata.length_eq, gameCountOf_gameRows hreplayed]
    obtain ⟨file, reader, hfile, -⟩ :=
      (hinv.finalize_eq hacc (streamsFit_iff.mp (hstreams b hb))).1 hoccurrences
    refine ⟨file, ?_⟩
    rw [build, hb, ok_bind, if_neg (not_ne_iff.mpr hcount), hstreams b hb]
    exact hfile

end PositionPostings

end MotifChess.Db
