/- GID: MotifChess/Db/Bundle/OpeningAgreement
   generality: implementation
   digest: Opening queries tell the same rows with a tree, without one and of all games by name. -/

import MotifChess.Codec.Binary64
import MotifChess.Db.Bundle.PostingStatistics
import Mathlib.Algebra.Order.BigOperators.Group.List

set_option autoImplicit false
set_option relaxedAutoImplicit false

namespace MotifChess.Db

open MotifChess.Order OpeningTreeIndex PositionPostings
open Codec.Binary64 (ExactHalves)

section Rows

variable {rules : Chess.Rules} {games : List ReplayGame} {hash : UInt64}

private theorem playings_filter {maxRootPly : ℕ} {key : EdgeKey} {p : ReplayGame → Bool}
    (h : ∀ playing ∈ playings rules maxRootPly games key, p playing.1 = true) :
    playings rules maxRootPly (games.filter p) key = playings rules maxRootPly games key := by
  rw [playings, List.filterMap_filter]
  refine List.filterMap_congr fun game hgame => ?_
  cases hply : leastPly (coveredEdges rules maxRootPly game) key with
  | none => simp
  | some ply => rw [if_pos (h (game, ply) (mem_playings.mpr ⟨hgame, hply⟩))]

theorem referenceRows_filter {counted : List ReplayGame} {p : ReplayGame → Bool}
    (h : ∀ key : EdgeKey, key.rootHash = hash.toNat →
      ∀ playing ∈ playings rules uint16Max games key, p playing.1 = true) :
    referenceRows rules (games.filter p) counted hash = referenceRows rules games counted hash := by
  rw [referenceRows, referenceRows,
    referenceEdges_congr fun key hroot => playings_filter (h key hroot)]
  refine List.map_congr_left fun key hkey => ?_
  have hroot := (mem_referenceEdges_iff.mp hkey).2
  rw [referenceRow, referenceRow, referenceAgg_congr (playings_filter (h key hroot))]

theorem visits_of_mem_playings {maxRootPly : ℕ} {key : EdgeKey} {playing : ReplayGame × ℕ}
    (h : playing ∈ playings rules maxRootPly games key) :
    key.rootHash ∈ gameVisits rules playing.1 := by
  obtain ⟨-, hply⟩ := mem_playings.mp h
  have hvisit := root_mem_rootsWithin (List.mem_map_of_mem (f := Prod.fst) (mem_of_leastPly hply))
  rw [mem_gameVisits]
  exact List.mem_of_mem_take hvisit

theorem id_mem_gameIdsAt (h : Replayed rules games) {game : ReplayGame} (hgame : game ∈ games) :
    UInt32.ofNat game.id ∈ gameIdsAt (gameRows rules games) hash ↔
      hash.toNat ∈ gameVisits rules game := by
  obtain ⟨call, hcall⟩ := h.rows _ hgame
  rw [mem_gameIdsAt, ← mem_rows_iff hcall]
  constructor
  · rintro ⟨row, hrow, hhash, hid⟩
    obtain ⟨other, hother, call', hcall', hmem⟩ := (mem_gameRows h.rows).mp hrow
    obtain rfl := h.eq_of_id hother hgame (((replayRows_sound hcall').2 row hmem).symm.trans hid)
    obtain rfl := Except.ok.inj (hcall'.symm.trans hcall)
    exact ⟨row, hmem, hhash⟩
  · rintro ⟨row, hrow, hhash⟩
    exact ⟨row, (mem_gameRows h.rows).mpr ⟨_, hgame, call, hcall, hrow⟩, hhash,
      (replayRows_sound hcall).2 row hrow⟩

end Rows

section Halves

private theorem exists_half_sum {l : List ReplayGame} {f : ReplayGame → ℚ} {bound : ℤ}
    (h : ∀ game ∈ l, ∃ n : ℤ, f game = n / 2 ∧ |n| ≤ bound) :
    ∃ n : ℤ, (l.map f).sum = n / 2 ∧ |n| ≤ l.length * bound := by
  induction l with
  | nil => exact ⟨0, by simp, by simp⟩
  | cons game l ih =>
    obtain ⟨n, hn, hle⟩ := h game List.mem_cons_self
    obtain ⟨m, hm, hle'⟩ := ih fun g hg => h g (List.mem_cons_of_mem game hg)
    refine ⟨n + m, ?_, ?_⟩
    · rw [List.map_cons, List.sum_cons, hn, hm]
      push_cast
      ring
    · rw [List.length_cons, Nat.cast_succ, add_mul, one_mul, add_comm _ bound]
      exact (abs_add_le n m).trans (add_le_add hle hle')

/-- Elos that are absent or in the range of the program. -/
def ReplayGame.ElosWithin (game : ReplayGame) : Prop :=
  (∀ elo ∈ game.whiteElo, 0 ≤ elo.toInt ∧ elo.toInt ≤ 32767) ∧
    ∀ elo ∈ game.blackElo, 0 ≤ elo.toInt ∧ elo.toInt ≤ 32767

private theorem exists_half_average {game : ReplayGame} (h : game.ElosWithin) :
    ∃ n : ℤ, (averageEloOf game).getD 0 = n / 2 ∧ 0 ≤ n ∧ n ≤ 65534 ∧
      (averageEloOf game).elim 0 (fun average => (mapResult game.result : ℚ) * average) =
        ((mapResult game.result * n : ℤ) : ℚ) / 2 := by
  obtain ⟨id, result, whiteElo, blackElo, moves⟩ := game
  obtain ⟨hwhite, hblack⟩ := h
  cases whiteElo with
  | none => exact ⟨0, by simp [averageEloOf], le_rfl, by decide, by simp [averageEloOf]⟩
  | some white =>
    cases blackElo with
    | none => exact ⟨0, by simp [averageEloOf], le_rfl, by decide, by simp [averageEloOf]⟩
    | some black =>
      have hw := hwhite white rfl
      have hb := hblack black rfl
      refine ⟨white.toInt + black.toInt, ?_, by omega, by omega, ?_⟩
      · simp [averageEloOf]
      · simp only [averageEloOf, Option.bind_eq_bind, Option.bind_some, Option.pure_def,
          Option.elim_some]
        push_cast
        ring

private theorem abs_mapResult_le (result : String) : |mapResult result| ≤ 1 := by
  rw [mapResult, resultCode]
  split_ifs <;> decide

private theorem exists_half_statisticsOf {played : List ReplayGame} (hlength : played.length < 2 ^ 32)
    (h : ∀ game ∈ played, game.ElosWithin) (rootPly : ℕ) :
    (∃ n : ℤ, (statisticsOf played rootPly).eloWeightSum = n / 2 ∧ |n| < 2 ^ 53) ∧
      ∃ n : ℤ, (statisticsOf played rootPly).weightedContribSum = n / 2 ∧ |n| < 2 ^ 53 := by
  have hweights : ∀ game ∈ played, ∃ n : ℤ, (averageEloOf game).getD 0 = n / 2 ∧ |n| ≤ 65534 := by
    intro game hgame
    obtain ⟨n, hn, hlow, hhigh, -⟩ := exists_half_average (h game hgame)
    exact ⟨n, hn, abs_le.mpr ⟨by omega, hhigh⟩⟩
  have hcontributions : ∀ game ∈ played, ∃ n : ℤ, (averageEloOf game).elim 0
      (fun average => (mapResult game.result : ℚ) * average) = n / 2 ∧ |n| ≤ 65534 := by
    intro game hgame
    obtain ⟨n, -, hlow, hhigh, hn⟩ := exists_half_average (h game hgame)
    refine ⟨_, hn, ?_⟩
    rw [abs_mul, abs_of_nonneg hlow]
    exact (mul_le_mul_of_nonneg_right (abs_mapResult_le game.result) hlow).trans (by omega)
  have hbound : (played.length : ℤ) * 65534 < 2 ^ 53 := by omega
  obtain ⟨n, hn, hle⟩ := exists_half_sum hweights
  obtain ⟨m, hm, hle'⟩ := exists_half_sum hcontributions
  exact ⟨⟨n, hn, hle.trans_lt hbound⟩, ⟨m, hm, hle'.trans_lt hbound⟩⟩

private theorem eloWeightSum_nonneg {played : List ReplayGame} (h : ∀ game ∈ played, game.ElosWithin)
    (rootPly : ℕ) : 0 ≤ (statisticsOf played rootPly).eloWeightSum := by
  refine List.sum_nonneg fun weight hweight => ?_
  obtain ⟨game, hgame, rfl⟩ := List.mem_map.mp hweight
  obtain ⟨n, hn, hlow, -, -⟩ := exists_half_average (h game hgame)
  rw [hn]
  exact div_nonneg (Int.cast_nonneg hlow) zero_le_two

end Halves

section Tree

variable {encodeF64 : ℚ → ℕ} {decodeF64 : ℕ → ℚ}

private theorem cast_sumBits {sum : ℤ} (hlow : 0 ≤ sum) (hhigh : sum < 2 ^ 63) : (sumBits sum : ℤ) = sum := by
  rw [sumBits_eq_toNat hlow hhigh, Int.toNat_of_nonneg hlow]

private theorem exactRow_edgeContinuation (hcodec : ExactHalves encodeF64 decodeF64)
    {played : List ReplayGame} (hlength : played.length < 2 ^ 32)
    (h : ∀ game ∈ played, game.ElosWithin) (rootPly : ℕ) (childCount : ℕ → ℕ) (key : EdgeKey) :
    (edgeContinuation encodeF64 childCount (key, statisticsOf played rootPly)).exactRow decodeF64 =
      (ExactEdgeAggregate.ofAgg (statisticsOf played rootPly)).row (edgeOf key)
        (childCount key.childHash) := by
  obtain ⟨⟨n, hweights, hn⟩, ⟨m, hcontributions, hm⟩⟩ := exists_half_statisticsOf hlength h rootPly
  have hnonneg := eloWeightSum_nonneg h rootPly
  have hwhite : 0 ≤ (statisticsOf played rootPly).whiteEloSum ∧
      (statisticsOf played rootPly).whiteEloSum ≤ played.length * 32767 :=
    sum_elos fun game hgame => (h game hgame).1
  have hblack : 0 ≤ (statisticsOf played rootPly).blackEloSum ∧
      (statisticsOf played rootPly).blackEloSum ≤ played.length * 32767 :=
    sum_elos fun game hgame => (h game hgame).2
  generalize statisticsOf played rootPly = agg at *
  have hpow : (256 : ℕ) ^ 8 = 2 ^ 64 := by norm_num
  have hscore : (if 0 < agg.eloWeightSum then
      some (agg.weightedContribSum / agg.eloWeightSum) else none) =
      if agg.eloWeightSum = 0 then none else some (agg.weightedContribSum / agg.eloWeightSum) := by
    by_cases hzero : agg.eloWeightSum = 0
    · rw [if_neg hzero.le.not_gt, if_pos hzero]
    · rw [if_pos (lt_of_le_of_ne hnonneg (Ne.symm hzero)), if_neg hzero]
  unfold edgeContinuation Continuation.exactRow ExactEdgeAggregate.row ExactEdgeAggregate.ofAgg
  dsimp only
  rw [hpow, hweights, hcodec n hn, hcontributions, hcodec m hm, ← hweights, ← hcontributions, hscore,
    cast_sumBits hwhite.1 (by omega), cast_sumBits hblack.1 (by omega)]
  simp only [UInt32.ofNat_toNat]
  rfl

variable {rules : Chess.Rules} {games : List ReplayGame}

/-- Postings that were built of the games, with any buffer, and opened. -/
def PostingsOf (rules : Chess.Rules) (games : List ReplayGame) (reader : Reader) (file : List UInt8) :
    Prop :=
  ∃ threshold, 1 ≤ threshold ∧ PositionPostings.build rules threshold games = .ok file ∧
    openArtifact file = .ok reader

/-- A tree that was built of the games, with any options, and opened. -/
def TreeOf (rules : Chess.Rules) (encodeF64 : ℚ → ℕ) (games : List ReplayGame) (tree : Index)
    (file : List UInt8) : Prop :=
  ∃ order opts source, 1 ≤ opts.spillThreshold ∧ CountSource rules games source ∧
    OpeningTreeIndex.build rules encodeF64 order opts source games = .ok file ∧
    openIndex rules file = .ok tree

theorem PostingsOf.answers {reader : Reader} {file : List UInt8} (h : PostingsOf rules games reader file) :
    Replayed rules games ∧ games.length < 2 ^ 32 ∧ Answers reader file (gameRows rules games) := by
  obtain ⟨threshold, hthreshold, hbuild, hopen⟩ := h
  obtain ⟨reader', hopen', hanswers, -⟩ := build_answers_of_ok rules hthreshold hbuild
  obtain rfl := Except.ok.inj (hopen'.symm.trans hopen)
  exact ⟨replayed_of_build hthreshold hbuild, length_lt_of_build hthreshold hbuild, hanswers⟩

private theorem TreeOf.answersFrom {tree : Index} {file : List UInt8}
    (h : TreeOf rules encodeF64 games tree file) (hids : ∀ game ∈ games, game.id < 2 ^ 32) :
    ∃ maxRootPly, tree.AnswersFrom rules encodeF64 maxRootPly games file := by
  obtain ⟨order, opts, source, hthreshold, hsource, hbuild, hopen⟩ := h
  rw [build_eq rules encodeF64 order hthreshold hsource] at hbuild
  rcases openIndex_treeFile hids hbuild with ⟨tree', hopen', hanswers, -⟩ | ⟨hrefused, -⟩
  · obtain rfl := Except.ok.inj (hopen'.symm.trans hopen)
    exact ⟨_, hanswers⟩
  · rw [hrefused] at hopen
    cases hopen

/-- The rows that the records of a tree become, where its cap hides nothing of the position. -/
def treeRows (rules : Chess.Rules) (encodeF64 : ℚ → ℕ) (decodeF64 : ℕ → ℚ) (games : List ReplayGame)
    (hash : UInt64) : List ExactStatRow :=
  (recordsAt rules encodeF64 uint16Max games hash.toNat).map (Continuation.exactRow decodeF64)

private theorem exactRows_eq {tree : Index} {maxRootPly : UInt16} {file : List UInt8}
    (hanswers : tree.AnswersFrom rules encodeF64 maxRootPly games file)
    (hmoves : ∀ game ∈ games, game.moves.length ≤ 2 ^ 16) {hash : UInt64}
    (huncapped : Uncapped rules maxRootPly.toNat games hash.toNat) :
    tree.exactRows decodeF64 (some file) hash =
      .ok (treeRows rules encodeF64 decodeF64 games hash) := by
  have hplayings : ∀ key : EdgeKey, key.rootHash = hash.toNat →
      playings rules maxRootPly.toNat games key = playings rules uint16Max games key :=
    fun key hroot => huncapped.playings_eq (uncapped_uint16Max hmoves) hroot
  have hrecords : recordsAt rules encodeF64 maxRootPly.toNat games hash.toNat =
      recordsAt rules encodeF64 uint16Max games hash.toNat := by
    rw [recordsAt, recordsAt, referenceEdges_congr hplayings]
    refine List.map_congr_left fun key hkey => ?_
    rw [referenceAgg_congr (hplayings key (mem_referenceEdges_iff.mp hkey).2)]
  rw [Index.exactRows, hanswers.records, hrecords]
  rfl

private theorem treeRows_eq (hcodec : ExactHalves encodeF64 decodeF64) (hlength : games.length < 2 ^ 32)
    (helos : ∀ game ∈ games, game.ElosWithin) (hash : UInt64) :
    treeRows rules encodeF64 decodeF64 games hash = referenceRows rules games games hash := by
  rw [treeRows, recordsAt, List.map_map, referenceRows]
  refine List.map_congr_left fun key hkey => ?_
  have htakers : (takers rules uint16Max games key).length < 2 ^ 32 :=
    (List.length_filter_le _ _).trans_lt hlength
  rw [Function.comp_apply, referenceRow, referenceAgg,
    exactRow_edgeContinuation hcodec htakers fun game hgame => helos game (takers_subset hgame)]

end Tree

section Queries

variable {rules : Chess.Rules} {encodeF64 : ℚ → ℕ} {decodeF64 : ℕ → ℚ}
  {buildTree : List ReplayGame → Reader → List UInt8 → Result (List UInt8)}
  {v : View (.ofRules rules Index buildTree (openIndex rules) Index.sourceGameCount)}
  {reader : Reader} {file : List UInt8} {hash : UInt64}

private theorem openingStatsFromPostings_eq (h : PostingsOf rules v.tables.replayGames reader file)
    (hfit : v.tables.IdsFit) : v.openingStatsFromPostings reader file hash =
      .ok (referenceRows rules v.tables.replayGames v.tables.replayGames hash) := by
  obtain ⟨hreplayed, hlength, hanswers⟩ := h.answers
  rw [View.openingStatsFromPostings, hanswers.distinctGameIds, ok_bind,
    postingsOpeningStats_eq hreplayed hfit hlength hanswers, if_pos rfl,
    allowedGames, referenceRows_filter fun key hroot playing hplaying => ?_]
  have hvisit := visits_of_mem_playings hplaying
  rw [hroot] at hvisit
  exact decide_eq_true ((id_mem_gameIdsAt hreplayed (mem_playings.mp hplaying).1).mpr hvisit)

private theorem exists_occurrence {games : List ReplayGame} (h : Replayed rules games) {game : ReplayGame}
    (hgame : game ∈ games) {key : EdgeKey} {ply : ℕ} (hroot : key.rootHash = hash.toNat)
    (hplayed : (key, ply) ∈ playedFrom rules rules.start 0 game.moves) :
    ∃ o ∈ occurrencesAt (gameRows rules games) hash, o.ply.toNat = ply := by
  obtain ⟨k, encodedMove, hmove, hply, rfl⟩ := mem_playedFrom_iff.mp hplayed
  obtain rfl : ply = k := hply.trans (Nat.zero_add k)
  obtain ⟨hlt, -⟩ := List.getElem?_eq_some_iff.mp hmove
  have hlast : (UInt16.ofNat ply).toNat = ply := toNat_playedMatch_ply (h.length_moves hgame) hlt.le
  refine ⟨⟨UInt32.ofNat game.id, UInt16.ofNat ply⟩,
    (mem_occurrencesAt_gameRows h).mpr ⟨game, hgame, rfl, ?_⟩, hlast⟩
  dsimp only
  rw [hlast]
  exact ⟨hlt.le, UInt64.toNat_inj.mp hroot⟩

private theorem referenceRows_of_summaryAt_eq_none {games counted : List ReplayGame} (h : Replayed rules games)
    (hnone : summaryAt (gameRows rules games) hash = none) :
    referenceRows rules games counted hash = [] := by
  rw [referenceRows, List.map_eq_nil_iff, List.eq_nil_iff_forall_not_mem]
  intro key hkey
  obtain ⟨hne, hroot⟩ := mem_referenceEdges_iff.mp hkey
  obtain ⟨playing, hplaying⟩ := List.exists_mem_of_ne_nil _ hne
  obtain ⟨hgame, hply⟩ := mem_playings.mp hplaying
  obtain ⟨o, ho, -⟩ := exists_occurrence h hgame hroot
    (List.mem_of_mem_filter (mem_of_leastPly hply))
  have hplies : (occurrencesAt (gameRows rules games) hash).map (fun o => o.ply.toNat) ≠ [] :=
    List.ne_nil_of_mem (List.mem_map_of_mem ho)
  obtain ⟨minPly, hmin⟩ := exists_min? hplies
  obtain ⟨maxPly, hmax⟩ := exists_max? hplies
  rw [summaryAt, hmin, hmax] at hnone
  cases hnone

private theorem uncapped_of_summaryAt {games : List ReplayGame} (h : Replayed rules games)
    {summary : PositionPostingsSummary} (hsummary : summaryAt (gameRows rules games) hash = some summary)
    {maxRootPly : ℕ} (hle : summary.maxPly ≤ maxRootPly) :
    Uncapped rules maxRootPly games hash.toNat := by
  refine .inr fun game hgame key ply hplayed hroot => ?_
  obtain ⟨o, ho, rfl⟩ := exists_occurrence h hgame hroot hplayed
  obtain ⟨minPly, -, hsummary⟩ := Option.bind_eq_some_iff.mp hsummary
  obtain ⟨maxPly, hmax, hsummary⟩ := Option.bind_eq_some_iff.mp hsummary
  obtain rfl := Option.some.inj hsummary
  exact ((List.max?_eq_some_iff.mp hmax).2 _ (List.mem_map_of_mem ho)).trans hle

theorem queryUnfilteredOpeningStats_cases (hfit : v.tables.IdsFit)
    (hpostings : v.postings = some (reader, some file))
    (hpostingsOf : PostingsOf rules v.tables.replayGames reader file)
    (htree : ∀ tree treeFile, v.tree = some (tree, treeFile) → ∃ bytes, treeFile = some bytes ∧
      TreeOf rules encodeF64 v.tables.replayGames tree bytes) (hash : UInt64) :
    v.queryUnfilteredOpeningStats decodeF64 hash =
        .ok (referenceRows rules v.tables.replayGames v.tables.replayGames hash) ∨
      v.queryUnfilteredOpeningStats decodeF64 hash =
        .ok (treeRows rules encodeF64 decodeF64 v.tables.replayGames hash) := by
  obtain ⟨hreplayed, hlength, hanswers⟩ := hpostingsOf.answers
  have hfallback : v.openingStatsFromPostings reader file hash = _ :=
    openingStatsFromPostings_eq hpostingsOf hfit
  rw [View.queryUnfilteredOpeningStats, hpostings]
  dsimp only
  cases hinstalled : v.tree with
  | none => exact .inl hfallback
  | some installed =>
    obtain ⟨tree, treeFile⟩ := installed
    obtain ⟨bytes, rfl, htreeOf⟩ := htree tree treeFile hinstalled
    have hids : ∀ game ∈ v.tables.replayGames, game.id < 2 ^ 32 := by
      intro game hgame
      rw [← toNat_id_replayGames hfit hgame]
      exact UInt32.toNat_lt _
    obtain ⟨maxRootPly, hfrom⟩ := htreeOf.answersFrom hids
    have hmoves : ∀ game ∈ v.tables.replayGames, game.moves.length ≤ 2 ^ 16 :=
      fun game hgame => (hreplayed.length_moves hgame).trans (by omega)
    dsimp only
    split_ifs with hcomplete
    · exact .inr (exactRows_eq hfrom hmoves (.inl ((hfrom.isComplete hash.toNat).mp hcomplete).1))
    · rw [hanswers.summary]
      cases hsummary : summaryAt (gameRows rules v.tables.replayGames) hash with
      | none =>
        rw [referenceRows_of_summaryAt_eq_none hreplayed hsummary]
        exact .inl rfl
      | some summary =>
        dsimp only
        split_ifs with habove
        · exact .inl hfallback
        · refine .inr (exactRows_eq hfrom hmoves (uncapped_of_summaryAt hreplayed hsummary ?_))
          rw [← hfrom.plyCap]
          omega

theorem queryUnfilteredOpeningStats_eq (hcodec : ExactHalves encodeF64 decodeF64)
    (hfit : v.tables.IdsFit) (helos : ∀ game ∈ v.tables.replayGames, game.ElosWithin)
    (hpostings : v.postings = some (reader, some file))
    (hpostingsOf : PostingsOf rules v.tables.replayGames reader file)
    (htree : ∀ tree treeFile, v.tree = some (tree, treeFile) → ∃ bytes, treeFile = some bytes ∧
      TreeOf rules encodeF64 v.tables.replayGames tree bytes) (hash : UInt64) :
    v.queryUnfilteredOpeningStats decodeF64 hash =
      .ok (referenceRows rules v.tables.replayGames v.tables.replayGames hash) := by
  rcases queryUnfilteredOpeningStats_cases hfit hpostings hpostingsOf htree hash with hrows | hrows
  · exact hrows
  · rw [hrows, treeRows_eq hcodec hpostingsOf.answers.2.1 helos]

theorem queryFilteredOpeningStats_eq (hfit : v.tables.IdsFit)
    (hpostings : v.postings = some (reader, some file))
    (hpostingsOf : PostingsOf rules v.tables.replayGames reader file) (hash : UInt64)
    (gameIds : List UInt32) : v.queryFilteredOpeningStats hash gameIds =
      .ok (referenceRows rules (allowedGames v.tables.replayGames gameIds)
        (allowedGames v.tables.replayGames gameIds) hash) := by
  obtain ⟨hreplayed, hlength, hanswers⟩ := hpostingsOf.answers
  rw [View.queryFilteredOpeningStats, hpostings]
  exact postingsOpeningStats_eq hreplayed hfit hlength hanswers gameIds false

/-- With Elos in range, the unfiltered query tells the same rows whether a tree is installed or not,
and the filtered query tells them too when all games are allowed. -/
theorem openingStats_agree (hcodec : ExactHalves encodeF64 decodeF64) (hfit : v.tables.IdsFit)
    (helos : ∀ game ∈ v.tables.replayGames, game.ElosWithin)
    (hpostings : v.postings = some (reader, some file))
    (hpostingsOf : PostingsOf rules v.tables.replayGames reader file) {tree : Index}
    {treeFile : List UInt8} (htree : v.tree = some (tree, some treeFile))
    (htreeOf : TreeOf rules encodeF64 v.tables.replayGames tree treeFile) (hash : UInt64)
    {gameIds : List UInt32} (hall : ∀ game ∈ v.tables.replayGames, UInt32.ofNat game.id ∈ gameIds) :
    ∃ rows, v.queryUnfilteredOpeningStats decodeF64 hash = .ok rows ∧
      View.queryUnfilteredOpeningStats { v with tree := none } decodeF64 hash = .ok rows ∧
      v.queryFilteredOpeningStats hash gameIds = .ok rows := by
  have hallowed : allowedGames v.tables.replayGames gameIds = v.tables.replayGames :=
    List.filter_eq_self.mpr fun game hgame => decide_eq_true (hall game hgame)
  refine ⟨referenceRows rules v.tables.replayGames v.tables.replayGames hash, ?_, ?_, ?_⟩
  · refine queryUnfilteredOpeningStats_eq hcodec hfit helos hpostings hpostingsOf ?_ hash
    intro tree' treeFile' hinstalled
    obtain ⟨rfl, rfl⟩ := Prod.mk.inj (Option.some.inj (htree.symm.trans hinstalled))
    exact ⟨treeFile, rfl, htreeOf⟩
  · have hrows := queryUnfilteredOpeningStats_eq (v := { v with tree := none }) hcodec hfit helos
      hpostings hpostingsOf (by simp) hash
    exact hrows
  · rw [queryFilteredOpeningStats_eq hfit hpostings hpostingsOf, hallowed]

end Queries

section Sample

/-- The transposing games as rows of a store. -/
def transposingTables : Tables where
  players := []
  events := []
  games := transposingGames.map fun game => ⟨game.id, 0, "Ann", "Bob", none, none, game.result, none,
    game.moves, {}, game.whiteElo, game.blackElo, []⟩
  identityIndex := true
  ascending := by decide

/-- A view of the transposing games with the given indexes. -/
def transposingView (reader : Reader) (file : List UInt8) (tree : Index) (treeFile : List UInt8) :
    View (.ofRules .ofSums Index (fun _ _ _ => .error .ioFailure) (openIndex .ofSums)
      Index.sourceGameCount) where
  tables := transposingTables
  postings := some (reader, some file)
  tree := some (tree, some treeFile)

theorem exists_postingsOf {rules : Chess.Rules} {games : List ReplayGame}
    (h : (PositionPostings.build rules 1 games).toOption.isSome = true) :
    ∃ reader file, PostingsOf rules games reader file := by
  obtain ⟨file, hfile⟩ := Option.isSome_iff_exists.mp h
  have hbuild := toOption_eq_some.mp hfile
  obtain ⟨reader, hopen, -⟩ := build_answers_of_ok _ le_rfl hbuild
  exact ⟨reader, file, 1, le_rfl, hbuild, hopen⟩

theorem exists_transposingIndexes : ∃ reader file tree treeFile,
    PostingsOf .ofSums transposingGames reader file ∧
    TreeOf .ofSums Codec.Binary64.encode transposingGames tree treeFile := by
  have hbuilt : (PositionPostings.build .ofSums 1 transposingGames).toOption.isSome := by
    decide +kernel
  obtain ⟨reader, file, hpostingsOf⟩ := exists_postingsOf hbuilt
  have htreeBuilt : ((OpeningTreeIndex.build .ofSums Codec.Binary64.encode reverseOrder ⟨1, 1, 0⟩ none
      transposingGames).bind fun bytes => (openIndex .ofSums bytes).map fun tree =>
        (tree, bytes)).toOption.isSome := by
    decide +kernel
  obtain ⟨⟨tree, treeFile⟩, hboth⟩ := Option.isSome_iff_exists.mp htreeBuilt
  obtain ⟨bytes, htreeBuild, hboth⟩ := bind_eq_ok.mp (toOption_eq_some.mp hboth)
  refine ⟨reader, file, tree, treeFile, hpostingsOf, ?_⟩
  cases hread : openIndex .ofSums bytes with
  | error e =>
    rw [hread] at hboth
    cases hboth
  | ok opened =>
    rw [hread] at hboth
    obtain ⟨rfl, rfl⟩ := Prod.mk.inj (Except.ok.inj hboth)
    exact ⟨reverseOrder, ⟨1, 1, 0⟩, none, le_rfl, .own, htreeBuild, hread⟩

theorem idsFit_of_all {t : Tables} (h : t.games.all (fun row => decide (row.id < 2 ^ 32)) = true) :
    t.IdsFit :=
  fun row hrow => of_decide_eq_true (List.all_eq_true.mp h row hrow)

theorem elosWithin_of_all {games : List ReplayGame} (h : games.all (fun game =>
    game.whiteElo.all (fun elo => decide (0 ≤ elo.toInt ∧ elo.toInt ≤ 32767)) &&
      game.blackElo.all fun elo => decide (0 ≤ elo.toInt ∧ elo.toInt ≤ 32767)) = true) :
    ∀ game ∈ games, game.ElosWithin := by
  intro game hgame
  have hboth := List.all_eq_true.mp h game hgame
  simp only [Bool.and_eq_true, Option.all_eq_true, decide_eq_true_eq] at hboth
  exact hboth

/-- From the start, which one game visits three times more, and with all games named in reverse. -/
theorem openingStats_agree_sample : ∃ reader file tree treeFile,
    PostingsOf .ofSums transposingGames reader file ∧
    TreeOf .ofSums Codec.Binary64.encode transposingGames tree treeFile ∧ ∃ rows,
      (transposingView reader file tree treeFile).queryUnfilteredOpeningStats
          Codec.Binary64.decode 0 = .ok rows ∧
        View.queryUnfilteredOpeningStats
          { transposingView reader file tree treeFile with tree := none }
          Codec.Binary64.decode 0 = .ok rows ∧
        (transposingView reader file tree treeFile).queryFilteredOpeningStats 0 [3, 2, 1] =
          .ok rows := by
  obtain ⟨reader, file, tree, treeFile, hpostingsOf, htreeOf⟩ := exists_transposingIndexes
  have helos : ∀ game ∈ transposingGames, game.ElosWithin := elosWithin_of_all (by decide)
  have hfit : transposingTables.IdsFit := idsFit_of_all (by decide)
  have hall : ∀ game ∈ transposingGames, UInt32.ofNat game.id ∈ ([3, 2, 1] : List UInt32) := by decide
  have hagree := openingStats_agree (v := transposingView reader file tree treeFile)
    Codec.Binary64.exactHalves hfit helos rfl hpostingsOf rfl htreeOf 0 hall
  exact ⟨reader, file, tree, treeFile, hpostingsOf, htreeOf, hagree⟩

end Sample

end MotifChess.Db
