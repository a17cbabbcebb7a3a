/- GID: MotifChess/Db/OpeningTreeIndex/PlayedEdges
   generality: implementation
   digest: The edges that games play, counted by definition, and the builder's records of them. -/

import MotifChess.Db.OpeningTreeIndex.Accumulation
import Mathlib.Algebra.BigOperators.Group.List.Basic
import Mathlib.Algebra.Group.Int.Defs

set_option autoImplicit false
set_option relaxedAutoImplicit false

namespace MotifChess.Db.OpeningTreeIndex

open MotifChess.Order (sortBy)
open MotifChess.Order.Aggregation

section Reference

variable (rules : Chess.Rules)

/-- The edges that the moves lead through from a board, each with the ply of its root. -/
def playedFrom (board : rules.Board) (ply : ℕ) : List UInt16 → List (EdgeKey × ℕ)
  | [] => []
  | encodedMove :: moves =>
    let child := rules.applyEncodedMove board encodedMove
    (⟨(rules.hash board).toNat, encodedMove.toNat, (rules.hash child).toNat⟩, ply) ::
      playedFrom child (ply + 1) moves

/-- The edges of a game that count: up to the ply cap, and from the starting position at any ply. -/
def coveredEdges (maxRootPly : ℕ) (game : ReplayGame) : List (EdgeKey × ℕ) :=
  (playedFrom rules rules.start 0 game.moves).filter fun e =>
    e.2 ≤ maxRootPly ∨ e.1.rootHash = fullCoverageRootHash rules

/-- The lowest of the plies at which an edge is listed. -/
def leastPly (edges : List (EdgeKey × ℕ)) (key : EdgeKey) : Option ℕ := total min key edges

/-- The games that play an edge where it counts. -/
def takers (maxRootPly : ℕ) (games : List ReplayGame) (key : EdgeKey) : List ReplayGame :=
  games.filter fun game => key ∈ (coveredEdges rules maxRootPly game).map Prod.fst

/-- The mean of the two players' Elos, when both are known. -/
def averageEloOf (game : ReplayGame) : Option ℚ := do
  let white ← game.whiteElo
  let black ← game.blackElo
  return ((white.toInt : ℚ) + (black.toInt : ℚ)) / 2

/-- The statistics of a continuation that these games play, each counted once. -/
def statisticsOf (played : List ReplayGame) (rootPly : ℕ) : EdgeAgg where
  rootPly := rootPly
  frequency := UInt32.ofNat played.length
  whiteWins := UInt32.ofNat (played.countP fun game => 0 < mapResult game.result)
  draws := UInt32.ofNat (played.countP fun game => mapResult game.result = 0)
  blackWins := UInt32.ofNat (played.countP fun game => mapResult game.result < 0)
  whiteEloSum := (played.map fun game => game.whiteElo.elim 0 Int32.toInt).sum
  whiteEloCount := UInt32.ofNat (played.countP fun game => game.whiteElo.isSome)
  blackEloSum := (played.map fun game => game.blackElo.elim 0 Int32.toInt).sum
  blackEloCount := UInt32.ofNat (played.countP fun game => game.blackElo.isSome)
  weightedContribSum := (played.map fun game =>
    (averageEloOf game).elim 0 fun average => (mapResult game.result : ℚ) * average).sum
  eloWeightSum := (played.map fun game => (averageEloOf game).getD 0).sum
  ecoSampleMin := (played.map ReplayGame.id).min?.getD 0
  ecoSampleMax := (played.map ReplayGame.id).max?.getD 0

/-- The statistics of a continuation, at the lowest ply at which any game plays it. -/
def referenceAgg (maxRootPly : ℕ) (games : List ReplayGame) (key : EdgeKey) : EdgeAgg :=
  statisticsOf (takers rules maxRootPly games key)
    ((leastPly (games.flatMap (coveredEdges rules maxRootPly)) key).getD 0)

/-- The distinct continuations of a position, by move and then by the position reached. -/
def referenceEdges (maxRootPly : ℕ) (games : List ReplayGame) (hash : ℕ) : List EdgeKey :=
  sortBy id (((games.flatMap (coveredEdges rules maxRootPly)).map Prod.fst).filter
    fun key => key.rootHash = hash).dedup

/-- The positions of a game up to the ply cap. -/
def rootsWithin (maxRootPly : ℕ) (game : ReplayGame) : List ℕ :=
  (fullCoverageRootHash rules :: hashesAfter rules rules.start game.moves).take (maxRootPly + 1)

/-- How many games reach a position within the cap. -/
def referenceGameCount (maxRootPly : ℕ) (games : List ReplayGame) (hash : ℕ) : ℕ :=
  games.countP fun game => hash ∈ rootsWithin rules maxRootPly game

end Reference

section Emplace

variable {held edges : List (EdgeKey × ℕ)} {key : EdgeKey} {ply : ℕ}

theorem mem_of_leastPly (h : leastPly edges key = some ply) : (key, ply) ∈ edges := by
  induction edges generalizing ply with
  | nil => cases h
  | cons e edges ih =>
    rw [leastPly, total] at h
    by_cases hkey : e.1 = key
    · rw [if_pos hkey] at h
      cases hrest : total min key edges with
      | none =>
        rw [hrest, Option.merge_none_right] at h
        obtain rfl := Option.some.inj h
        exact hkey ▸ List.mem_cons_self
      | some other =>
        rw [hrest] at h
        obtain rfl : min e.2 other = ply := Option.some.inj h
        rcases min_choice e.2 other with hmin | hmin
        · rw [hmin]
          exact hkey ▸ List.mem_cons_self
        · rw [hmin]
          exact List.mem_cons_of_mem e (ih hrest)
    · rw [if_neg hkey] at h
      exact List.mem_cons_of_mem e (ih h)

/-- What a map of edges holds after some edges were put into it. -/
structure Emplaced (held edges : List (EdgeKey × ℕ)) : Prop where
  nodup : (held.map Prod.fst).Nodup
  least : ∀ key, leastPly held key = leastPly edges key

private theorem map_fst_tryEmplace (hmem : key ∈ held.map Prod.fst) :
    (tryEmplace held key ply).map Prod.fst = held.map Prod.fst := by
  rw [tryEmplace, if_pos hmem, List.map_map]
  apply List.map_congr_left
  intro e _
  rw [Function.comp_apply]
  split
  next h => exact h.1.symm
  next => rfl

private theorem leastPly_lower (hnodup : (held.map Prod.fst).Nodup) (hmem : key ∈ held.map Prod.fst)
    (k : EdgeKey) : leastPly (held.map fun e => if e.1 = key ∧ ply < e.2 then (key, ply) else e) k =
      leastPly (held ++ [(key, ply)]) k := by
  induction held with
  | nil => cases hmem
  | cons e held ih =>
    rw [List.map_cons, List.nodup_cons] at hnodup
    simp only [leastPly] at ih ⊢
    rw [List.map_cons, List.cons_append, total_cons, total_cons min k e]
    by_cases hkey : e.1 = key
    · have hrest : ∀ e' ∈ held, e'.1 ≠ key := fun e' he' heq =>
        hnodup.1 (hkey.trans heq.symm ▸ List.mem_map_of_mem he')
      have hsame : (held.map fun e => if e.1 = key ∧ ply < e.2 then (key, ply) else e) = held := by
        refine (List.map_congr_left fun e' he' => ?_).trans (List.map_id held)
        rw [if_neg fun h => hrest e' he' h.1]
        rfl
      have hnone : total min key held = none := total_eq_none min |>.mpr (hkey ▸ hnodup.1)
      rw [hsame, total_append]
      by_cases hk : key = k
      · subst hk
        rw [hnone, Option.merge_none_right, Option.merge_none_left]
        split
        next h => simp [total, hkey, Nat.min_eq_right h.2.le]
        next h =>
          have hle : e.2 ≤ ply := Nat.le_of_not_lt fun hlt => h ⟨hkey, hlt⟩
          simp [total, hkey, Nat.min_eq_left hle]
      · have hone : total min k [(key, ply)] = none := by simp [total, hk]
        have htwo : total min k [e] = none := by simp [total, hkey, hk]
        split <;> simp [hone, htwo]
    · have htail : key ∈ held.map Prod.fst := by
        rw [List.map_cons, List.mem_cons] at hmem
        exact hmem.resolve_left (Ne.symm hkey)
      rw [if_neg fun h => hkey h.1, ih hnodup.2 htail]

theorem Emplaced.tryEmplace (h : Emplaced held edges) (key : EdgeKey) (ply : ℕ) :
    Emplaced (OpeningTreeIndex.tryEmplace held key ply) (edges ++ [(key, ply)]) := by
  have hadded : ∀ k, leastPly (held ++ [(key, ply)]) k = leastPly (edges ++ [(key, ply)]) k := by
    intro k
    have hheld := h.least k
    rw [leastPly, leastPly] at hheld ⊢
    rw [total_append, total_append, hheld]
  by_cases hmem : key ∈ held.map Prod.fst
  · refine ⟨(map_fst_tryEmplace hmem).symm ▸ h.nodup, fun k => ?_⟩
    rw [← hadded, OpeningTreeIndex.tryEmplace, if_pos hmem, leastPly_lower h.nodup hmem]
  · rw [OpeningTreeIndex.tryEmplace, if_neg hmem]
    refine ⟨?_, hadded⟩
    rw [List.map_append, List.map_singleton, List.nodup_append]
    refine ⟨h.nodup, List.nodup_singleton key, ?_⟩
    rintro k hk k' hk' rfl
    obtain rfl : k = key := List.mem_singleton.mp hk'
    exact hmem hk

end Emplace

section Scratch

variable {rules : Chess.Rules} {maxRootPly : ℕ}

/-- The loop over the moves puts every covered edge into the map, and every capped hash among the
roots. -/
private theorem replayMoves_spec {board : rules.Board} {prevHash ply : ℕ} {moves : List UInt16}
    {visits visits' : Option HashVisitCounter} {scratch scratch' : ReplayScratch}
    (hprev : prevHash = (rules.hash board).toNat) {edges : List (EdgeKey × ℕ)}
    (hedges : Emplaced scratch.edges edges)
    (h : replayMoves rules maxRootPly board prevHash ply moves visits scratch =
      .ok (visits', scratch')) :
    Emplaced scratch'.edges (edges ++ (playedFrom rules board ply moves).filter fun e =>
        e.2 ≤ maxRootPly ∨ e.1.rootHash = fullCoverageRootHash rules) ∧
      scratch'.roots =
        visitAll scratch.roots ((hashesAfter rules board moves).take (maxRootPly - ply)) := by
  induction moves generalizing board prevHash ply visits scratch edges with
  | nil =>
    obtain ⟨-, rfl⟩ := Prod.mk.inj (Except.ok.inj h)
    refine ⟨?_, by simp [hashesAfter, visitAll]⟩
    simpa [playedFrom] using hedges
  | cons encodedMove moves ih =>
    rw [replayMoves] at h
    split at h
    · cases h
    obtain ⟨⟨visits'', visited⟩, -, h⟩ := bind_eq_ok.mp h
    dsimp only at h
    subst hprev
    rw [playedFrom, hashesAfter]
    set child := rules.applyEncodedMove board encodedMove with hchild
    set edge : EdgeKey × ℕ :=
      (⟨(rules.hash board).toNat, encodedMove.toNat, (rules.hash child).toNat⟩, ply) with hedge
    have hnext : Emplaced (if ply ≤ maxRootPly ∨
          (rules.hash board).toNat = fullCoverageRootHash rules then
          tryEmplace scratch.edges edge.1 ply else scratch.edges)
        (edges ++ [edge].filter fun e =>
          e.2 ≤ maxRootPly ∨ e.1.rootHash = fullCoverageRootHash rules) := by
      by_cases hcovered : ply ≤ maxRootPly ∨
          (rules.hash board).toNat = fullCoverageRootHash rules
      · rw [if_pos hcovered, List.filter_cons_of_pos (by simpa using hcovered)]
        exact hedges.tryEmplace _ _
      · rw [if_neg hcovered, List.filter_cons_of_neg (by simpa using hcovered)]
        simpa using hedges
    obtain ⟨hlater, hroots⟩ := ih rfl hnext h
    refine ⟨?_, ?_⟩
    · rw [List.append_assoc, ← List.filter_append, List.singleton_append] at hlater
      exact hlater
    · rw [hroots]
      dsimp only
      by_cases hcap : ply + 1 ≤ maxRootPly
      · obtain ⟨n, hn⟩ : ∃ n, maxRootPly - ply = n + 1 := ⟨maxRootPly - ply - 1, by omega⟩
        rw [if_pos hcap, hn, List.take_succ_cons, show maxRootPly - (ply + 1) = n by omega]
        rfl
      · rw [if_neg hcap, show maxRootPly - ply = 0 by omega,
          show maxRootPly - (ply + 1) = 0 by omega, List.take_zero, List.take_zero]

variable (rules) in
private theorem gameScratch_spec (maxRootPly : ℕ) {game : ReplayGame} (h : game.moves.length ≤ 2 ^ 16) :
    Emplaced (gameScratch rules maxRootPly game).edges (coveredEdges rules maxRootPly game) ∧
      (gameScratch rules maxRootPly game).roots = visitAll [] (rootsWithin rules maxRootPly game) := by
  rcases replayMoves_external maxRootPly (fullCoverageRootHash rules) rules.start
      (Nat.zero_le (2 ^ 16)) game.moves ⟨[], [], [fullCoverageRootHash rules]⟩ with
    ⟨scratch, hrun, -⟩ | ⟨-, hlong⟩
  · have hempty : Emplaced ([] : List (EdgeKey × ℕ)) [] := ⟨List.nodup_nil, fun _ => rfl⟩
    obtain ⟨hedges, hroots⟩ := replayMoves_spec rfl hempty hrun
    rw [gameScratch_eq hrun]
    exact ⟨hedges, hroots⟩
  · omega

end Scratch

section Statistics

variable {game : ReplayGame} {played : List ReplayGame}

private theorem edgeRecord_eq (hid : game.id < 2 ^ 32) (key : EdgeKey) (rootPly : ℕ) :
    edgeRecord game key rootPly = (key, statisticsOf [game] rootPly) := by
  have hid' : (UInt32.ofNat game.id).toNat = game.id := UInt32.toNat_ofNat_of_lt' hid
  obtain ⟨id, result, whiteElo, blackElo, moves⟩ := game
  refine Prod.ext rfl ?_
  dsimp only [edgeRecord] at hid' ⊢
  rw [hid']
  simp only [statisticsOf, averageEloOf, List.map_singleton, List.countP_singleton, List.sum_singleton,
    List.length_singleton]
  generalize mapResult result = code
  have hresult : ∀ agg : EdgeAgg, agg.whiteWins = 0 → agg.draws = 0 → agg.blackWins = 0 →
      agg.noteResult code = { agg with
        whiteWins := UInt32.ofNat (if decide (0 < code) = true then 1 else 0)
        draws := UInt32.ofNat (if decide (code = 0) = true then 1 else 0)
        blackWins := UInt32.ofNat (if decide (code < 0) = true then 1 else 0) } := by
    intro agg hwhite hdraws hblack
    unfold EdgeAgg.noteResult
    rcases lt_trichotomy code 0 with hlost | rfl | hwon
    · simp [hlost, hlost.not_gt, hlost.ne, hwhite, hdraws, hblack]
    · simp [hwhite, hdraws, hblack]
    · simp [hwon, hwon.not_gt, hwon.ne', hwhite, hdraws, hblack]
  rw [hresult _ rfl rfl rfl]
  cases whiteElo <;> cases blackElo <;> simp [EdgeAgg.noteElo, EdgeAgg.empty]

theorem statisticsOf_cons (hne : played ≠ []) (rootPly rootPly' : ℕ) :
    statisticsOf (game :: played) (min rootPly rootPly') =
      mergeEdgeAgg (statisticsOf [game] rootPly) (statisticsOf played rootPly') := by
  have hcount : ∀ p : ReplayGame → Bool, UInt32.ofNat ((game :: played).countP p) =
      UInt32.ofNat ([game].countP p) + UInt32.ofNat (played.countP p) := by
    intro p
    rw [← UInt32.ofNat_add, ← List.countP_append, List.singleton_append]
  obtain ⟨least, hleast⟩ := Option.ne_none_iff_exists'.mp fun hnone : (played.map ReplayGame.id).min? =
    none => hne (List.map_eq_nil_iff.mp (List.min?_eq_none_iff.mp hnone))
  obtain ⟨greatest, hgreatest⟩ := Option.ne_none_iff_exists'.mp fun hnone :
    (played.map ReplayGame.id).max? = none =>
      hne (List.map_eq_nil_iff.mp (List.max?_eq_none_iff.mp hnone))
  refine EdgeAgg.ext rfl ?_ (hcount _) (hcount _) (hcount _) ?_ (hcount _) ?_ (hcount _) ?_ ?_ ?_ ?_
  · show UInt32.ofNat (game :: played).length = UInt32.ofNat 1 + UInt32.ofNat played.length
    rw [← UInt32.ofNat_add, List.length_cons, Nat.add_comm]
  all_goals simp [statisticsOf, mergeEdgeAgg, List.min?_cons, List.max?_cons, hleast, hgreatest]

theorem takers_eq_nil {rules : Chess.Rules} {maxRootPly : ℕ} {games : List ReplayGame}
    {key : EdgeKey} : takers rules maxRootPly games key = [] ↔
      leastPly (games.flatMap (coveredEdges rules maxRootPly)) key = none := by
  rw [leastPly, total_eq_none, takers, List.filter_eq_nil_iff, List.map_flatMap, List.mem_flatMap]
  simp only [decide_eq_true_eq, not_exists, not_and]

private theorem total_edgeRecords {held : List (EdgeKey × ℕ)} (hnodup : (held.map Prod.fst).Nodup)
    (hid : game.id < 2 ^ 32) (key : EdgeKey) :
    total mergeEdgeAgg key (held.map fun e => edgeRecord game e.1 e.2) =
      (leastPly held key).map (statisticsOf [game]) := by
  induction held with
  | nil => rfl
  | cons e held ih =>
    obtain ⟨hhead, htail⟩ := List.nodup_cons.mp hnodup
    simp only [leastPly] at ih ⊢
    rw [List.map_cons, total_cons, total_cons min key e, ih htail, edgeRecord_eq hid]
    by_cases hkey : e.1 = key
    · have hnone : total min key held = none := (total_eq_none min).mpr (hkey ▸ hhead)
      simp [total, hkey, hnone]
    · simp [total, hkey]

variable (rules : Chess.Rules)

theorem total_edgesOf {maxRootPly : ℕ} {games : List ReplayGame}
    (hmoves : ∀ game ∈ games, game.moves.length ≤ 2 ^ 16) (hids : ∀ game ∈ games, game.id < 2 ^ 32)
    (key : EdgeKey) : total mergeEdgeAgg key (edgesOf rules maxRootPly games) =
      if takers rules maxRootPly games key = [] then none
      else some (referenceAgg rules maxRootPly games key) := by
  induction games with
  | nil => rfl
  | cons game games ih =>
    have hspec := (gameScratch_spec rules maxRootPly (hmoves game List.mem_cons_self)).1
    have hrest := ih (fun g hg => hmoves g (List.mem_cons_of_mem game hg)) fun g hg =>
      hids g (List.mem_cons_of_mem game hg)
    have hcons : edgesOf rules maxRootPly (game :: games) =
        ((gameScratch rules maxRootPly game).edges.map fun e => edgeRecord game e.1 e.2) ++
          edgesOf rules maxRootPly games := List.flatMap_cons
    have hplies : leastPly ((game :: games).flatMap (coveredEdges rules maxRootPly)) key =
        Option.merge min (leastPly (coveredEdges rules maxRootPly game) key)
          (leastPly (games.flatMap (coveredEdges rules maxRootPly)) key) := by
      rw [List.flatMap_cons, leastPly, total_append]
      rfl
    rw [hcons, total_append, total_edgeRecords hspec.nodup (hids game List.mem_cons_self),
      hspec.least, hrest, referenceAgg, referenceAgg, hplies]
    cases hown : leastPly (coveredEdges rules maxRootPly game) key with
    | none =>
      have hnot := (total_eq_none min).mp hown
      have htakers : takers rules maxRootPly (game :: games) key =
          takers rules maxRootPly games key := List.filter_cons_of_neg (by simpa using hnot)
      rw [htakers]
      simp
    | some ply =>
      have hmem : key ∈ (coveredEdges rules maxRootPly game).map Prod.fst := by
        by_contra hnot
        rw [leastPly, (total_eq_none min).mpr hnot] at hown
        cases hown
      have htakers : takers rules maxRootPly (game :: games) key =
          game :: takers rules maxRootPly games key := List.filter_cons_of_pos (by simpa using hmem)
      rw [htakers, if_neg (List.cons_ne_nil _ _)]
      by_cases hempty : takers rules maxRootPly games key = []
      · rw [if_pos hempty, takers_eq_nil.mp hempty, hempty]
        simp
      · obtain ⟨other, hother⟩ := Option.ne_none_iff_exists'.mp (mt takers_eq_nil.mpr hempty)
        rw [if_neg hempty, hother]
        simp [statisticsOf_cons hempty]

end Statistics

section Tables

variable {rules : Chess.Rules} {maxRootPly : ℕ} {games : List ReplayGame} {hash : ℕ}

theorem mem_referenceEdges {key : EdgeKey} : key ∈ referenceEdges rules maxRootPly games hash ↔
    takers rules maxRootPly games key ≠ [] ∧ key.rootHash = hash := by
  rw [referenceEdges, Order.mem_sortBy, List.mem_dedup, List.mem_filter, decide_eq_true_eq, Ne,
    takers_eq_nil, leastPly, total_eq_none, not_not]

theorem pairwise_referenceEdges (maxRootPly : ℕ) (games : List ReplayGame) (hash : ℕ) :
    (referenceEdges rules maxRootPly games hash).Pairwise (· < ·) := by
  have hsorted : ((referenceEdges rules maxRootPly games hash).map id).Pairwise (· < ·) :=
    Order.pairwise_lt_map_sortBy (by simp [List.nodup_dedup])
  rwa [List.map_id] at hsorted

theorem filter_aggregate_edgesOf (hmoves : ∀ game ∈ games, game.moves.length ≤ 2 ^ 16)
    (hids : ∀ game ∈ games, game.id < 2 ^ 32) (hash : ℕ) :
    ((aggregate mergeEdgeAgg (edgesOf rules maxRootPly games)).filter fun e =>
        e.1.rootHash = hash) =
      (referenceEdges rules maxRootPly games hash).map fun key =>
        (key, referenceAgg rules maxRootPly games key) := by
  apply eq_of_mem_iff
  · exact (pairwise_lt_aggregate _ _).sublist (List.filter_sublist.map _)
  · rw [List.map_map]
    simpa [Function.comp_def] using pairwise_referenceEdges maxRootPly games hash
  · rintro ⟨key, agg⟩
    rw [List.mem_filter, mem_aggregate, total_edgesOf rules hmoves hids, decide_eq_true_eq]
    constructor
    · rintro ⟨htotal, hroot⟩
      split at htotal
      · cases htotal
      next htakers =>
        obtain rfl := Option.some.inj htotal
        exact List.mem_map.mpr ⟨key, mem_referenceEdges.mpr ⟨htakers, hroot⟩, rfl⟩
    · intro hmem
      obtain ⟨key', hkey, heq⟩ := List.mem_map.mp hmem
      obtain ⟨rfl, rfl⟩ := Prod.mk.inj heq
      obtain ⟨htakers, hroot⟩ := mem_referenceEdges.mp hkey
      exact ⟨if_neg htakers, hroot⟩

theorem count_rootsOf (hmoves : ∀ game ∈ games, game.moves.length ≤ 2 ^ 16) (hash : ℕ) :
    (rootsOf rules maxRootPly games).count hash = referenceGameCount rules maxRootPly games hash := by
  induction games with
  | nil => rfl
  | cons game games ih =>
    have hroots := (gameScratch_spec rules maxRootPly
      (hmoves game List.mem_cons_self)).2
    have hcons : rootsOf rules maxRootPly (game :: games) =
        visitAll [] (rootsWithin rules maxRootPly game) ++ rootsOf rules maxRootPly games := by
      rw [← hroots]
      exact List.flatMap_cons
    have hnodup := nodup_visitAll List.nodup_nil (rootsWithin rules maxRootPly game)
    rw [hcons, List.count_append, ih fun g hg => hmoves g (List.mem_cons_of_mem game hg),
      referenceGameCount, referenceGameCount, List.countP_cons, hnodup.count]
    by_cases hmem : hash ∈ rootsWithin rules maxRootPly game
    · simp [mem_visitAll, hmem, Nat.add_comm]
    · simp [mem_visitAll, hmem]

end Tables

section Bounds

variable {rules : Chess.Rules} {maxRootPly : ℕ} {key : EdgeKey} {p : ℕ}

/-- An edge is played at a ply of the game, from a position up to that ply to one behind it. -/
theorem mem_playedFrom {board : rules.Board} {ply : ℕ} {moves : List UInt16}
    (h : (key, p) ∈ playedFrom rules board ply moves) :
    p < ply + moves.length ∧ key.encodedMove < 2 ^ 16 ∧
      key.rootHash ∈ ((rules.hash board).toNat :: hashesAfter rules board moves).take (p - ply + 1) ∧
      key.childHash ∈ hashesAfter rules board moves ∧ ply ≤ p := by
  induction moves generalizing board ply with
  | nil => cases h
  | cons encodedMove moves ih =>
    rw [playedFrom] at h
    rw [List.length_cons, hashesAfter]
    rcases List.mem_cons.mp h with heq | hlater
    · obtain ⟨rfl, rfl⟩ := Prod.mk.inj heq
      refine ⟨by omega, encodedMove.toNat_lt, ?_, List.mem_cons_self, le_rfl⟩
      rw [List.take_succ_cons]
      exact List.mem_cons_self
    · obtain ⟨hlt, hmove, hroot, hchild, hle⟩ := ih hlater
      refine ⟨by omega, hmove, ?_, List.mem_cons_of_mem _ hchild, by omega⟩
      rw [show p - ply + 1 = (p - (ply + 1) + 1) + 1 by omega, List.take_succ_cons]
      exact List.mem_cons_of_mem _ hroot

variable {game : ReplayGame}

/-- The lowest ply of an edge is one at which some game plays it. -/
theorem exists_leastPly {games : List ReplayGame} (h : takers rules maxRootPly games key ≠ []) :
    ∃ ply, leastPly (games.flatMap (coveredEdges rules maxRootPly)) key = some ply ∧
      ∃ game ∈ games, (key, ply) ∈ coveredEdges rules maxRootPly game := by
  obtain ⟨ply, hply⟩ := Option.ne_none_iff_exists'.mp (mt takers_eq_nil.mpr h)
  exact ⟨ply, hply, List.mem_flatMap.mp (mem_of_leastPly hply)⟩

theorem root_mem_rootsWithin (h : key ∈ (coveredEdges rules maxRootPly game).map Prod.fst) :
    key.rootHash ∈ rootsWithin rules maxRootPly game := by
  obtain ⟨⟨key, p⟩, he, rfl⟩ := List.mem_map.mp h
  obtain ⟨hplayed, hcovered⟩ := List.mem_filter.mp he
  rw [decide_eq_true_eq] at hcovered
  rw [rootsWithin]
  rcases hcovered with hcap | hstart
  · obtain ⟨-, -, hroot, -⟩ := mem_playedFrom hplayed
    exact (List.take_subset_take_left _ (Nat.add_le_add_right hcap 1)) hroot
  · dsimp only at hstart ⊢
    rw [hstart, List.take_succ_cons]
    exact List.mem_cons_self

theorem child_mem_gameVisits (h : key ∈ (coveredEdges rules maxRootPly game).map Prod.fst) :
    key.childHash ∈ gameVisits rules game := by
  obtain ⟨⟨key, p⟩, he, rfl⟩ := List.mem_map.mp h
  obtain ⟨-, -, -, hchild, -⟩ := mem_playedFrom (List.mem_filter.mp he).1
  exact (mem_gameVisits rules).mpr (List.mem_cons_of_mem _ hchild)

end Bounds

end MotifChess.Db.OpeningTreeIndex
