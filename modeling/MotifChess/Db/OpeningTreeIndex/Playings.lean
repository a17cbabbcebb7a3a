/- GID: MotifChess/Db/OpeningTreeIndex/Playings
   generality: implementation
   digest: The games that play a continuation with their lowest plies, and when the ply cap hides none. -/

import MotifChess.Db.OpeningTreeIndex.PlayedEdges
import MotifChess.Db.PositionPostings.Answers

set_option autoImplicit false
set_option relaxedAutoImplicit false

namespace MotifChess.Db.OpeningTreeIndex

open MotifChess.Order.Aggregation

section Plies

variable {edges : List (EdgeKey × ℕ)} {key : EdgeKey} {ply : ℕ}

theorem leastPly_eq_some : leastPly edges key = some ply ↔
    (key, ply) ∈ edges ∧ ∀ p, (key, p) ∈ edges → ply ≤ p := by
  have hle : ∀ least, leastPly edges key = some least → ∀ p, (key, p) ∈ edges → least ≤ p := by
    induction edges with
    | nil => simp
    | cons e edges ih =>
      intro least hleast p hp
      rw [leastPly, total] at hleast
      by_cases hkey : e.1 = key
      · rw [if_pos hkey] at hleast
        rcases List.mem_cons.mp hp with rfl | hmem
        · cases hrest : total min key edges with
          | none => simp_all
          | some other =>
            rw [hrest] at hleast
            obtain rfl : min p other = least := Option.some.inj hleast
            exact min_le_left _ _
        · cases hrest : total min key edges with
          | none => exact absurd (List.mem_map_of_mem hmem) ((total_eq_none min).mp hrest)
          | some other =>
            rw [hrest] at hleast
            obtain rfl : min e.2 other = least := Option.some.inj hleast
            exact (min_le_right _ _).trans (ih other hrest p hmem)
      · rw [if_neg hkey] at hleast
        refine ih least hleast p ((List.mem_cons.mp hp).resolve_left ?_)
        rintro rfl
        exact hkey rfl
  constructor
  · intro h
    exact ⟨mem_of_leastPly h, hle ply h⟩
  · rintro ⟨hmem, hleast⟩
    cases hfound : leastPly edges key with
    | none => exact absurd (List.mem_map_of_mem hmem) ((total_eq_none min).mp hfound)
    | some least =>
      have hlower := hle least hfound ply hmem
      have hupper := hleast least (mem_of_leastPly hfound)
      rw [Nat.le_antisymm hlower hupper]

private theorem leastPly_filter {p : EdgeKey × ℕ → Bool} (h : ∀ e ∈ edges, e.1 = key → p e = true) :
    leastPly (edges.filter p) key = leastPly edges key := by
  cases hfound : leastPly edges key with
  | none =>
    rw [leastPly, total_eq_none] at hfound ⊢
    exact fun hmem => hfound (List.map_subset _ (List.filter_subset_self _) hmem)
  | some least =>
    rw [leastPly_eq_some] at hfound ⊢
    obtain ⟨hmem, hleast⟩ := hfound
    refine ⟨List.mem_filter.mpr ⟨hmem, h _ hmem rfl⟩, fun q hq => ?_⟩
    exact hleast q (List.mem_filter.mp hq).1

end Plies

section Playings

variable (rules : Chess.Rules) (maxRootPly : ℕ) (games : List ReplayGame)

/-- The games that play an edge where it counts, each with the lowest ply at which it does. -/
def playings (key : EdgeKey) : List (ReplayGame × ℕ) :=
  games.filterMap fun game =>
    (leastPly (coveredEdges rules maxRootPly game) key).map fun ply => (game, ply)

variable {rules maxRootPly games} {key : EdgeKey}

theorem mem_playings {playing : ReplayGame × ℕ} : playing ∈ playings rules maxRootPly games key ↔
    playing.1 ∈ games ∧ leastPly (coveredEdges rules maxRootPly playing.1) key = some playing.2 := by
  obtain ⟨game, ply⟩ := playing
  rw [playings, List.mem_filterMap]
  constructor
  · rintro ⟨other, hother, hply⟩
    obtain ⟨p, hp, heq⟩ := Option.map_eq_some_iff.mp hply
    obtain ⟨rfl, rfl⟩ := Prod.mk.inj heq
    exact ⟨hother, hp⟩
  · rintro ⟨hgame, hply⟩
    refine ⟨game, hgame, ?_⟩
    rw [hply]
    rfl

theorem map_fst_playings :
    (playings rules maxRootPly games key).map Prod.fst = takers rules maxRootPly games key := by
  induction games with
  | nil => rfl
  | cons game games ih =>
    rw [playings] at ih ⊢
    rw [takers] at ih ⊢
    rw [List.filterMap_cons, List.filter_cons]
    cases hply : leastPly (coveredEdges rules maxRootPly game) key with
    | none =>
      have hnot := (total_eq_none min).mp hply
      rw [if_neg (by simpa using hnot)]
      exact ih
    | some ply =>
      have hmem := List.mem_map_of_mem (f := Prod.fst) (mem_of_leastPly hply)
      rw [if_pos (decide_eq_true hmem)]
      exact congrArg (game :: ·) ih

private theorem min?_map_snd_playings : ((playings rules maxRootPly games key).map Prod.snd).min? =
    leastPly (games.flatMap (coveredEdges rules maxRootPly)) key := by
  induction games with
  | nil => rfl
  | cons game games ih =>
    have hrest : leastPly (coveredEdges rules maxRootPly game ++
        games.flatMap (coveredEdges rules maxRootPly)) key =
        Option.merge min (leastPly (coveredEdges rules maxRootPly game) key)
          (leastPly (games.flatMap (coveredEdges rules maxRootPly)) key) := total_append ..
    rw [List.flatMap_cons, hrest, ← ih, playings, List.filterMap_cons]
    cases hply : leastPly (coveredEdges rules maxRootPly game) key with
    | none =>
      rw [Option.merge_none_left]
      rfl
    | some ply =>
      show ((ply :: (playings rules maxRootPly games key).map Prod.snd)).min? = _
      rw [List.min?_cons]
      cases ((playings rules maxRootPly games key).map Prod.snd).min? <;> rfl

theorem referenceAgg_eq : referenceAgg rules maxRootPly games key =
    statisticsOf ((playings rules maxRootPly games key).map Prod.fst)
      (((playings rules maxRootPly games key).map Prod.snd).min?.getD 0) := by
  rw [map_fst_playings, min?_map_snd_playings]
  rfl

theorem mem_referenceEdges_iff {hash : ℕ} : key ∈ referenceEdges rules maxRootPly games hash ↔
    playings rules maxRootPly games key ≠ [] ∧ key.rootHash = hash := by
  rw [mem_referenceEdges, ← map_fst_playings, Ne, List.map_eq_nil_iff]

theorem statisticsOf_concat {played : List ReplayGame} (hne : played ≠ []) (game : ReplayGame)
    (rootPly rootPly' : ℕ) : statisticsOf (played ++ [game]) (min rootPly rootPly') =
      mergeEdgeAgg (statisticsOf played rootPly) (statisticsOf [game] rootPly') := by
  induction played with
  | nil => exact absurd rfl hne
  | cons first played ih =>
    by_cases hrest : played = []
    · subst hrest
      exact statisticsOf_cons (List.cons_ne_nil _ _) rootPly rootPly'
    · have hmin : min rootPly rootPly' = min rootPly (min rootPly rootPly') := by omega
      have hsplit : statisticsOf (first :: played) rootPly =
          mergeEdgeAgg (statisticsOf [first] rootPly) (statisticsOf played rootPly) := by
        have hcons : statisticsOf (first :: played) (min rootPly rootPly) =
            mergeEdgeAgg (statisticsOf [first] rootPly) (statisticsOf played rootPly) :=
          statisticsOf_cons hrest rootPly rootPly
        rwa [Nat.min_self] at hcons
      rw [List.cons_append, hmin, statisticsOf_cons (by simp), ih hrest, hsplit]
      have hassoc : ∀ a b c : EdgeAgg, mergeEdgeAgg (mergeEdgeAgg a b) c =
          mergeEdgeAgg a (mergeEdgeAgg b c) := Std.Associative.assoc
      exact (hassoc _ _ _).symm

end Playings

section Coverage

variable {rules : Chess.Rules} {maxRootPly : ℕ} {games : List ReplayGame} {hash : ℕ}

/-- Every edge is played between the position after some of the moves and the next. -/
theorem mem_playedFrom_iff {board : rules.Board} {ply : ℕ} {moves : List UInt16} {key : EdgeKey}
    {p : ℕ} : (key, p) ∈ playedFrom rules board ply moves ↔ ∃ k encodedMove,
      moves[k]? = some encodedMove ∧ p = ply + k ∧
      key = ⟨(rules.hash (rules.play board (moves.take k))).toNat, encodedMove.toNat,
        (rules.hash (rules.play board (moves.take (k + 1)))).toNat⟩ := by
  induction moves generalizing board ply with
  | nil => simp [playedFrom]
  | cons encodedMove moves ih =>
    rw [playedFrom, List.mem_cons, ih]
    constructor
    · rintro (heq | ⟨k, other, hother, rfl, rfl⟩)
      · obtain ⟨rfl, rfl⟩ := Prod.mk.inj heq
        exact ⟨0, encodedMove, rfl, rfl, rfl⟩
      · exact ⟨k + 1, other, hother, by omega, rfl⟩
    · rintro ⟨k, other, hother, rfl, rfl⟩
      cases k with
      | zero =>
        obtain rfl := Option.some.inj hother
        exact .inl rfl
      | succ k => exact .inr ⟨k, other, hother, by omega, rfl⟩

theorem leastPly_coveredEdges {game : ReplayGame} {key : EdgeKey}
    (h : ∀ p, (key, p) ∈ playedFrom rules rules.start 0 game.moves →
      p ≤ maxRootPly ∨ key.rootHash = fullCoverageRootHash rules) :
    leastPly (coveredEdges rules maxRootPly game) key =
      leastPly (playedFrom rules rules.start 0 game.moves) key := by
  rw [coveredEdges, leastPly_filter]
  rintro ⟨k, p⟩ hmem rfl
  exact decide_eq_true (h p hmem)

/-- No playing of a continuation of the position lies above the cap. -/
def Uncapped (rules : Chess.Rules) (maxRootPly : ℕ) (games : List ReplayGame) (hash : ℕ) : Prop :=
  hash = fullCoverageRootHash rules ∨ ∀ game ∈ games, ∀ key p,
    (key, p) ∈ playedFrom rules rules.start 0 game.moves → key.rootHash = hash → p ≤ maxRootPly

theorem uncapped_uint16Max (hmoves : ∀ game ∈ games, game.moves.length ≤ 2 ^ 16) :
    Uncapped rules uint16Max games hash := by
  refine .inr fun game hgame key p hmem _ => ?_
  have hlt := (mem_playedFrom hmem).1
  have hlength := hmoves game hgame
  rw [uint16Max]
  omega

theorem Uncapped.playings_eq {maxRootPly' : ℕ} (h : Uncapped rules maxRootPly games hash)
    (h' : Uncapped rules maxRootPly' games hash) {key : EdgeKey} (hroot : key.rootHash = hash) :
    playings rules maxRootPly games key = playings rules maxRootPly' games key := by
  have hleast : ∀ cap, Uncapped rules cap games hash → ∀ game ∈ games,
      leastPly (coveredEdges rules cap game) key =
        leastPly (playedFrom rules rules.start 0 game.moves) key := by
    intro cap hcap game hgame
    refine leastPly_coveredEdges fun p hmem => ?_
    rcases hcap with hstart | hbelow
    · exact .inr (hroot.trans hstart)
    · exact .inl (hbelow game hgame key p hmem hroot)
  refine List.filterMap_congr fun game hgame => ?_
  rw [hleast _ h game hgame, hleast _ h' game hgame]

theorem referenceEdges_congr {maxRootPly' : ℕ} {games' : List ReplayGame}
    (h : ∀ key : EdgeKey, key.rootHash = hash →
      playings rules maxRootPly games key = playings rules maxRootPly' games' key) :
    referenceEdges rules maxRootPly games hash = referenceEdges rules maxRootPly' games' hash := by
  refine PositionPostings.eq_of_pairwise_lt (pairwise_referenceEdges _ _ _)
    (pairwise_referenceEdges _ _ _) fun key => ?_
  rw [mem_referenceEdges_iff, mem_referenceEdges_iff]
  constructor
  · rintro ⟨hne, hroot⟩
    exact ⟨h key hroot ▸ hne, hroot⟩
  · rintro ⟨hne, hroot⟩
    exact ⟨(h key hroot).symm ▸ hne, hroot⟩

theorem referenceAgg_congr {maxRootPly' : ℕ} {games' : List ReplayGame} {key : EdgeKey}
    (h : playings rules maxRootPly games key = playings rules maxRootPly' games' key) :
    referenceAgg rules maxRootPly games key = referenceAgg rules maxRootPly' games' key := by
  rw [referenceAgg_eq, referenceAgg_eq, h]

end Coverage

end MotifChess.Db.OpeningTreeIndex
