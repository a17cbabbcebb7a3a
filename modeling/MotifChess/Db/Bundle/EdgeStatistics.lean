/- GID: MotifChess/Db/Bundle/EdgeStatistics
   generality: implementation
   digest: Adding up the contributions of a position gives the statistics of the playing games. -/

import MotifChess.Db.Bundle.Contributions
import MotifChess.Db.Bundle.EloSamples
import MotifChess.Db.OpeningTreeIndex.Answers

set_option autoImplicit false
set_option relaxedAutoImplicit false

namespace MotifChess.Db

open MotifChess.Order OpeningTreeIndex PositionPostings

section Widths

variable {α : Type} [LE α] [DecidableLE α] {f : ℕ → α} {m n : ℕ}

private theorem map_min_of_le (h : f m ≤ f n ↔ m ≤ n) : f (min m n) = @min α minOfLe (f m) (f n) := by
  by_cases hle : m ≤ n
  · rw [Nat.min_eq_left hle]
    exact (if_pos (h.mpr hle)).symm
  · rw [Nat.min_eq_right (Nat.le_of_not_le hle)]
    exact (if_neg (mt h.mp hle)).symm

private theorem map_max_of_le (h : f m ≤ f n ↔ m ≤ n) : f (max m n) = @max α maxOfLe (f m) (f n) := by
  by_cases hle : m ≤ n
  · rw [Nat.max_eq_right hle]
    exact (if_pos (h.mpr hle)).symm
  · rw [Nat.max_eq_left (Nat.le_of_not_le hle)]
    exact (if_neg (mt h.mp hle)).symm

private theorem uint16_ofNat_le (hm : m < 2 ^ 16) (hn : n < 2 ^ 16) :
    UInt16.ofNat m ≤ UInt16.ofNat n ↔ m ≤ n := by
  rw [UInt16.le_iff_toNat_le, UInt16.toNat_ofNat_of_lt' hm, UInt16.toNat_ofNat_of_lt' hn]

private theorem uint32_ofNat_le (hm : m < 2 ^ 32) (hn : n < 2 ^ 32) :
    UInt32.ofNat m ≤ UInt32.ofNat n ↔ m ≤ n := by
  rw [UInt32.le_iff_toNat_le, UInt32.toNat_ofNat_of_lt' hm, UInt32.toNat_ofNat_of_lt' hn]

end Widths

section Sums

/-- Statistics as the aggregate that holds them. -/
def ExactEdgeAggregate.ofAgg (agg : EdgeAgg) : ExactEdgeAggregate where
  rootPly := UInt16.ofNat agg.rootPly
  frequency := agg.frequency
  whiteWins := agg.whiteWins
  draws := agg.draws
  blackWins := agg.blackWins
  whiteEloSum := agg.whiteEloSum
  whiteEloCount := agg.whiteEloCount
  blackEloSum := agg.blackEloSum
  blackEloCount := agg.blackEloCount
  weightedContribSum := agg.weightedContribSum
  eloWeightSum := agg.eloWeightSum
  ecoSampleMin := UInt32.ofNat agg.ecoSampleMin
  ecoSampleMax := UInt32.ofNat agg.ecoSampleMax

/-- A playing whose numbers the postings take. -/
structure Narrowable (playing : ReplayGame × ℕ) : Prop where
  ply : playing.2 < 2 ^ 16
  id : playing.1.id < 2 ^ 32
  whiteElo : ∃ narrowed, narrowElo playing.1.whiteElo = .ok narrowed
  blackElo : ∃ narrowed, narrowElo playing.1.blackElo = .ok narrowed

variable {playing : ReplayGame × ℕ}

private theorem noteResult_eq (a : ExactEdgeAggregate) (game : ReplayGame) (rootPly : ℕ) :
    a.noteResult (resultCode game.result) = { a with
      whiteWins := a.whiteWins + (statisticsOf [game] rootPly).whiteWins
      draws := a.draws + (statisticsOf [game] rootPly).draws
      blackWins := a.blackWins + (statisticsOf [game] rootPly).blackWins } := by
  show a.noteResult (mapResult game.result) = _
  simp only [statisticsOf, List.countP_singleton]
  generalize mapResult game.result = code
  rw [ExactEdgeAggregate.noteResult]
  rcases lt_trichotomy code 0 with hlost | rfl | hwon
  · simp [hlost, hlost.not_gt, hlost.ne]
  · simp
  · simp [hwon, hwon.not_gt, hwon.ne']

private theorem noteElo_eq (h : Narrowable playing) (a : ExactEdgeAggregate) (rootPly : ℕ) :
    a.noteElo (playedMatch playing) = { a with
      whiteEloSum := a.whiteEloSum + (statisticsOf [playing.1] rootPly).whiteEloSum
      whiteEloCount := a.whiteEloCount + (statisticsOf [playing.1] rootPly).whiteEloCount
      blackEloSum := a.blackEloSum + (statisticsOf [playing.1] rootPly).blackEloSum
      blackEloCount := a.blackEloCount + (statisticsOf [playing.1] rootPly).blackEloCount
      weightedContribSum :=
        a.weightedContribSum + (statisticsOf [playing.1] rootPly).weightedContribSum
      eloWeightSum := a.eloWeightSum + (statisticsOf [playing.1] rootPly).eloWeightSum } := by
  obtain ⟨white, hwhite⟩ := h.whiteElo
  obtain ⟨black, hblack⟩ := h.blackElo
  obtain ⟨⟨id, result, whiteElo, blackElo, moves⟩, ply⟩ := playing
  dsimp only at hwhite hblack
  rw [playedMatch]
  dsimp only
  rw [hwhite, hblack]
  simp only [statisticsOf, averageEloOf, List.map_singleton, List.countP_singleton,
    List.sum_singleton, mapResult, Except.toOption, Option.join_some]
  rcases narrowElo_cases hwhite with ⟨rfl, rfl⟩ | ⟨wide, short, rfl, rfl, hvalue⟩ <;>
    rcases narrowElo_cases hblack with ⟨rfl, rfl⟩ | ⟨wide', short', rfl, rfl, hvalue'⟩ <;>
    simp_all [ExactEdgeAggregate.noteElo]

private theorem add_playedContribution (h : Narrowable playing) (a : ExactEdgeAggregate) :
    a.add (UInt32.ofNat playing.1.id) (playedContribution playing) =
      let one := ExactEdgeAggregate.ofAgg (statisticsOf [playing.1] playing.2)
      { rootPly := if a.frequency = 0 then one.rootPly else min a.rootPly one.rootPly
        frequency := a.frequency + one.frequency
        whiteWins := a.whiteWins + one.whiteWins
        draws := a.draws + one.draws
        blackWins := a.blackWins + one.blackWins
        whiteEloSum := a.whiteEloSum + one.whiteEloSum
        whiteEloCount := a.whiteEloCount + one.whiteEloCount
        blackEloSum := a.blackEloSum + one.blackEloSum
        blackEloCount := a.blackEloCount + one.blackEloCount
        weightedContribSum := a.weightedContribSum + one.weightedContribSum
        eloWeightSum := a.eloWeightSum + one.eloWeightSum
        ecoSampleMin := if a.frequency = 0 then one.ecoSampleMin else min a.ecoSampleMin one.ecoSampleMin
        ecoSampleMax := if a.frequency = 0 then one.ecoSampleMax
          else max a.ecoSampleMax one.ecoSampleMax } := by
  have hply : ∀ ply : UInt16, min ply ply = ply := fun ply => ite_self ply
  have hmin : ∀ id : UInt32, min id id = id := fun id => ite_self id
  have hmax : ∀ id : UInt32, max id id = id := fun id => ite_self id
  have hmatch : (playedContribution playing).found = playedMatch playing := rfl
  have hresult : (playedMatch playing).result = resultCode playing.1.result := rfl
  rw [ExactEdgeAggregate.add]
  dsimp only
  rw [hmatch, hresult, noteResult_eq _ _ playing.2, noteElo_eq h _ playing.2]
  by_cases hfirst : a.frequency = 0
  · simp only [hfirst, if_true, hply, hmin, hmax]
    rfl
  · simp only [hfirst, if_false]
    rfl

/-- Statistics hold ids and plies of the program's widths, and some game. -/
structure OpeningTreeIndex.EdgeAgg.Narrow (agg : EdgeAgg) : Prop where
  rootPly : agg.rootPly < 2 ^ 16
  ecoSampleMin : agg.ecoSampleMin < 2 ^ 32
  ecoSampleMax : agg.ecoSampleMax < 2 ^ 32
  frequency : agg.frequency ≠ 0

private theorem add_first (h : Narrowable playing) :
    ({} : ExactEdgeAggregate).add (UInt32.ofNat playing.1.id) (playedContribution playing) =
      .ofAgg (statisticsOf [playing.1] playing.2) := by
  rw [add_playedContribution h]
  simp [ExactEdgeAggregate.ofAgg]

private theorem add_next (h : Narrowable playing) {agg : EdgeAgg} (hagg : agg.Narrow) :
    (ExactEdgeAggregate.ofAgg agg).add (UInt32.ofNat playing.1.id) (playedContribution playing) =
      .ofAgg (mergeEdgeAgg agg (statisticsOf [playing.1] playing.2)) := by
  have hply : (statisticsOf [playing.1] playing.2).rootPly = playing.2 := rfl
  have hmin : (statisticsOf [playing.1] playing.2).ecoSampleMin = playing.1.id := rfl
  have hmax : (statisticsOf [playing.1] playing.2).ecoSampleMax = playing.1.id := rfl
  have hfrequency : (ExactEdgeAggregate.ofAgg agg).frequency ≠ 0 := hagg.frequency
  rw [add_playedContribution h]
  simp only [hfrequency, if_false]
  unfold ExactEdgeAggregate.ofAgg mergeEdgeAgg
  dsimp only
  rw [hply, hmin, hmax, map_min_of_le (uint16_ofNat_le hagg.rootPly h.ply),
    map_min_of_le (uint32_ofNat_le hagg.ecoSampleMin h.id),
    map_max_of_le (uint32_ofNat_le hagg.ecoSampleMax h.id)]

variable {l : List (ReplayGame × ℕ)}

/-- The statistics of the games of some playings, at the lowest of their plies. -/
def statisticsOfPlayings (l : List (ReplayGame × ℕ)) : EdgeAgg :=
  statisticsOf (l.map Prod.fst) ((l.map Prod.snd).min?.getD 0)

private theorem min?_concat {plies : List ℕ} {least : ℕ} (h : plies.min? = some least) (ply : ℕ) :
    (plies ++ [ply]).min? = some (min least ply) := by
  obtain ⟨hmem, hle⟩ := List.min?_eq_some_iff.mp h
  refine List.min?_eq_some_iff.mpr ⟨?_, fun other hother => ?_⟩
  · rcases Nat.le_total least ply with hlow | hlow
    · rw [Nat.min_eq_left hlow]
      exact List.mem_append_left _ hmem
    · rw [Nat.min_eq_right hlow]
      exact List.mem_append_right _ List.mem_cons_self
  · rcases List.mem_append.mp hother with hmem' | hmem'
    · exact (Nat.min_le_left _ _).trans (hle other hmem')
    · rw [List.mem_singleton.mp hmem']
      exact Nat.min_le_right _ _

theorem exists_min? {l : List ℕ} (hne : l ≠ []) : ∃ least, l.min? = some least :=
  Option.ne_none_iff_exists'.mp (mt List.min?_eq_none_iff.mp hne)

theorem exists_max? {l : List ℕ} (hne : l ≠ []) : ∃ greatest, l.max? = some greatest :=
  Option.ne_none_iff_exists'.mp (mt List.max?_eq_none_iff.mp hne)

private theorem statisticsOfPlayings_concat (hne : l ≠ []) (playing : ReplayGame × ℕ) :
    statisticsOfPlayings (l ++ [playing]) =
      mergeEdgeAgg (statisticsOfPlayings l) (statisticsOf [playing.1] playing.2) := by
  have hgames : l.map Prod.fst ≠ [] := mt List.map_eq_nil_iff.mp hne
  obtain ⟨least, hleast⟩ := exists_min? (mt List.map_eq_nil_iff.mp hne : l.map Prod.snd ≠ [])
  rw [statisticsOfPlayings, statisticsOfPlayings, List.map_append, List.map_append, List.map_singleton,
    List.map_singleton, min?_concat hleast, hleast, Option.getD_some, Option.getD_some,
    statisticsOf_concat hgames]

private theorem narrow_statisticsOfPlayings (hne : l ≠ []) (hlength : l.length ≤ uint32Max)
    (h : ∀ playing ∈ l, Narrowable playing) : (statisticsOfPlayings l).Narrow := by
  have hids : (l.map Prod.fst).map ReplayGame.id ≠ [] := by simpa using hne
  obtain ⟨ply, hply⟩ := exists_min? (mt List.map_eq_nil_iff.mp hne : l.map Prod.snd ≠ [])
  obtain ⟨least, hleast⟩ := exists_min? hids
  obtain ⟨greatest, hgreatest⟩ := exists_max? hids
  have hid : ∀ id ∈ (l.map Prod.fst).map ReplayGame.id, id < 2 ^ 32 := by
    intro id hid
    rw [List.map_map] at hid
    obtain ⟨playing, hplaying, rfl⟩ := List.mem_map.mp hid
    exact (h playing hplaying).id
  refine ⟨?_, ?_, ?_, ?_⟩
  · obtain ⟨playing, hplaying, hsame⟩ := List.mem_map.mp (List.min?_mem hply)
    rw [statisticsOfPlayings, hply, Option.getD_some, ← hsame]
    exact (h playing hplaying).ply
  · show ((l.map Prod.fst).map ReplayGame.id).min?.getD 0 < 2 ^ 32
    rw [hleast, Option.getD_some]
    exact hid least (List.min?_mem hleast)
  · show ((l.map Prod.fst).map ReplayGame.id).max?.getD 0 < 2 ^ 32
    rw [hgreatest, Option.getD_some]
    exact hid greatest (List.max?_mem hgreatest)
  · show UInt32.ofNat (l.map Prod.fst).length ≠ 0
    have hpos := List.length_pos_iff.mpr hne
    rw [List.length_map, Ne, ← UInt32.toNat_inj, toNat_ofNat_of_le hlength]
    show ¬l.length = 0
    omega

private theorem foldl_playedEntry (edge : UInt16 × UInt64) (hlength : l.length ≤ uint32Max)
    (h : ∀ playing ∈ l, Narrowable playing) :
    (l.map (playedEntry edge)).foldl (fun a (entry : ContributionKey × DirectContribution) =>
        some ((a.getD {}).add entry.1.1 entry.2)) none =
      if l = [] then none else some (ExactEdgeAggregate.ofAgg (statisticsOfPlayings l)) := by
  induction l using List.reverseRecOn with
  | nil => rfl
  | append_singleton l playing ih =>
    have hlast := h playing (List.mem_append_right l List.mem_cons_self)
    have hrest : ∀ other ∈ l, Narrowable other := fun other hother =>
      h other (List.mem_append_left _ hother)
    rw [List.length_append, List.length_singleton] at hlength
    have hnonempty : l ++ [playing] ≠ [] := by simp
    rw [List.map_append, List.foldl_append, ih (by omega) hrest, if_neg hnonempty]
    by_cases hne : l = []
    · subst hne
      exact congrArg some (add_first hlast)
    · rw [if_neg hne, statisticsOfPlayings_concat hne]
      exact congrArg some
        (add_next hlast (narrow_statisticsOfPlayings hne (by omega) hrest))

end Sums

section Edges

/-- The edge under which a map keeps a continuation. -/
def edgeOf (key : EdgeKey) : UInt16 × UInt64 :=
  (UInt16.ofNat key.encodedMove, UInt64.ofNat key.childHash)

@[simp] theorem edgeOf_edgeFrom (hash : UInt64) (edge : UInt16 × UInt64) :
    edgeOf (edgeFrom hash edge) = edge := by
  rw [edgeOf, edgeFrom, UInt16.ofNat_toNat, UInt64.ofNat_toNat]

variable {rules : Chess.Rules} {t : Tables} {allowedGameIds : List UInt32} {hash : UInt64}

theorem edgeFrom_edgeOf {maxRootPly : ℕ} {games : List ReplayGame} {key : EdgeKey}
    (h : key ∈ referenceEdges rules maxRootPly games hash.toNat) : edgeFrom hash (edgeOf key) = key := by
  obtain ⟨htakers, hroot⟩ := mem_referenceEdges.mp h
  obtain ⟨ply, -, game, -, hcovered⟩ := exists_leastPly htakers
  obtain ⟨-, hmove, -, hchild, -⟩ := mem_playedFrom (List.mem_filter.mp hcovered).1
  obtain ⟨rootHash, encodedMove, childHash⟩ := key
  have hchild' := lt_of_mem_hashesAfter hchild
  rw [edgeOf, edgeFrom, EdgeKey.mk.injEq]
  exact ⟨hroot.symm, UInt16.toNat_ofNat_of_lt' hmove, UInt64.toNat_ofNat_of_lt' hchild'⟩

private theorem compareEdges_of_lt {key key' : EdgeKey} (hkey : edgeFrom hash (edgeOf key) = key)
    (hkey' : edgeFrom hash (edgeOf key') = key') (hlt : key < key') :
    compareEdges (edgeOf key) (edgeOf key') = .lt := by
  rw [← hkey, ← hkey'] at hlt
  generalize edgeOf key = edge at hlt ⊢
  generalize edgeOf key' = edge' at hlt ⊢
  have hlex : toLex (hash.toNat, toLex (edge.1.toNat, edge.2.toNat)) <
    toLex (hash.toNat, toLex (edge'.1.toNat, edge'.2.toNat)) := hlt
  rcases Prod.Lex.toLex_lt_toLex.mp hlex with hroot | ⟨-, hrest⟩
  · exact absurd hroot (lt_irrefl _)
  · rw [compareEdges]
    rcases Prod.Lex.toLex_lt_toLex.mp hrest with hmove | ⟨hmove, hchild⟩
    · rw [Std.compare_eq_lt.mpr (UInt16.lt_iff_toNat_lt.mpr hmove)]
      rfl
    · have hsame : compare edge'.1 edge'.1 = .eq := Std.ReflCmp.compare_self
      rw [UInt16.toNat_inj.mp hmove, hsame, Std.compare_eq_lt.mpr (UInt64.lt_iff_toNat_lt.mpr hchild)]
      rfl

private theorem length_playings_le (rules : Chess.Rules) (maxRootPly : ℕ) (games : List ReplayGame)
    (key : EdgeKey) : (playings rules maxRootPly games key).length ≤ games.length :=
  List.length_filterMap_le _ _

private theorem narrowable_of_mem_playings (h : Replayed rules t.replayGames) (hfit : t.IdsFit) {key : EdgeKey}
    {playing : ReplayGame × ℕ} (hplaying : playing ∈ playings rules uint16Max
      (allowedGames t.replayGames allowedGameIds) key) : Narrowable playing := by
  obtain ⟨hallowed, hplayed, -⟩ := (mem_playings_iff h).mp hplaying
  have hgame := List.mem_of_mem_filter hallowed
  obtain ⟨call, hcall⟩ := h.rows _ hgame
  obtain ⟨hlength, whiteElo, blackElo, hwhite, hblack, -, -⟩ := mem_replayRows hcall
  have hlt := (mem_playedFrom hplayed).1
  refine ⟨by omega, ?_, ⟨whiteElo, hwhite⟩, ⟨blackElo, hblack⟩⟩
  rw [← toNat_id_replayGames hfit hgame]
  exact UInt32.toNat_lt _

private theorem getElem?_aggregateExactly (h : Replayed rules t.replayGames) (hfit : t.IdsFit)
    (hlength : t.replayGames.length < 2 ^ 32) (hsorted : (allowedGameIds.map UInt32.toNat).SortedLE)
    (edge : UInt16 × UInt64) :
    (aggregateExactly (contributionsAt rules t hash allowedGameIds))[edge]? =
      if edgeFrom hash edge ∈
          referenceEdges rules uint16Max (allowedGames t.replayGames allowedGameIds) hash.toNat then
        some (ExactEdgeAggregate.ofAgg (referenceAgg rules uint16Max
          (allowedGames t.replayGames allowedGameIds) (edgeFrom hash edge)))
      else none := by
  have htally : aggregateExactly (contributionsAt rules t hash allowedGameIds) =
      tally compareEdges (fun entry => entry.1.2)
        (fun entry a => (a.getD {}).add entry.1.1 entry.2)
        (contributionsAt rules t hash allowedGameIds).toList := rfl
  have hplayings : (playings rules uint16Max (allowedGames t.replayGames allowedGameIds)
      (edgeFrom hash edge)).length ≤ uint32Max := by
    have hgames : (allowedGames t.replayGames allowedGameIds).length ≤ t.replayGames.length :=
      List.length_filter_le _ _
    have hplayings := length_playings_le rules uint16Max
      (allowedGames t.replayGames allowedGameIds) (edgeFrom hash edge)
    rw [uint32Max]
    omega
  rw [htally, getElem?_tally, filter_contributionsAt h hfit hsorted,
    foldl_playedEntry edge hplayings fun playing => narrowable_of_mem_playings h hfit]
  by_cases hnone : playings rules uint16Max (allowedGames t.replayGames allowedGameIds)
      (edgeFrom hash edge) = []
  · rw [if_pos hnone, if_neg fun hmem => (mem_referenceEdges_iff.mp hmem).1 hnone]
  · have hmem : edgeFrom hash edge ∈ referenceEdges rules uint16Max
        (allowedGames t.replayGames allowedGameIds) hash.toNat :=
      mem_referenceEdges_iff.mpr ⟨hnone, rfl⟩
    rw [if_neg hnone, if_pos hmem, referenceAgg_eq]
    rfl

theorem toList_aggregateExactly (h : Replayed rules t.replayGames) (hfit : t.IdsFit)
    (hlength : t.replayGames.length < 2 ^ 32)
    (hsorted : (allowedGameIds.map UInt32.toNat).SortedLE) :
    (aggregateExactly (contributionsAt rules t hash allowedGameIds)).toList =
      (referenceEdges rules uint16Max (allowedGames t.replayGames allowedGameIds) hash.toNat).map
        fun key => (edgeOf key, ExactEdgeAggregate.ofAgg
          (referenceAgg rules uint16Max (allowedGames t.replayGames allowedGameIds) key)) := by
  refine eq_of_ascending Std.TreeMap.ordered_keys_toList ?_ ?_
  · rw [List.pairwise_map]
    refine (pairwise_referenceEdges _ _ _).imp_of_mem fun {key key'} hkey hkey' hlt => ?_
    exact compareEdges_of_lt (edgeFrom_edgeOf hkey) (edgeFrom_edgeOf hkey') hlt
  · rintro ⟨edge, a⟩
    rw [Std.TreeMap.mem_toList_iff_getElem?_eq_some,
      getElem?_aggregateExactly h hfit hlength hsorted, List.mem_map]
    constructor
    · intro hfound
      split at hfound
      next hmem =>
        obtain rfl := Option.some.inj hfound
        exact ⟨_, hmem, by rw [edgeOf_edgeFrom]⟩
      next => cases hfound
    · rintro ⟨key, hkey, heq⟩
      obtain ⟨rfl, rfl⟩ := Prod.mk.inj heq
      rw [edgeFrom_edgeOf hkey, if_pos hkey]

end Edges

end MotifChess.Db
