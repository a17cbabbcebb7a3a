/- GID: MotifChess/Db/Bundle/Contributions
   generality: implementation
   digest: What the postings hand over of a position is one playing of each edge for each game. -/

import MotifChess.Db.Bundle.OpeningStats
import MotifChess.Db.OpeningTreeIndex.Playings
import MotifChess.Db.PositionPostings.GamePositions
import MotifChess.Order.Tally

set_option autoImplicit false
set_option relaxedAutoImplicit false

namespace MotifChess.Db

open MotifChess.Order OpeningTreeIndex PositionPostings

section Keys

private theorem compareContributions_eq : compareContributions =
    compareLex (compareOn Prod.fst) (compareLex (compareOn fun key => key.2.1)
      (compareOn fun key => key.2.2)) := rfl

private theorem compareEdges_eq : compareEdges = compareLex (compareOn Prod.fst) (compareOn Prod.snd) := rfl

instance : Std.TransCmp compareContributions := by
  rw [compareContributions_eq]
  infer_instance

instance : Std.TransCmp compareEdges := by
  rw [compareEdges_eq]
  infer_instance

instance : Std.LawfulEqCmp compareEdges where
  eq_of_compare {a b} h := by
    rw [compareEdges_eq] at h
    obtain ⟨hmove, hchild⟩ := compareLex_eq_eq.mp h
    exact Prod.ext (Std.LawfulEqCmp.eq_of_compare hmove) (Std.LawfulEqCmp.eq_of_compare hchild)

instance : Std.LawfulEqCmp compareContributions where
  eq_of_compare {a b} h := by
    rw [compareContributions_eq] at h
    obtain ⟨hgame, hedge⟩ := compareLex_eq_eq.mp h
    have hsame : compareEdges a.2 b.2 = .eq := hedge
    exact Prod.ext (Std.LawfulEqCmp.eq_of_compare hgame) (Std.LawfulEqCmp.eq_of_compare hsame)

/-- The edge of a map as one from the position. -/
def edgeFrom (hash : UInt64) (edge : UInt16 × UInt64) : EdgeKey :=
  ⟨hash.toNat, edge.1.toNat, edge.2.toNat⟩

end Keys

section Records

variable (rules : Chess.Rules) (allowedGameIds : List UInt32) (contexts : List (UInt32 × List UInt16))

/-- What an occurrence adds under its key, when its game is allowed and goes on. -/
def contributionRecord (o : PositionMatch) : Option (ContributionKey × DirectContribution) :=
  if Bisection.binarySearch UInt32.toNat allowedGameIds o.gameId.toNat then do
    let moves ← contexts.lookup o.gameId
    let encodedMove ← moves[o.ply.toNat]?
    return ((o.gameId, encodedMove,
      rules.hash (rules.play rules.start (moves.take (o.ply + 1).toNat))), ⟨o.ply, o⟩)
  else none

def contributionRecords (occurrences : List PositionMatch) :
    List (ContributionKey × DirectContribution) :=
  occurrences.filterMap (contributionRecord rules allowedGameIds contexts)

/-- One contribution for each key, of the lowest ply. -/
def leastContributions (records : List (ContributionKey × DirectContribution)) :
    DirectContributions :=
  tally compareContributions Prod.fst
    (fun record held => keepLeast (fun d : DirectContribution => d.rootPly.toNat) record.2 held) records

variable {rules allowedGameIds contexts}

private theorem addContribution_eq (contributions : DirectContributions) (o : PositionMatch) :
    addContribution rules allowedGameIds contexts contributions o =
      .ok ((contributionRecord rules allowedGameIds contexts o).elim contributions fun record =>
        contributions.alter record.1 fun held =>
          some (keepLeast (fun d : DirectContribution => d.rootPly.toNat) record.2 held)) := by
  unfold addContribution contributionRecord
  cases Bisection.binarySearch UInt32.toNat allowedGameIds o.gameId.toNat with
  | false => rfl
  | true =>
    simp only [Bool.not_true, Bool.false_eq_true, if_false, if_true]
    cases contexts.lookup o.gameId with
    | none => rfl
    | some moves =>
      dsimp only
      rw [Option.bind_eq_bind, Option.bind_some]
      cases hmove : moves[o.ply.toNat]? with
      | none => rfl
      | some encodedMove =>
        obtain ⟨hlt, -⟩ := List.getElem?_eq_some_iff.mp hmove
        have hply : ¬moves.length < (o.ply + 1).toNat := by
          rw [UInt16.toNat_add]
          have hone : (1 : UInt16).toNat = 1 := rfl
          have hmod := Nat.mod_le (o.ply.toNat + (1 : UInt16).toNat) (2 ^ 16)
          omega
        rw [Chess.Rules.replay, if_neg hply]
        refine congrArg Except.ok (congrArg (contributions.alter _) ?_)
        funext held
        cases held with
        | none => rfl
        | some held => exact congrArg some (if_congr UInt16.lt_iff_toNat_lt rfl rfl)

theorem foldlM_addContribution (occurrences : List PositionMatch) :
    occurrences.foldlM (addContribution rules allowedGameIds contexts) ∅ =
      .ok (leastContributions (contributionRecords rules allowedGameIds contexts occurrences)) := by
  rw [leastContributions, tally, contributionRecords]
  generalize (∅ : DirectContributions) = contributions
  induction occurrences generalizing contributions with
  | nil => rfl
  | cons o occurrences ih =>
    rw [List.foldlM_cons, addContribution_eq, ok_bind, ih, List.filterMap_cons]
    cases contributionRecord rules allowedGameIds contexts o <;> rfl

private theorem getElem?_leastContributions {records : List (ContributionKey × DirectContribution)}
    {key : ContributionKey} {d : DirectContribution} (h : (leastContributions records)[key]? = some d) :
    (key, d) ∈ records ∧ ∀ other, (key, other) ∈ records →
      d.rootPly.toNat ≤ other.rootPly.toNat := by
  rw [leastContributions, getElem?_tally] at h
  have hmap : ((records.filter fun record => record.1 = key).map Prod.snd).foldl
      (fun held d => some (keepLeast (fun d : DirectContribution => d.rootPly.toNat) d held)) none =
      some d := by
    rw [List.foldl_map]
    exact h
  obtain ⟨hmem, hleast⟩ := foldl_keepLeast hmap
  have hiff : ∀ other, other ∈ (records.filter fun record => record.1 = key).map Prod.snd ↔
      (key, other) ∈ records := by
    intro other
    rw [List.mem_map]
    constructor
    · rintro ⟨⟨k, o⟩, hfiltered, rfl⟩
      obtain ⟨hrecord, hkey⟩ := List.mem_filter.mp hfiltered
      have hsame : k = key := of_decide_eq_true hkey
      exact hsame ▸ hrecord
    · intro hrecord
      exact ⟨(key, other), List.mem_filter.mpr ⟨hrecord, decide_eq_true rfl⟩, rfl⟩
  exact ⟨(hiff d).mp hmem, fun other hother => hleast other ((hiff other).mpr hother)⟩

end Records

section Playings

/-- What the postings say of a game at the ply of a playing. -/
def playedMatch (playing : ReplayGame × ℕ) : PositionMatch :=
  ⟨UInt32.ofNat playing.1.id, UInt16.ofNat playing.2, resultCode playing.1.result,
    (narrowElo playing.1.whiteElo).toOption.join, (narrowElo playing.1.blackElo).toOption.join⟩

def playedContribution (playing : ReplayGame × ℕ) : DirectContribution :=
  ⟨UInt16.ofNat playing.2, playedMatch playing⟩

/-- The games with these ids, in their order. -/
def allowedGames (games : List ReplayGame) (allowedGameIds : List UInt32) : List ReplayGame :=
  games.filter fun game => UInt32.ofNat game.id ∈ allowedGameIds

private theorem matchAt_eq_playedMatch {rules : Chess.Rules} {games : List ReplayGame}
    (h : Replayed rules games) {game : ReplayGame} (hgame : game ∈ games) {o : Occurrence}
    (hid : UInt32.ofNat game.id = o.id) :
    matchAt (gameRows rules games) o = playedMatch (game, o.ply.toNat) := by
  obtain ⟨whiteElo, blackElo, hwhite, hblack, hmatch⟩ := matchAt_gameRows h hgame hid
  rw [hmatch, playedMatch, hwhite, hblack, hid, UInt16.ofNat_toNat]
  rfl

theorem OpeningTreeIndex.Replayed.length_moves {rules : Chess.Rules} {games : List ReplayGame}
    (h : Replayed rules games) {game : ReplayGame} (hgame : game ∈ games) :
    game.moves.length ≤ 65535 := by
  obtain ⟨call, hcall⟩ := h.rows game hgame
  exact (mem_replayRows hcall).1

section Plies

variable {game : ReplayGame} {ply : ℕ}

theorem toNat_playedMatch_ply (hlength : game.moves.length ≤ 65535) (hply : ply ≤ game.moves.length) :
    (playedMatch (game, ply)).ply.toNat = ply := by
  rw [playedMatch, UInt16.toNat_ofNat']
  exact Nat.mod_eq_of_lt (by omega)

private theorem toNat_playedMatch_next (hlength : game.moves.length ≤ 65535)
    (hply : ply < game.moves.length) : ((playedMatch (game, ply)).ply + 1).toNat = ply + 1 := by
  have hone : (1 : UInt16).toNat = 1 := rfl
  rw [UInt16.toNat_add, toNat_playedMatch_ply hlength hply.le]
  exact Nat.mod_eq_of_lt (by omega)

end Plies

variable {t : Tables} {allowedGameIds : List UInt32}

private theorem mem_replayGames {game : ReplayGame} : game ∈ t.replayGames ↔ ∃ row ∈ t.games,
    (⟨row.id, row.readResult, row.stored.whiteElo, row.stored.blackElo, row.stored.moves⟩ :
      ReplayGame) = game := List.mem_map

private theorem lookup_map_snd {α β γ : Type} [BEq α] (f : β → γ) (l : List (α × β)) (key : α) :
    (l.map fun entry => (entry.1, f entry.2)).lookup key = (l.lookup key).map f := by
  induction l with
  | nil => rfl
  | cons entry l ih =>
    rw [List.map_cons, List.lookup_cons, List.lookup_cons]
    cases key == entry.1 with
    | true => rfl
    | false => exact ih

/-- The moves of the allowed games, by their ids. -/
def allowedMoves (t : Tables) (allowedGameIds : List UInt32) : List (UInt32 × List UInt16) :=
  (t.withIds allowedGameIds).map fun row => (UInt32.ofNat row.id, row.stored.moves)

private theorem lookup_allowedMoves (hfit : t.IdsFit) {game : ReplayGame} (hgame : game ∈ t.replayGames)
    (hid : UInt32.ofNat game.id ∈ allowedGameIds) :
    (allowedMoves t allowedGameIds).lookup (UInt32.ofNat game.id) = some game.moves := by
  obtain ⟨row, hrow, rfl⟩ := mem_replayGames.mp hgame
  have hfound := Tables.lookup_of_getGameContexts hfit rfl hrow hid
  have hmap := lookup_map_snd Search.OpeningTree.GameContext.moves
    ((t.withIds allowedGameIds).map fun row => (UInt32.ofNat row.id, row.context))
    (UInt32.ofNat row.id)
  rw [List.map_map, hfound] at hmap
  exact hmap

variable {rules : Chess.Rules} {hash : UInt64}

private theorem mem_contributionRecords (h : Replayed rules t.replayGames) (hfit : t.IdsFit)
    (hsorted : (allowedGameIds.map UInt32.toNat).SortedLE) {id : UInt32} {edge : UInt16 × UInt64}
    {d : DirectContribution} :
    ((id, edge), d) ∈ contributionRecords rules allowedGameIds (allowedMoves t allowedGameIds)
        ((occurrencesAt (gameRows rules t.replayGames) hash).map
          (matchAt (gameRows rules t.replayGames))) ↔
      ∃ playing : ReplayGame × ℕ, playing.1 ∈ allowedGames t.replayGames allowedGameIds ∧
        (edgeFrom hash edge, playing.2) ∈ playedFrom rules rules.start 0 playing.1.moves ∧
        id = UInt32.ofNat playing.1.id ∧ d = playedContribution playing := by
  rw [contributionRecords, List.mem_filterMap]
  constructor
  · rintro ⟨found, hfound, hrecord⟩
    obtain ⟨o, ho, rfl⟩ := List.mem_map.mp hfound
    obtain ⟨game, hgame, hid, hreaches⟩ := (mem_occurrencesAt_gameRows h).mp ho
    rw [matchAt_eq_playedMatch h hgame hid, contributionRecord] at hrecord
    split at hrecord
    next hallowed =>
      obtain ⟨id, hmem, hsame⟩ := (Bisection.binarySearch_eq_true hsorted).mp hallowed
      obtain rfl : id = UInt32.ofNat game.id := UInt32.toNat_inj.mp hsame
      obtain ⟨moves, hmoves, hrecord⟩ := Option.bind_eq_some_iff.mp hrecord
      obtain ⟨encodedMove, hmove, hrecord⟩ := Option.bind_eq_some_iff.mp hrecord
      have hlookup := lookup_allowedMoves hfit hgame hmem
      obtain rfl := Option.some.inj (hlookup.symm.trans hmoves)
      obtain ⟨hkey, rfl⟩ := Prod.mk.inj (Option.some.inj hrecord)
      obtain ⟨rfl, rfl⟩ := Prod.mk.inj hkey
      rw [toNat_playedMatch_ply (h.length_moves hgame) hreaches.1] at hmove
      obtain ⟨hlt, -⟩ := List.getElem?_eq_some_iff.mp hmove
      have hnext := toNat_playedMatch_next (h.length_moves hgame) hlt
      refine ⟨(game, o.ply.toNat), List.mem_filter.mpr ⟨hgame, decide_eq_true hmem⟩,
        mem_playedFrom_iff.mpr ⟨o.ply.toNat, encodedMove, hmove, (Nat.zero_add _).symm, ?_⟩, rfl, rfl⟩
      rw [hreaches.2, ← hnext]
      rfl
    next => cases hrecord
  · rintro ⟨⟨game, ply⟩, hallowed, hplayed, rfl, rfl⟩
    obtain ⟨hgame, hmem⟩ := List.mem_filter.mp hallowed
    have hmem := of_decide_eq_true hmem
    obtain ⟨k, encodedMove, hmove, hply, hedge⟩ := mem_playedFrom_iff.mp hplayed
    obtain rfl : ply = k := hply.trans (Nat.zero_add k)
    obtain ⟨hroot, hencoded, hchild⟩ := (EdgeKey.mk.injEq ..).mp hedge
    obtain ⟨hlt, -⟩ := List.getElem?_eq_some_iff.mp hmove
    have hnext := toNat_playedMatch_next (h.length_moves hgame) hlt
    have hply := toNat_playedMatch_ply (h.length_moves hgame) hlt.le
    have hreaches : ReachesAt rules game.moves hash (UInt16.ofNat ply).toNat := by
      refine ⟨hply.trans_le hlt.le, ?_⟩
      exact (congrArg (fun n => rules.hash (rules.play rules.start (game.moves.take n))) hply).trans
        (UInt64.toNat_inj.mp hroot).symm
    refine ⟨playedMatch (game, ply), List.mem_map.mpr ⟨⟨UInt32.ofNat game.id, UInt16.ofNat ply⟩,
      (mem_occurrencesAt_gameRows h).mpr ⟨game, hgame, rfl, hreaches⟩, ?_⟩, ?_⟩
    · rw [matchAt_eq_playedMatch h hgame rfl, show (UInt16.ofNat ply).toNat = ply from hply]
    · have hallowed : Bisection.binarySearch UInt32.toNat allowedGameIds
          (playedMatch (game, ply)).gameId.toNat = true :=
        (Bisection.binarySearch_eq_true hsorted).mpr ⟨_, hmem, rfl⟩
      have hlookup : (allowedMoves t allowedGameIds).lookup (playedMatch (game, ply)).gameId =
          some game.moves := lookup_allowedMoves hfit hgame hmem
      have hmove' : game.moves[(playedMatch (game, ply)).ply.toNat]? = some encodedMove := by
        rw [hply, hmove]
      rw [contributionRecord, if_pos hallowed, hlookup, Option.bind_eq_bind, Option.bind_some, hmove',
        hnext, ← UInt64.toNat_inj.mp hchild, ← UInt16.toNat_inj.mp hencoded]
      rfl

/-- The contributions that the allowed games of a position make to its edges. -/
def contributionsAt (rules : Chess.Rules) (t : Tables) (hash : UInt64) (allowedGameIds : List UInt32) :
    DirectContributions :=
  leastContributions (contributionRecords rules allowedGameIds (allowedMoves t allowedGameIds)
    ((occurrencesAt (gameRows rules t.replayGames) hash).map
      (matchAt (gameRows rules t.replayGames))))

theorem mem_playings_iff (h : Replayed rules t.replayGames) {key : EdgeKey}
    {playing : ReplayGame × ℕ} :
    playing ∈ playings rules uint16Max (allowedGames t.replayGames allowedGameIds) key ↔
      playing.1 ∈ allowedGames t.replayGames allowedGameIds ∧
        (key, playing.2) ∈ playedFrom rules rules.start 0 playing.1.moves ∧
        ∀ ply, (key, ply) ∈ playedFrom rules rules.start 0 playing.1.moves → playing.2 ≤ ply := by
  rw [mem_playings]
  refine and_congr_right fun hgame => ?_
  have hlength := h.length_moves (List.mem_of_mem_filter hgame)
  have huncapped : ∀ ply, (key, ply) ∈ playedFrom rules rules.start 0 playing.1.moves →
      ply ≤ uint16Max ∨ key.rootHash = fullCoverageRootHash rules := by
    intro ply hplayed
    have hlt := (mem_playedFrom hplayed).1
    rw [uint16Max]
    omega
  rw [leastPly_coveredEdges huncapped, leastPly_eq_some]

theorem OpeningTreeIndex.Replayed.eq_of_id {games : List ReplayGame} (h : Replayed rules games)
    {game game' : ReplayGame} (hgame : game ∈ games) (hgame' : game' ∈ games)
    (hid : UInt32.ofNat game.id = UInt32.ofNat game'.id) : game = game' :=
  List.inj_on_of_nodup_map h.ids hgame hgame' hid

theorem getElem?_contributionsAt (h : Replayed rules t.replayGames) (hfit : t.IdsFit)
    (hsorted : (allowedGameIds.map UInt32.toNat).SortedLE) {id : UInt32} {edge : UInt16 × UInt64}
    {d : DirectContribution} :
    (contributionsAt rules t hash allowedGameIds)[(id, edge)]? = some d ↔
      ∃ playing ∈ playings rules uint16Max (allowedGames t.replayGames allowedGameIds)
          (edgeFrom hash edge),
        id = UInt32.ofNat playing.1.id ∧ d = playedContribution playing := by
  have hlast : ∀ {game : ReplayGame} {ply : ℕ},
      game ∈ allowedGames t.replayGames allowedGameIds →
      (edgeFrom hash edge, ply) ∈ playedFrom rules rules.start 0 game.moves →
      (playedContribution (game, ply)).rootPly.toNat = ply := by
    intro game ply hgame hplayed
    have hlt := (mem_playedFrom hplayed).1
    exact toNat_playedMatch_ply (h.length_moves (List.mem_of_mem_filter hgame)) (by omega)
  have hsound : ∀ d, (contributionsAt rules t hash allowedGameIds)[(id, edge)]? = some d →
      ∃ playing ∈ playings rules uint16Max (allowedGames t.replayGames allowedGameIds)
          (edgeFrom hash edge),
        id = UInt32.ofNat playing.1.id ∧ d = playedContribution playing := by
    intro d hd
    obtain ⟨hmem, hleast⟩ := getElem?_leastContributions hd
    obtain ⟨⟨game, ply⟩, hgame, hplayed, rfl, rfl⟩ :=
      (mem_contributionRecords h hfit hsorted).mp hmem
    refine ⟨(game, ply), (mem_playings_iff h).mpr ⟨hgame, hplayed, fun other hother => ?_⟩, rfl, rfl⟩
    have hle := hleast _ ((mem_contributionRecords h hfit hsorted).mpr
      ⟨(game, other), hgame, hother, rfl, rfl⟩)
    rwa [hlast hgame hplayed, hlast hgame hother] at hle
  refine ⟨hsound d, ?_⟩
  rintro ⟨⟨game, ply⟩, hplaying, rfl, rfl⟩
  obtain ⟨hgame, hplayed, hleast⟩ := (mem_playings_iff h).mp hplaying
  have hrecord := (mem_contributionRecords h hfit hsorted).mpr ⟨(game, ply), hgame, hplayed, rfl, rfl⟩
  have hkey : (UInt32.ofNat game.id, edge) ∈ contributionsAt rules t hash allowedGameIds :=
    mem_tally_iff.mpr ⟨_, hrecord, rfl⟩
  obtain ⟨held, hheld⟩ := Option.isSome_iff_exists.mp (Std.TreeMap.mem_iff_isSome_getElem?.mp hkey)
  obtain ⟨⟨game', ply'⟩, hplaying', hid, rfl⟩ := hsound held hheld
  obtain ⟨hgame', hplayed', hleast'⟩ := (mem_playings_iff h).mp hplaying'
  obtain rfl := h.eq_of_id (List.mem_of_mem_filter hgame) (List.mem_of_mem_filter hgame') hid
  have hply : ply' = ply := Nat.le_antisymm (hleast' ply hplayed) (hleast ply' hplayed')
  rw [hheld, hply]

end Playings

section Edges

variable {rules : Chess.Rules} {t : Tables} {allowedGameIds : List UInt32} {hash : UInt64}

/-- A playing as an entry of the contributions. -/
def playedEntry (edge : UInt16 × UInt64) (playing : ReplayGame × ℕ) :
    ContributionKey × DirectContribution :=
  ((UInt32.ofNat playing.1.id, edge), playedContribution playing)

private theorem pairwise_id_replayGames (t : Tables) :
    t.replayGames.Pairwise fun game game' => game.id < game'.id := by
  rw [Tables.replayGames, List.pairwise_map]
  exact t.ascending

theorem toNat_id_replayGames (hfit : t.IdsFit) {game : ReplayGame} (hgame : game ∈ t.replayGames) :
    (UInt32.ofNat game.id).toNat = game.id := by
  obtain ⟨row, hrow, rfl⟩ := mem_replayGames.mp hgame
  exact hfit.toNat_id hrow

theorem filter_contributionsAt (h : Replayed rules t.replayGames) (hfit : t.IdsFit)
    (hsorted : (allowedGameIds.map UInt32.toNat).SortedLE) (edge : UInt16 × UInt64) :
    ((contributionsAt rules t hash allowedGameIds).toList.filter fun entry => entry.1.2 = edge) =
      (playings rules uint16Max (allowedGames t.replayGames allowedGameIds)
        (edgeFrom hash edge)).map (playedEntry edge) := by
  have hgames : ((playings rules uint16Max (allowedGames t.replayGames allowedGameIds)
      (edgeFrom hash edge)).map Prod.fst).Sublist t.replayGames := by
    rw [map_fst_playings]
    exact List.filter_sublist.trans List.filter_sublist
  have hascending := (List.pairwise_map.mp ((pairwise_id_replayGames t).sublist hgames))
  refine eq_of_ascending (Std.TreeMap.ordered_keys_toList.sublist List.filter_sublist) ?_ ?_
  · rw [List.pairwise_map]
    refine hascending.imp_of_mem fun {playing playing'} hplaying hplaying' hlt => ?_
    have hid := toNat_id_replayGames hfit (hgames.subset (List.mem_map_of_mem hplaying))
    have hid' := toNat_id_replayGames hfit (hgames.subset (List.mem_map_of_mem hplaying'))
    have hcompare : compare (UInt32.ofNat playing.1.id) (UInt32.ofNat playing'.1.id) = .lt := by
      rw [Std.compare_eq_lt, UInt32.lt_iff_toNat_lt, hid, hid']
      exact hlt
    rw [compareContributions, playedEntry, playedEntry, hcompare]
    rfl
  · rintro ⟨⟨id, other⟩, d⟩
    rw [List.mem_filter, Std.TreeMap.mem_toList_iff_getElem?_eq_some, decide_eq_true_eq, List.mem_map]
    constructor
    · rintro ⟨hfound, rfl⟩
      obtain ⟨playing, hplaying, rfl, rfl⟩ := (getElem?_contributionsAt h hfit hsorted).mp hfound
      exact ⟨playing, hplaying, rfl⟩
    · rintro ⟨playing, hplaying, heq⟩
      obtain ⟨hkey, rfl⟩ := Prod.mk.inj heq
      obtain ⟨rfl, rfl⟩ := Prod.mk.inj hkey
      exact ⟨(getElem?_contributionsAt h hfit hsorted).mpr ⟨playing, hplaying, rfl, rfl⟩, rfl⟩

end Edges

end MotifChess.Db
