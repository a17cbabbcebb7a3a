/- GID: MotifChess/Db/OpeningTreeIndex/Answers
   generality: implementation
   digest: An index that was built and opened again answers with the statistics of the games. -/

import MotifChess.Db.OpeningTreeIndex.Independence
import MotifChess.Db.OpeningTreeIndex.PlayedEdges
import MotifChess.Db.OpeningTreeIndex.RoundTrip

set_option autoImplicit false
set_option relaxedAutoImplicit false

namespace MotifChess.Db.OpeningTreeIndex

open Codec LittleEndian
open MotifChess.Order.Aggregation MotifChess.Order.Bisection

section Tables

variable (rules : Chess.Rules) (maxRootPly : ℕ) (games : List ReplayGame)

/-- The roots of the tree with their games. -/
abbrev treeRoots : List (ℕ × ℕ) := aggregate (· + ·) (ones (rootsOf rules maxRootPly games))

abbrev treeEdges : List (EdgeKey × EdgeAgg) :=
  aggregate mergeEdgeAgg (edgesOf rules maxRootPly games)

/-- How many games visit a position, at any ply. -/
def visitCount (hash : ℕ) : ℕ := games.countP fun game => hash ∈ gameVisits rules game

def lookupCount (hash : ℕ) : Result ℕ :=
  orIoFailure ((findKey Prod.fst (gameCounts rules games) hash).map fun p => p.2.toNat)

end Tables

section Fits

variable {rules : Chess.Rules} {encodeF64 : ℚ → ℕ} {maxRootPly : ℕ} {games : List ReplayGame}

private theorem visitCount_le (hacc : Accepted rules maxRootPly games) (hash : ℕ) :
    visitCount rules games hash ≤ uint32Max :=
  List.countP_le_length.trans (hacc.length_le rules)

private theorem lookupCount_eq (hacc : Accepted rules maxRootPly games) {hash : ℕ}
    (hne : visitCount rules games hash ≠ 0) :
    lookupCount rules games hash = .ok (visitCount rules games hash) := by
  have hcount := count_visitsOf rules games hash
  have hmem : (hash, UInt32.ofNat (visitCount rules games hash)) ∈ gameCounts rules games := by
    refine mem_gameCounts.mpr ⟨?_, ?_⟩
    · rwa [hcount]
    · rw [hcount]
      rfl
  have hfound := (findKey_eq_some pairwise_gameCounts.sortedLT).mpr ⟨hmem, rfl⟩
  have hle := visitCount_le hacc hash
  rw [uint32Max] at hle
  rw [lookupCount, hfound]
  show Except.ok (UInt32.ofNat (visitCount rules games hash)).toNat = _
  rw [UInt32.toNat_ofNat_of_lt' (by simp only [UInt32.size]; omega)]

private theorem eq_visitCount_of_lookupCount (hacc : Accepted rules maxRootPly games) (hash n : ℕ)
    (h : lookupCount rules games hash = .ok n) : n = visitCount rules games hash := by
  by_cases hzero : visitCount rules games hash = 0
  · have hnone : findKey Prod.fst (gameCounts rules games) hash = none := by
      rw [findKey_eq_none pairwise_gameCounts.sortedLT]
      rintro ⟨hash', count⟩ hp rfl
      exact (mem_gameCounts.mp hp).1 ((count_visitsOf rules games hash').trans hzero)
    rw [lookupCount, hnone] at h
    cases h
  · exact (Except.ok.inj ((lookupCount_eq hacc hzero).symm.trans h)).symm

private theorem mem_treeRoots (hmoves : ∀ game ∈ games, game.moves.length ≤ 2 ^ 16) {root : ℕ × ℕ} :
    root ∈ treeRoots rules maxRootPly games ↔
      referenceGameCount rules maxRootPly games root.1 = root.2 ∧ root.2 ≠ 0 := by
  rw [treeRoots, ← count_rootsOf hmoves]
  exact mem_aggregate_ones

private theorem mem_treeEdges (hmoves : ∀ game ∈ games, game.moves.length ≤ 2 ^ 16)
    (hids : ∀ game ∈ games, game.id < 2 ^ 32) {e : EdgeKey × EdgeAgg} :
    e ∈ treeEdges rules maxRootPly games ↔
      takers rules maxRootPly games e.1 ≠ [] ∧ e.2 = referenceAgg rules maxRootPly games e.1 := by
  obtain ⟨key, agg⟩ := e
  rw [treeEdges, mem_aggregate, total_edgesOf rules hmoves hids]
  by_cases htakers : takers rules maxRootPly games key = []
  · simp [htakers]
  · simp [htakers, eq_comm]

private theorem length_takers_le (key : EdgeKey) : (takers rules maxRootPly games key).length ≤
    referenceGameCount rules maxRootPly games key.rootHash := by
  rw [takers, ← List.countP_eq_length_filter]
  refine List.countP_mono_left fun game _ hplayed => ?_
  exact decide_eq_true (root_mem_rootsWithin (of_decide_eq_true hplayed))

private theorem length_takers_le_visitCount (key : EdgeKey) :
    (takers rules maxRootPly games key).length ≤ visitCount rules games key.childHash := by
  rw [takers, ← List.countP_eq_length_filter]
  refine List.countP_mono_left fun game _ hplayed => ?_
  exact decide_eq_true (child_mem_gameVisits (of_decide_eq_true hplayed))

private theorem EdgeKey.rootHash_le {key key' : EdgeKey} (h : key < key') : key.rootHash ≤ key'.rootHash := by
  have hlex : toLex (key.rootHash, toLex (key.encodedMove, key.childHash)) <
    toLex (key'.rootHash, toLex (key'.encodedMove, key'.childHash)) := h
  rcases Prod.Lex.toLex_lt_toLex.mp hlex with hlt | ⟨heq, -⟩
  · exact hlt.le
  · exact heq.le

private theorem lt_of_mem_rootsWithin {game : ReplayGame} {hash : ℕ}
    (h : hash ∈ rootsWithin rules maxRootPly game) : hash < 2 ^ 64 := by
  rcases List.mem_cons.mp (List.mem_of_mem_take h) with rfl | hafter
  · exact UInt64.toNat_lt _
  · exact lt_of_mem_hashesAfter hafter

private theorem edgeFits_of_takers (hmoves : ∀ game ∈ games, game.moves.length ≤ 2 ^ 16)
    (hids : ∀ game ∈ games, game.id < 2 ^ 32) {key : EdgeKey}
    (htakers : takers rules maxRootPly games key ≠ []) :
    EdgeFits (key, referenceAgg rules maxRootPly games key) := by
  obtain ⟨ply, hply, game, hgame, hcovered⟩ := exists_leastPly htakers
  obtain ⟨hlt, hmove, -, hchild, -⟩ := mem_playedFrom (List.mem_filter.mp hcovered).1
  have hlength := hmoves game hgame
  have hid : ∀ id ∈ (takers rules maxRootPly games key).map ReplayGame.id, id ≤ uint32Max := by
    intro id hid
    obtain ⟨taker, htaker, rfl⟩ := List.mem_map.mp hid
    have := hids taker (List.mem_of_mem_filter htaker)
    rw [uint32Max]
    omega
  refine ⟨hmove, lt_of_mem_hashesAfter hchild, ?_, ?_, ?_⟩
  · show (leastPly (games.flatMap (coveredEdges rules maxRootPly)) key).getD 0 ≤ uint16Max
    rw [hply, Option.getD_some, uint16Max]
    omega
  · show ((takers rules maxRootPly games key).map ReplayGame.id).min?.getD 0 ≤ uint32Max
    cases hmin : ((takers rules maxRootPly games key).map ReplayGame.id).min? with
    | none => exact Nat.zero_le _
    | some id => exact hid id (List.min?_mem hmin)
  · show ((takers rules maxRootPly games key).map ReplayGame.id).max?.getD 0 ≤ uint32Max
    cases hmax : ((takers rules maxRootPly games key).map ReplayGame.id).max? with
    | none => exact Nat.zero_le _
    | some id => exact hid id (List.max?_mem hmax)

variable (rules maxRootPly) in
private theorem length_coveredEdges_le (game : ReplayGame) :
    (coveredEdges rules maxRootPly game).length ≤ game.moves.length := by
  have hplayed : ∀ (board : rules.Board) (ply : ℕ) (moves : List UInt16),
      (playedFrom rules board ply moves).length = moves.length := by
    intro board ply moves
    induction moves generalizing board ply with
    | nil => rfl
    | cons move moves ih => rw [playedFrom, List.length_cons, ih, List.length_cons]
  rw [← hplayed rules.start 0 game.moves]
  exact List.length_filter_le _ _

private theorem length_treeEdges_lt (hacc : Accepted rules maxRootPly games)
    (hids : ∀ game ∈ games, game.id < 2 ^ 32) :
    (treeEdges rules maxRootPly games).length < 2 ^ 64 := by
  have hnodup : ((treeEdges rules maxRootPly games).map Prod.fst).Nodup :=
    (pairwise_lt_aggregate _ _).imp fun h => h.ne
  have hsub : (treeEdges rules maxRootPly games).map Prod.fst ⊆
      (games.flatMap (coveredEdges rules maxRootPly)).map Prod.fst := by
    intro key hkey
    obtain ⟨e, he, rfl⟩ := List.mem_map.mp hkey
    by_contra hnot
    have hnone := (total_eq_none min).mpr hnot
    exact ((mem_treeEdges hacc.moves hids).mp he).1 (takers_eq_nil.mpr hnone)
  have hle := (hnodup.subperm hsub).length_le
  rw [List.length_map, List.length_map] at hle
  have hcovered : ∀ games : List ReplayGame, (∀ game ∈ games, game.moves.length ≤ 2 ^ 16) →
      (games.flatMap (coveredEdges rules maxRootPly)).length ≤ games.length * 2 ^ 16 := by
    intro games hmoves
    induction games with
    | nil => exact Nat.zero_le _
    | cons game games ih =>
      have hgame := (length_coveredEdges_le rules maxRootPly game).trans
        (hmoves game List.mem_cons_self)
      have hrest := ih fun g hg => hmoves g (List.mem_cons_of_mem game hg)
      rw [List.flatMap_cons, List.length_append, List.length_cons, Nat.succ_mul]
      omega
  have hlength := hacc.length_le rules
  have hmul := Nat.mul_le_mul_right (2 ^ 16) hlength
  have htotal := hcovered games hacc.moves
  rw [uint32Max] at hmul
  omega

private theorem treeFits (hacc : Accepted rules maxRootPly games) (hids : ∀ game ∈ games, game.id < 2 ^ 32) :
    TreeFits (visitCount rules games) (treeRoots rules maxRootPly games)
      (treeEdges rules maxRootPly games) where
  fits := by
    refine ⟨fun e he => ?_, fun e _ => visitCount_le hacc _⟩
    obtain ⟨key, agg⟩ := e
    obtain ⟨htakers, hagg⟩ := (mem_treeEdges hacc.moves hids).mp he
    dsimp only at htakers hagg
    subst hagg
    exact edgeFits_of_takers hacc.moves hids htakers
  rootFits := by
    rintro ⟨hash, count⟩ hroot
    obtain ⟨hcount, hne⟩ := (mem_treeRoots hacc.moves).mp hroot
    dsimp only at hcount hne ⊢
    subst hcount
    have hle : referenceGameCount rules maxRootPly games hash ≤ games.length := List.countP_le_length
    have hlength := hacc.length_le rules
    rw [uint32Max] at hlength
    obtain ⟨game, -, hmem⟩ := List.countP_pos_iff.mp (Nat.pos_of_ne_zero hne)
    exact ⟨lt_of_mem_rootsWithin (of_decide_eq_true hmem), by omega⟩
  length_lt := length_treeEdges_lt hacc hids
  ascending := by
    have hsorted := pairwise_lt_aggregate mergeEdgeAgg (edgesOf rules maxRootPly games)
    rw [List.pairwise_map] at hsorted
    exact hsorted.imp EdgeKey.rootHash_le
  rootsAscending := List.pairwise_map.mp (pairwise_lt_aggregate _ _)
  rooted := by
    rintro ⟨key, agg⟩ he
    obtain ⟨htakers, -⟩ := (mem_treeEdges hacc.moves hids).mp he
    have hle : (takers rules maxRootPly games key).length ≤
      referenceGameCount rules maxRootPly games key.rootHash := length_takers_le key
    have hpos : 0 < (takers rules maxRootPly games key).length := List.length_pos_iff.mpr htakers
    refine List.mem_map.mpr ⟨(key.rootHash, referenceGameCount rules maxRootPly games key.rootHash),
      (mem_treeRoots hacc.moves).mpr ⟨rfl, ?_⟩, rfl⟩
    dsimp only
    omega

end Fits

section Opened

variable {rules : Chess.Rules} {encodeF64 : ℚ → ℕ} {maxRootPly : UInt16} {games : List ReplayGame}
  {file : List UInt8}

/-- The records of the continuations of a position, as the builder adds them up. -/
def recordsAt (rules : Chess.Rules) (encodeF64 : ℚ → ℕ) (maxRootPly : ℕ) (games : List ReplayGame)
    (hash : ℕ) : List Continuation :=
  (referenceEdges rules maxRootPly games hash).map fun key =>
    edgeContinuation encodeF64 (visitCount rules games)
      (key, referenceAgg rules maxRootPly games key)

private theorem treeFile_eq_ok (h : treeFile rules encodeF64 maxRootPly games = .ok file) :
    Accepted rules maxRootPly.toNat games ∧ ∃ nodes,
      writeNodes rules encodeF64 (lookupCount rules games) (treeRoots rules maxRootPly.toNat games)
        (treeEdges rules maxRootPly.toNat games) = .ok nodes ∧
      file = headerBytes maxRootPly games.length (treeRoots rules maxRootPly.toNat games).length ++
        nodes := by
  rw [treeFile] at h
  split at h
  next hcond =>
    obtain ⟨nodes, hnodes, h⟩ := bind_eq_ok.mp h
    exact ⟨accepted_iff.mpr hcond, nodes, hnodes, (Except.ok.inj h).symm⟩
  next => cases h

private theorem length_treeRoots_lt {maxRootPly : ℕ} (hacc : Accepted rules maxRootPly games) :
    (treeRoots rules maxRootPly games).length < 2 ^ 64 := by
  have hnodup : ((treeRoots rules maxRootPly games).map Prod.fst).Nodup :=
    (pairwise_lt_aggregate _ _).imp fun h => h.ne
  have hsub : (treeRoots rules maxRootPly games).map Prod.fst ⊆ visitsOf rules games := by
    intro hash hhash
    obtain ⟨root, hroot, rfl⟩ := List.mem_map.mp hhash
    obtain ⟨hcount, hne⟩ := (mem_treeRoots hacc.moves).mp hroot
    rw [← hcount] at hne
    obtain ⟨game, hgame, hmem⟩ := List.countP_pos_iff.mp (Nat.pos_of_ne_zero hne)
    refine List.mem_flatMap.mpr ⟨game, hgame, (mem_gameVisits rules).mpr ?_⟩
    exact List.mem_of_mem_take (of_decide_eq_true hmem)
  have hle := (hnodup.subperm hsub).length_le
  have hvisits := length_visitsOf_le rules hacc.moves
  have hlength := hacc.length_le rules
  rw [uint32Max] at hlength
  rw [List.length_map] at hle
  have hmul := Nat.mul_le_mul_right (2 ^ 16 + 1) hlength
  omega

/-- What an index answers that was built from these games. -/
structure Index.AnswersFrom (rules : Chess.Rules) (encodeF64 : ℚ → ℕ) (maxRootPly : UInt16)
    (games : List ReplayGame) (file : List UInt8) (index : Index) : Prop where
  sourceGames : index.sourceGameCount = games.length
  plyCap : index.maxRootPly = maxRootPly.toNat
  gameCount : ∀ hash, index.gameCount hash = referenceGameCount rules maxRootPly.toNat games hash
  isComplete : ∀ hash, index.isComplete hash = true ↔
    hash = fullCoverageRootHash rules ∧ games ≠ []
  records : ∀ hash, index.queryRecords file hash =
    .ok (recordsAt rules encodeF64 maxRootPly.toNat games hash)

private theorem referenceGameCount_start {maxRootPly : ℕ} (games : List ReplayGame) :
    referenceGameCount rules maxRootPly games (fullCoverageRootHash rules) = games.length := by
  rw [referenceGameCount, List.countP_eq_length]
  intro game _
  rw [decide_eq_true_eq, rootsWithin, List.take_succ_cons]
  exact List.mem_cons_self

theorem sourceGameCount_of_treeFile {index : Index}
    (h : treeFile rules encodeF64 maxRootPly games = .ok file) (hopen : openIndex rules file = .ok index) :
    index.sourceGameCount = games.length := by
  obtain ⟨hacc, nodes, hwrite, hfile⟩ := treeFile_eq_ok h
  have hlength := hacc.length_le rules
  rw [uint32Max] at hlength
  have hheader : readHeader file = some (⟨maxRootPly.toNat, games.length,
      (treeRoots rules maxRootPly.toNat games).length⟩, nodes) := by
    rw [hfile]
    exact readHeader_headerBytes (by omega) (length_treeRoots_lt hacc) (length_writeNodes hwrite)
  unfold openIndex at hopen
  rw [hheader] at hopen
  obtain ⟨⟨built, rest⟩, -, hopen⟩ := bind_eq_ok.mp hopen
  dsimp only at hopen
  split_ifs at hopen with hrest
  obtain rfl := Except.ok.inj hopen
  rfl

theorem openIndex_treeFile (hids : ∀ game ∈ games, game.id < 2 ^ 32)
    (h : treeFile rules encodeF64 maxRootPly games = .ok file) :
    (∃ index, openIndex rules file = .ok index ∧
        index.AnswersFrom rules encodeF64 maxRootPly games file ∧
        ∀ root ∈ treeRoots rules maxRootPly.toNat games, RootAccepted rules
          ⟨maxRootPly.toNat, games.length, (treeRoots rules maxRootPly.toNat games).length⟩
          (recordsAt rules encodeF64 maxRootPly.toNat games) root) ∨
      (openIndex rules file = .error .ioFailure ∧
        ∃ root ∈ treeRoots rules maxRootPly.toNat games, ¬RootAccepted rules
          ⟨maxRootPly.toNat, games.length, (treeRoots rules maxRootPly.toNat games).length⟩
          (recordsAt rules encodeF64 maxRootPly.toNat games) root) := by
  obtain ⟨hacc, nodes, hwrite, hfile⟩ := treeFile_eq_ok h
  have hlength := hacc.length_le rules
  rw [uint32Max] at hlength
  have hrecords : ∀ root ∈ treeRoots rules maxRootPly.toNat games,
      recordsAt rules encodeF64 maxRootPly.toNat games root.1 =
        ((treeEdges rules maxRootPly.toNat games).filter fun e => e.1.rootHash = root.1).map
          (edgeContinuation encodeF64 (visitCount rules games)) := by
    intro root _
    rw [filter_aggregate_edgesOf hacc.moves hids, List.map_map]
    rfl
  rcases openIndex_written (treeFits hacc hids) (eq_visitCount_of_lookupCount hacc) hrecords hwrite
      maxRootPly (by omega) (length_treeRoots_lt hacc) hfile with
    ⟨built, hopen, hstand, haccepted⟩ | hrefused
  · refine Or.inl ⟨_, hopen, ?_, haccepted⟩
    have hascending := pairwise_lt_aggregate (· + ·) (ones (rootsOf rules maxRootPly.toNat games))
    have habsent : ∀ hash, hash ∉ (treeRoots rules maxRootPly.toNat games).map Prod.fst →
        referenceGameCount rules maxRootPly.toNat games hash = 0 := by
      intro hash hnot
      by_contra hne
      exact hnot (List.mem_map.mpr ⟨(hash, _), (mem_treeRoots hacc.moves).mpr ⟨rfl, hne⟩, rfl⟩)
    have hempty : ∀ hash, hash ∉ (treeRoots rules maxRootPly.toNat games).map Prod.fst →
        recordsAt rules encodeF64 maxRootPly.toNat games hash = [] := by
      intro hash hnot
      rw [recordsAt, List.map_eq_nil_iff, List.eq_nil_iff_forall_not_mem]
      intro key hkey
      obtain ⟨htakers, rfl⟩ := mem_referenceEdges.mp hkey
      have hle : (takers rules maxRootPly.toNat games key).length ≤
        referenceGameCount rules maxRootPly.toNat games key.rootHash := length_takers_le key
      have hpos := List.length_pos_iff.mpr htakers
      rw [habsent _ hnot] at hle
      omega
    refine ⟨rfl, rfl, fun hash => ?_, fun hash => ?_, fun hash => ?_⟩
    all_goals by_cases hmem : hash ∈ (treeRoots rules maxRootPly.toNat games).map Prod.fst
    · obtain ⟨root, hroot, rfl⟩ := List.mem_map.mp hmem
      rw [((mem_treeRoots hacc.moves).mp hroot).1]
      exact (query_of_mem hstand hascending hroot).1
    · rw [habsent hash hmem]
      exact (query_of_not_mem hstand hascending hmem).1
    · obtain ⟨root, hroot, rfl⟩ := List.mem_map.mp hmem
      obtain ⟨hcount, hne⟩ := (mem_treeRoots hacc.moves).mp hroot
      rw [(query_of_mem hstand hascending hroot).2.1, decide_eq_true_eq]
      refine ⟨fun heq => ⟨heq, ?_⟩, And.left⟩
      rintro rfl
      exact hne hcount.symm
    · rw [(query_of_not_mem hstand hascending hmem).2.1]
      constructor
      · intro hfalse
        cases hfalse
      · rintro ⟨rfl, hne⟩
        have hzero := habsent _ hmem
        rw [referenceGameCount_start] at hzero
        exact absurd (List.length_eq_zero_iff.mp hzero) hne
    · obtain ⟨root, hroot, rfl⟩ := List.mem_map.mp hmem
      exact (query_of_mem hstand hascending hroot).2.2
    · rw [hempty hash hmem]
      exact (query_of_not_mem hstand hascending hmem).2.2
  · exact Or.inr hrefused

end Opened

section Reference

variable (rules : Chess.Rules) (encodeF64 : ℚ → ℕ) (maxRootPly : ℕ) (games : List ReplayGame)

/-- The reference record of a continuation: every game that plays it within the cap counts once. -/
def referenceContinuation (key : EdgeKey) : Continuation :=
  let played := takers rules maxRootPly games key
  { encodedMove := key.encodedMove
    childHash := key.childHash
    rootPly := (leastPly (games.flatMap (coveredEdges rules maxRootPly)) key).getD 0
    frequency := played.length
    whiteWins := played.countP fun game => 0 < mapResult game.result
    draws := played.countP fun game => mapResult game.result = 0
    blackWins := played.countP fun game => mapResult game.result < 0
    whiteEloSum := (played.map fun game : ReplayGame => game.whiteElo.elim 0 Int32.toInt).sum.toNat
    whiteEloCount := played.countP fun game : ReplayGame => game.whiteElo.isSome
    blackEloSum := (played.map fun game : ReplayGame => game.blackElo.elim 0 Int32.toInt).sum.toNat
    blackEloCount := played.countP fun game : ReplayGame => game.blackElo.isSome
    weightedContribSum := encodeF64 (played.map fun game => (averageEloOf game).elim 0
      fun average => (mapResult game.result : ℚ) * average).sum % 2 ^ 64
    eloWeightSum := encodeF64 (played.map fun game => (averageEloOf game).getD 0).sum % 2 ^ 64
    ecoSampleMin := (played.map ReplayGame.id).min?.getD 0
    ecoSampleMax := (played.map ReplayGame.id).max?.getD 0
    transpositionFrequency := games.countP fun game => key.childHash ∈ gameVisits rules game }

/-- Games that a tree index takes: distinct 32-bit ids above zero, Elos that are absent or fit 16 bits
without a sign, and no game longer than the plies. -/
structure Indexable (games : List ReplayGame) : Prop where
  nodup : (games.map ReplayGame.id).Nodup
  ids : ∀ game ∈ games, 1 ≤ game.id ∧ game.id < 2 ^ 32
  elos : ∀ game ∈ games, (∀ elo ∈ game.whiteElo, 0 ≤ elo.toInt ∧ elo.toInt ≤ 32767) ∧
    ∀ elo ∈ game.blackElo, 0 ≤ elo.toInt ∧ elo.toInt ≤ 32767
  moves : ∀ game ∈ games, game.moves.length ≤ 2 ^ 16

/-- What an index answers, in the terms of the reference. -/
structure Index.Answers (file : List UInt8) (index : Index) : Prop where
  gameCount : ∀ hash, index.gameCount hash = referenceGameCount rules maxRootPly games hash
  openingStats : ∀ hash, index.queryOpeningStats file hash =
    .ok ((referenceEdges rules maxRootPly games hash).map fun key =>
      (referenceContinuation rules encodeF64 maxRootPly games key).row)

variable {rules encodeF64 maxRootPly games}

theorem Indexable.length_le (h : Indexable games) : games.length ≤ uint32Max := by
  have hlt := length_lt_of_ids (by decide) h.nodup h.ids
  rw [uint32Max]
  omega

theorem Indexable.accepted (h : Indexable games) (maxRootPly : ℕ) :
    Accepted rules maxRootPly games where
  moves := h.moves
  roots := by
    rw [countsFit_iff]
    intro hash
    rw [count_rootsOf h.moves]
    exact List.countP_le_length.trans h.length_le

theorem toNat_ofNat_of_le {n : ℕ} (h : n ≤ uint32Max) : (UInt32.ofNat n).toNat = n := by
  rw [uint32Max] at h
  exact UInt32.toNat_ofNat_of_lt' (by simp only [UInt32.size]; omega)

theorem sum_elos {played : List ReplayGame} {elo : ReplayGame → Option Int32}
    (h : ∀ game ∈ played, ∀ e ∈ elo game, 0 ≤ e.toInt ∧ e.toInt ≤ 32767) :
    0 ≤ (played.map fun game => (elo game).elim 0 Int32.toInt).sum ∧
      (played.map fun game => (elo game).elim 0 Int32.toInt).sum ≤ played.length * 32767 := by
  induction played with
  | nil => simp
  | cons game played ih =>
    obtain ⟨hpos, hle⟩ := ih fun g hg => h g (List.mem_cons_of_mem game hg)
    have hgame : 0 ≤ (elo game).elim 0 Int32.toInt ∧ (elo game).elim 0 Int32.toInt ≤ 32767 := by
      cases helo : elo game with
      | none => simp
      | some e => exact h game List.mem_cons_self e helo
    rw [List.map_cons, List.sum_cons, List.length_cons]
    push_cast
    omega

theorem sumBits_eq_toNat {sum : ℤ} (hpos : 0 ≤ sum) (hlt : sum < 2 ^ 63) :
    sumBits sum = sum.toNat := by
  rw [sumBits, Int.emod_eq_of_lt hpos (by omega)]

theorem takers_subset {key : EdgeKey} : takers rules maxRootPly games key ⊆ games :=
  List.filter_subset_self _

variable (rules maxRootPly) in
private theorem sum_elos_takers (h : Indexable games) {elo : ReplayGame → Option Int32}
    (helo : ∀ game ∈ games, ∀ e ∈ elo game, 0 ≤ e.toInt ∧ e.toInt ≤ 32767) (key : EdgeKey) :
    0 ≤ ((takers rules maxRootPly games key).map fun game => (elo game).elim 0 Int32.toInt).sum ∧
      ((takers rules maxRootPly games key).map fun game =>
        (elo game).elim 0 Int32.toInt).sum < 2 ^ 63 := by
  have hlength : (takers rules maxRootPly games key).length ≤ uint32Max :=
    (List.length_filter_le _ _).trans h.length_le
  have hbound : 0 ≤ ((takers rules maxRootPly games key).map fun game =>
      (elo game).elim 0 Int32.toInt).sum ∧ _ ≤ _ :=
    sum_elos fun game hgame => helo game (takers_subset hgame)
  rw [uint32Max] at hlength
  omega

private theorem edgeContinuation_referenceAgg (h : Indexable games) (key : EdgeKey) :
    edgeContinuation encodeF64 (visitCount rules games)
      (key, referenceAgg rules maxRootPly games key) =
      referenceContinuation rules encodeF64 maxRootPly games key := by
  have hlength : (takers rules maxRootPly games key).length ≤ uint32Max :=
    (List.length_filter_le _ _).trans h.length_le
  have hcount : ∀ p : ReplayGame → Bool,
      (UInt32.ofNat ((takers rules maxRootPly games key).countP p)).toNat =
        (takers rules maxRootPly games key).countP p :=
    fun p => toNat_ofNat_of_le (List.countP_le_length.trans hlength)
  have hsum : ∀ elo : ReplayGame → Option Int32,
      (∀ game ∈ games, ∀ e ∈ elo game, 0 ≤ e.toInt ∧ e.toInt ≤ 32767) →
      sumBits ((takers rules maxRootPly games key).map fun game =>
        (elo game).elim 0 Int32.toInt).sum =
      ((takers rules maxRootPly games key).map fun game => (elo game).elim 0 Int32.toInt).sum.toNat :=
    fun elo helo => sumBits_eq_toNat (sum_elos_takers rules maxRootPly h helo key).1
        (sum_elos_takers rules maxRootPly h helo key).2
  have hpow : (256 : ℕ) ^ 8 = 2 ^ 64 := by norm_num
  unfold edgeContinuation referenceContinuation referenceAgg statisticsOf
  dsimp only
  rw [toNat_ofNat_of_le hlength, hcount, hcount, hcount, hcount, hcount,
    hsum _ fun game hgame => (h.elos game hgame).1, hsum _ fun game hgame => (h.elos game hgame).2, hpow]
  rfl

private theorem length_eq_results (played : List ReplayGame) :
    played.countP (fun game => 0 < mapResult game.result) +
      played.countP (fun game => mapResult game.result = 0) +
      played.countP (fun game => mapResult game.result < 0) = played.length := by
  induction played with
  | nil => rfl
  | cons game played ih =>
    rw [List.countP_cons, List.countP_cons, List.countP_cons, List.length_cons]
    simp only [decide_eq_true_eq]
    rcases lt_trichotomy (mapResult game.result) 0 with hlost | hdrawn | hwon
    · rw [if_neg hlost.not_gt, if_neg hlost.ne, if_pos hlost]
      omega
    · rw [if_neg hdrawn.le.not_gt, if_pos hdrawn, if_neg hdrawn.ge.not_gt]
      omega
    · rw [if_pos hwon, if_neg hwon.ne', if_neg hwon.not_gt]
      omega

private theorem referenceContinuation_accepted (h : Indexable games) {key : EdgeKey}
    (htakers : takers rules maxRootPly games key ≠ []) :
    ¬(referenceContinuation rules encodeF64 maxRootPly games key).Rejected
      (maxPlyForValidation maxRootPly (decide (key.rootHash = fullCoverageRootHash rules)))
      (referenceGameCount rules maxRootPly games key.rootHash) := by
  have hlength : (takers rules maxRootPly games key).length ≤ uint32Max :=
    (List.length_filter_le _ _).trans h.length_le
  have hpos : (takers rules maxRootPly games key).length ≠ 0 := mt List.length_eq_zero_iff.mp htakers
  have hresults := length_eq_results (takers rules maxRootPly games key)
  have hroots : (takers rules maxRootPly games key).length ≤
    referenceGameCount rules maxRootPly games key.rootHash := length_takers_le key
  have hvisits : (takers rules maxRootPly games key).length ≤ visitCount rules games key.childHash :=
    length_takers_le_visitCount key
  have hvisitors : visitCount rules games key.childHash ≤ uint32Max :=
    List.countP_le_length.trans h.length_le
  have hsum : ∀ elo : ReplayGame → Option Int32,
      (∀ game ∈ games, ∀ e ∈ elo game, 0 ≤ e.toInt ∧ e.toInt ≤ 32767) →
      ((takers rules maxRootPly games key).map fun game =>
        (elo game).elim 0 Int32.toInt).sum.toNat ≤ int64Max := by
    intro elo helo
    have hlt := (sum_elos_takers rules maxRootPly h helo key).2
    rw [int64Max]
    omega
  have hwhiteSum := hsum _ fun game hgame => (h.elos game hgame).1
  have hblackSum := hsum _ fun game hgame => (h.elos game hgame).2
  have hply : (leastPly (games.flatMap (coveredEdges rules maxRootPly)) key).getD 0 ≤
      maxPlyForValidation maxRootPly (decide (key.rootHash = fullCoverageRootHash rules)) := by
    obtain ⟨ply, hply, game, hgame, hcovered⟩ := exists_leastPly htakers
    obtain ⟨hplayed, hcap⟩ := List.mem_filter.mp hcovered
    have hlt := (mem_playedFrom hplayed).1
    have hmoves := h.moves game hgame
    rw [decide_eq_true_eq] at hcap
    rw [hply, Option.getD_some, maxPlyForValidation]
    by_cases hstart : key.rootHash = fullCoverageRootHash rules
    · rw [if_pos (decide_eq_true hstart), uint16Max]
      omega
    · rw [if_neg (by simpa using hstart)]
      exact hcap.resolve_right hstart
  obtain ⟨least, hleast⟩ : ∃ least,
      ((takers rules maxRootPly games key).map ReplayGame.id).min? = some least :=
    Option.ne_none_iff_exists'.mp fun hnone =>
      htakers (List.map_eq_nil_iff.mp (List.min?_eq_none_iff.mp hnone))
  obtain ⟨greatest, hgreatest⟩ : ∃ greatest,
      ((takers rules maxRootPly games key).map ReplayGame.id).max? = some greatest :=
    Option.ne_none_iff_exists'.mp fun hnone =>
      htakers (List.map_eq_nil_iff.mp (List.max?_eq_none_iff.mp hnone))
  have hid : ∀ id ∈ (takers rules maxRootPly games key).map ReplayGame.id,
      1 ≤ id ∧ id ≤ uint32Max := by
    intro id hid
    obtain ⟨taker, htaker, rfl⟩ := List.mem_map.mp hid
    have := h.ids taker (takers_subset htaker)
    rw [uint32Max]
    omega
  have hsamples := (List.max?_eq_some_iff.mp hgreatest).2 least (List.min?_mem hleast)
  have hleast' := hid least (List.min?_mem hleast)
  have hgreatest' := hid greatest (List.max?_mem hgreatest)
  have hwhiteCount : (takers rules maxRootPly games key).countP
      (fun game : ReplayGame => game.whiteElo.isSome) ≤ _ := List.countP_le_length
  have hblackCount : (takers rules maxRootPly games key).countP
      (fun game : ReplayGame => game.blackElo.isSome) ≤ _ := List.countP_le_length
  have hfit : (takers rules maxRootPly games key).length < 2 ^ 64 := by
    rw [uint32Max] at hlength
    omega
  unfold Continuation.Rejected referenceContinuation
  dsimp only
  rw [hleast, hgreatest, Option.getD_some, Option.getD_some, hresults, Nat.mod_eq_of_lt hfit]
  simp only [visitCount] at hvisits hvisitors
  omega

end Reference

section Written

variable {rules : Chess.Rules} {encodeF64 : ℚ → ℕ}

private theorem exists_writeNodes {frequencyOf : ℕ → Result ℕ} (roots : List (ℕ × ℕ))
    {edges : List (EdgeKey × EdgeAgg)} (h : ∀ e ∈ edges, ∃ n, frequencyOf e.1.childHash = .ok n ∧
      e.2.frequency.toNat ≤ n) :
    ∃ bytes, writeNodes rules encodeF64 frequencyOf roots edges = .ok bytes := by
  have hrecords : ∀ edges : List (EdgeKey × EdgeAgg), (∀ e ∈ edges, ∃ n,
      frequencyOf e.1.childHash = .ok n ∧ e.2.frequency.toNat ≤ n) →
      ∃ bytes, writeContinuations encodeF64 frequencyOf edges = .ok bytes := by
    intro edges h
    induction edges with
    | nil => exact ⟨[], rfl⟩
    | cons e edges ih =>
      obtain ⟨n, hn, hle⟩ := h e List.mem_cons_self
      obtain ⟨bytes, hbytes⟩ := ih fun e' he' => h e' (List.mem_cons_of_mem e he')
      rw [writeContinuations, hn, ok_bind, if_neg hle.not_gt, hbytes]
      exact ⟨_, rfl⟩
  induction roots generalizing edges with
  | nil => exact ⟨[], rfl⟩
  | cons root roots ih =>
    obtain ⟨records, hfront⟩ := hrecords (edges.takeWhile fun e => e.1.rootHash = root.1) fun e he =>
      h e ((List.takeWhile_prefix _).subset he)
    have hdrop : ∀ e ∈ edges.dropWhile (fun e => e.1.rootHash = root.1), ∃ n,
        frequencyOf e.1.childHash = .ok n ∧ e.2.frequency.toNat ≤ n :=
      fun e he => h e ((List.dropWhile_suffix _).subset he)
    obtain ⟨nodes, hback⟩ := ih hdrop
    rw [writeNodes, hfront, ok_bind, hback]
    exact ⟨_, rfl⟩

variable {games : List ReplayGame} {maxRootPly : UInt16}

variable (rules encodeF64 maxRootPly) in
private theorem exists_treeFile (h : Indexable games) :
    ∃ file, treeFile rules encodeF64 maxRootPly games = .ok file := by
  have hacc : Accepted rules maxRootPly.toNat games := h.accepted _
  have hids : ∀ game ∈ games, game.id < 2 ^ 32 := fun game hgame => (h.ids game hgame).2
  obtain ⟨nodes, hnodes⟩ : ∃ nodes, writeNodes rules encodeF64 (lookupCount rules games)
      (treeRoots rules maxRootPly.toNat games) (treeEdges rules maxRootPly.toNat games) = .ok nodes := by
    apply exists_writeNodes
    rintro ⟨key, agg⟩ he
    obtain ⟨htakers, hagg⟩ := (mem_treeEdges hacc.moves hids).mp he
    dsimp only at htakers hagg
    subst hagg
    have hlength : (takers rules maxRootPly.toNat games key).length ≤ uint32Max :=
      (List.length_filter_le _ _).trans h.length_le
    have hvisits : (takers rules maxRootPly.toNat games key).length ≤
      visitCount rules games key.childHash := length_takers_le_visitCount key
    have hpos := List.length_pos_iff.mpr htakers
    have hne : visitCount rules games key.childHash ≠ 0 := by omega
    refine ⟨_, lookupCount_eq hacc hne, ?_⟩
    show (UInt32.ofNat (takers rules maxRootPly.toNat games key).length).toNat ≤ _
    rwa [toNat_ofNat_of_le hlength]
  rw [treeFile, if_pos (accepted_iff.mp hacc)]
  have hlookup : (fun hash => orIoFailure ((findKey Prod.fst (gameCounts rules games) hash).map
    fun p => p.2.toNat)) = lookupCount rules games := rfl
  rw [hlookup, hnodes]
  exact ⟨_, rfl⟩

private theorem rootAccepted_iff (h : Indexable games) {root : ℕ × ℕ}
    (hroot : root ∈ treeRoots rules maxRootPly.toNat games) (rootCount : ℕ) :
    RootAccepted rules ⟨maxRootPly.toNat, games.length, rootCount⟩
        (recordsAt rules encodeF64 maxRootPly.toNat games) root ↔
      (referenceEdges rules maxRootPly.toNat games root.1).length ≤ uint32Max := by
  obtain ⟨hash, count⟩ := root
  obtain ⟨hcount, hne⟩ := (mem_treeRoots h.moves).mp hroot
  dsimp only at hcount hne ⊢
  have hrecords : (recordsAt rules encodeF64 maxRootPly.toNat games hash).length =
      (referenceEdges rules maxRootPly.toNat games hash).length := List.length_map _
  constructor
  · intro haccepted
    rw [← hrecords]
    exact haccepted.continuations
  · intro hle
    refine ⟨⟨hne, ?_⟩, hrecords.trans_le hle, ?_, ?_⟩
    · rw [← hcount]
      exact List.countP_le_length.trans h.length_le
    · rintro rfl
      rw [← hcount]
      exact referenceGameCount_start games
    · intro c hc
      obtain ⟨key, hkey, rfl⟩ := List.mem_map.mp hc
      obtain ⟨htakers, rfl⟩ := mem_referenceEdges.mp hkey
      rw [edgeContinuation_referenceAgg h, ← hcount]
      exact referenceContinuation_accepted h htakers

private theorem exists_board_of_played {board : rules.Board} {ply p : ℕ} {moves : List UInt16}
    {key : EdgeKey} (h : (key, p) ∈ playedFrom rules board ply moves) :
    ∃ board encodedMove, key = ⟨(rules.hash board).toNat, encodedMove.toNat,
      (rules.hash (rules.applyEncodedMove board encodedMove)).toNat⟩ := by
  induction moves generalizing board ply with
  | nil => cases h
  | cons encodedMove moves ih =>
    rcases List.mem_cons.mp h with hhead | htail
    · exact ⟨board, encodedMove, (Prod.mk.inj hhead).1⟩
    · exact ih htail

private theorem length_referenceEdges_le (hrules : rules.ContinuationsFit) (maxRootPly : ℕ)
    (games : List ReplayGame) (hash : ℕ) :
    (referenceEdges rules maxRootPly games hash).length ≤ uint32Max := by
  set edges := referenceEdges rules maxRootPly games hash with hedges
  have hplayed : ∀ key ∈ edges, ∃ board encodedMove, (rules.hash board).toNat = hash ∧
      key = ⟨hash, encodedMove.toNat,
        (rules.hash (rules.applyEncodedMove board encodedMove)).toNat⟩ := by
    intro key hkey
    obtain ⟨htakers, hroot⟩ := mem_referenceEdges.mp hkey
    obtain ⟨ply, -, game, -, hcovered⟩ := exists_leastPly htakers
    obtain ⟨board, encodedMove, rfl⟩ := exists_board_of_played (List.mem_filter.mp hcovered).1
    exact ⟨board, encodedMove, hroot, by rw [← hroot]⟩
  have hinj : ∀ key ∈ edges, ∀ key' ∈ edges,
      (UInt16.ofNat key.encodedMove, UInt64.ofNat key.childHash) =
        (UInt16.ofNat key'.encodedMove, UInt64.ofNat key'.childHash) → key = key' := by
    intro key hkey key' hkey' heq
    obtain ⟨board, move, -, rfl⟩ := hplayed key hkey
    obtain ⟨board', move', -, rfl⟩ := hplayed key' hkey'
    simpa [UInt16.toNat_inj, UInt64.toNat_inj] using heq
  have hnodup : edges.Nodup := (pairwise_referenceEdges maxRootPly games hash).imp fun hlt => hlt.ne
  have hlength := hrules (UInt64.ofNat hash)
    (edges.map fun key => (UInt16.ofNat key.encodedMove, UInt64.ofNat key.childHash))
    (hnodup.map_on hinj) ?_
  · rw [List.length_map] at hlength
    rw [uint32Max]
    omega
  · intro way hway
    obtain ⟨key, hkey, rfl⟩ := List.mem_map.mp hway
    obtain ⟨board, move, rfl, rfl⟩ := hplayed key hkey
    exact ⟨board, by simp, by simp⟩

variable (rules encodeF64) in
/-- The index of indexable games can be built and opened, and answers with the statistics of the
games. -/
theorem answers_of_indexable (order : IterationOrder) (opts : BuildOptions)
    (hthreshold : 1 ≤ opts.spillThreshold) {source : Option ChildCountStream}
    (hsource : CountSource rules games source) (h : Indexable games)
    (hrules : rules.ContinuationsFit) :
    ∃ file index, build rules encodeF64 order opts source games = .ok file ∧
      openIndex rules file = .ok index ∧
      index.Answers rules encodeF64 opts.maxRootPly.toNat games file := by
  obtain ⟨file, hfile⟩ := exists_treeFile rules encodeF64 opts.maxRootPly h
  rcases openIndex_treeFile (fun game hgame => (h.ids game hgame).2) hfile with
    ⟨index, hopen, hanswers, -⟩ | ⟨-, root, hroot, hnot⟩
  · refine ⟨file, index, (build_eq rules encodeF64 order hthreshold hsource).trans hfile, hopen,
      hanswers.gameCount, fun hash => ?_⟩
    have hreference : recordsAt rules encodeF64 opts.maxRootPly.toNat games hash =
        (referenceEdges rules opts.maxRootPly.toNat games hash).map
          (referenceContinuation rules encodeF64 opts.maxRootPly.toNat games) :=
      List.map_congr_left fun key _ => edgeContinuation_referenceAgg h key
    rw [index.queryOpeningStats_eq, hanswers.records, hreference]
    show Except.ok _ = _
    rw [List.map_map]
    rfl
  · have hle := length_referenceEdges_le hrules opts.maxRootPly.toNat games root.1
    exact absurd ((rootAccepted_iff h hroot _).mpr hle) hnot

end Written

section Sample

theorem continuationsFit_ofSums : Chess.Rules.ofSums.ContinuationsFit := by
  intro hash ways hnodup hways
  have hmove : ∀ way ∈ ways, way = (way.1, hash + way.1.toUInt64) := by
    intro way hway
    obtain ⟨board, rfl, hchild⟩ := hways way hway
    exact Prod.ext rfl hchild.symm
  have hfst : (ways.map Prod.fst).Nodup := by
    refine hnodup.map_on fun way hway way' hway' heq => ?_
    rw [hmove way hway, hmove way' hway', heq]
  have hnat : ((ways.map Prod.fst).map UInt16.toNat).Nodup :=
    hfst.map fun move move' heq => UInt16.toNat_inj.mp heq
  have hsub : (ways.map Prod.fst).map UInt16.toNat ⊆ List.range (2 ^ 16) := by
    intro n hn
    obtain ⟨move, -, rfl⟩ := List.mem_map.mp hn
    exact List.mem_range.mpr move.toNat_lt
  have hlength := (hnat.subperm hsub).length_le
  simp only [List.length_map, List.length_range] at hlength
  omega

private def eloInRange (elo : Int32) : Bool := decide (0 ≤ elo.toInt ∧ elo.toInt ≤ 32767)

private theorem inRange_of_all {rating : Option Int32} {elo : Int32}
    (h : rating.all eloInRange = true) (helo : elo ∈ rating) : 0 ≤ elo.toInt ∧ elo.toInt ≤ 32767 := by
  rw [Option.mem_def.mp helo] at h
  exact of_decide_eq_true h

theorem answers_of_indexable_sample : ∃ file index,
    build .ofSums (fun q => q.num.toNat) reverseOrder ⟨1, 1, 0⟩ none transposingGames = .ok file ∧
      openIndex .ofSums file = .ok index ∧
      index.Answers .ofSums (fun q => q.num.toNat) 1 transposingGames file := by
  refine answers_of_indexable .ofSums _ reverseOrder ⟨1, 1, 0⟩ le_rfl .own
    ⟨by decide, by decide, fun game hgame => ?_, by decide⟩ continuationsFit_ofSums
  have hinside : ∀ game ∈ transposingGames,
      game.whiteElo.all eloInRange = true ∧ game.blackElo.all eloInRange = true := by decide
  obtain ⟨hwhite, hblack⟩ := hinside game hgame
  exact ⟨fun elo helo => inRange_of_all hwhite helo, fun elo helo => inRange_of_all hblack helo⟩

end Sample

end MotifChess.Db.OpeningTreeIndex
