/- GID: MotifChess/Db/OpeningTreeIndex/Independence
   generality: implementation
   digest: The bytes of a tree index depend on the games and the ply cap, not on the resources. -/

import MotifChess.Db.OpeningTreeIndex.PostingCounts

set_option autoImplicit false
set_option relaxedAutoImplicit false

namespace MotifChess.Db.OpeningTreeIndex

open Codec LittleEndian
open MotifChess.Order.Aggregation MotifChess.Order.Bisection
open PositionPostings

section Prescribed

variable (rules : Chess.Rules) (encodeF64 : ℚ → ℕ)

/-- How many games visit each position, as 32-bit counts. -/
def gameCounts (games : List ReplayGame) : List (ℕ × UInt32) :=
  (aggregate (· + ·) (ones (visitsOf rules games))).map (Prod.map id UInt32.ofNat)

/-- What the games prescribe as the file: every root with its games and its edges, and of every
edge how many games visit its child.  Nothing is spilled, and nothing is searched on disk. -/
def treeFile (maxRootPly : UInt16) (games : List ReplayGame) : Result (List UInt8) := do
  let roots := aggregate (· + ·) (ones (rootsOf rules maxRootPly.toNat games))
  let edges := aggregate mergeEdgeAgg (edgesOf rules maxRootPly.toNat games)
  if (games.all fun game => game.moves.length ≤ 2 ^ 16) ∧ roots.all fun p => countFits p.2 then do
    let nodes ← writeNodes rules encodeF64
      (fun hash => orIoFailure ((findKey Prod.fst (gameCounts rules games) hash).map fun p =>
        p.2.toNat)) roots edges
    return headerBytes maxRootPly games.length roots.length ++ nodes
  else .error .ioFailure

/-- Where child counts come from: the builder's own counter, or postings of the same games. -/
inductive CountSource (games : List ReplayGame) : Option ChildCountStream → Prop
  | own : CountSource games none
  | postings {threshold : ℕ} {file : List UInt8} {reader : PositionPostings.Reader} :
      1 ≤ threshold → PositionPostings.build rules threshold games = .ok file →
      openArtifact file = .ok reader →
      CountSource games (some (postingsChildCounts reader file))

end Prescribed

section Counts

variable {rules : Chess.Rules} {games : List ReplayGame}

theorem mem_gameCounts {hash : ℕ} {count : UInt32} :
    (hash, count) ∈ gameCounts rules games ↔
      (visitsOf rules games).count hash ≠ 0 ∧
        count = UInt32.ofNat ((visitsOf rules games).count hash) := by
  rw [gameCounts, List.mem_map]
  constructor
  · rintro ⟨⟨k, n⟩, hmem, heq⟩
    obtain ⟨rfl, rfl⟩ := Prod.mk.inj heq
    obtain ⟨rfl, hne⟩ := mem_aggregate_ones.mp hmem
    exact ⟨hne, rfl⟩
  · rintro ⟨hne, rfl⟩
    exact ⟨(hash, _), mem_aggregate_ones.mpr ⟨rfl, hne⟩, rfl⟩

theorem pairwise_gameCounts : ((gameCounts rules games).map Prod.fst).Pairwise (· < ·) := by
  rw [gameCounts, List.map_map]
  exact pairwise_lt_aggregate _ _

theorem lt_of_mem_hashesAfter {board : rules.Board} {moves : List UInt16} {h : ℕ}
    (hmem : h ∈ hashesAfter rules board moves) : h < 2 ^ 64 := by
  induction moves generalizing board with
  | nil => cases hmem
  | cons move moves ih =>
    rw [hashesAfter] at hmem
    rcases List.mem_cons.mp hmem with rfl | hmem
    · exact UInt64.toNat_lt _
    · exact ih hmem

private theorem lt_of_mem_visitsOf {h : ℕ} (hmem : h ∈ visitsOf rules games) : h < 2 ^ 64 := by
  obtain ⟨game, -, hmem⟩ := List.mem_flatMap.mp hmem
  rcases List.mem_cons.mp ((mem_gameVisits rules).mp hmem) with rfl | hmem
  · exact UInt64.toNat_lt _
  · exact lt_of_mem_hashesAfter hmem

private theorem length_hashesAfter (board : rules.Board) (moves : List UInt16) :
    (hashesAfter rules board moves).length = moves.length := by
  induction moves generalizing board with
  | nil => rfl
  | cons move moves ih => rw [hashesAfter, List.length_cons, ih, List.length_cons]

variable (rules) in
private theorem length_gameVisits_le (game : ReplayGame) :
    (gameVisits rules game).length ≤ game.moves.length + 1 := by
  have hsub : gameVisits rules game ⊆
      fullCoverageRootHash rules :: hashesAfter rules rules.start game.moves := fun h hh =>
    (mem_gameVisits rules).mp hh
  have hle := ((nodup_gameVisits rules game).subperm hsub).length_le
  rwa [List.length_cons, length_hashesAfter] at hle

variable (rules) in
theorem length_visitsOf_le (h : ∀ game ∈ games, game.moves.length ≤ 2 ^ 16) :
    (visitsOf rules games).length ≤ games.length * (2 ^ 16 + 1) := by
  induction games with
  | nil => exact Nat.zero_le _
  | cons game games ih =>
    have hgame := h game List.mem_cons_self
    have hvisits := length_gameVisits_le rules game
    have hrest := ih fun g hg => h g (List.mem_cons_of_mem game hg)
    have hcons : visitsOf rules (game :: games) =
        gameVisits rules game ++ visitsOf rules games := List.flatMap_cons
    rw [hcons, List.length_append, List.length_cons, Nat.succ_mul]
    omega

private theorem count_le_uint32Max {maxRootPly : ℕ} (h : Accepted rules maxRootPly games) (hash : ℕ) :
    (visitsOf rules games).count hash ≤ uint32Max := countsFit_iff.mp (h.visits rules) hash

private theorem ofNat_ne_zero {n : ℕ} (hne : n ≠ 0) (hle : n ≤ uint32Max) : UInt32.ofNat n ≠ 0 := by
  intro hzero
  have := congrArg UInt32.toNat hzero
  rw [UInt32.toNat_ofNat'] at this
  unfold uint32Max at hle
  simp at this
  omega

private theorem Accepted.countTable {maxRootPly : ℕ} (h : Accepted rules maxRootPly games) :
    CountTable (gameCounts rules games) where
  ascending := pairwise_gameCounts
  hash_lt := by
    rintro ⟨hash, count⟩ hp
    exact lt_of_mem_visitsOf (List.count_pos_iff.mp (Nat.pos_of_ne_zero (mem_gameCounts.mp hp).1))
  ne_zero := by
    rintro ⟨hash, count⟩ hp
    obtain ⟨hne, rfl⟩ := mem_gameCounts.mp hp
    exact ofNat_ne_zero hne (count_le_uint32Max h hash)
  length_lt := by
    have hle : (gameCounts rules games).length ≤ (visitsOf rules games).length := by
      rw [gameCounts, List.length_map]
      have := length_aggregate_le (· + ·) (ones (visitsOf rules games))
      rwa [ones, List.length_map] at this
    have hvisits := length_visitsOf_le rules h.moves
    have hgames := h.length_le rules
    unfold uint32Max at hgames
    have hmul := Nat.mul_le_mul_right (2 ^ 16 + 1) hgames
    omega

theorem Counts.finalize_eq {counter : HashVisitCounter} {maxRootPly : ℕ}
    (h : Counts counter (visitsOf rules games)) (hacc : Accepted rules maxRootPly games) :
    counter.finalize = .ok (countsFile (gameCounts rules games)) := by
  rw [HashVisitCounter.finalize]
  rcases h.spill countFits_of_add with ⟨next, hspill, hempty, hnext⟩ | ⟨-, hnot⟩
  · rw [hspill]
    dsimp only [orIoFailure]
    rw [ok_bind, hnext.mergeRuns_map_eq (fun a b => UInt32.ofNat_add a b) hempty]
    rfl
  · exact absurd (hacc.visits rules) hnot

theorem distinctGameCount_of_summaryAt {rows : List PositionRow} {hash : UInt64}
    {summary : PositionPostingsSummary} (h : summaryAt rows hash = some summary) :
    summary.distinctGameCount = (gameIdsAt rows hash).length := by
  obtain ⟨minPly, -, h⟩ := Option.bind_eq_some_iff.mp h
  obtain ⟨maxPly, -, h⟩ := Option.bind_eq_some_iff.mp h
  obtain rfl := Option.some.inj h
  rfl

theorem exists_summaryAt {rows : List PositionRow} {hash : UInt64}
    (h : (gameIdsAt rows hash).length ≠ 0) : ∃ summary, summaryAt rows hash = some summary := by
  have hne : (occurrencesAt rows hash).map (fun o => o.ply.toNat) ≠ [] := by
    intro hnil
    have hempty : occurrencesAt rows hash = [] := List.map_eq_nil_iff.mp hnil
    rw [gameIdsAt, hempty] at h
    exact h rfl
  obtain ⟨minPly, hmin⟩ := Option.ne_none_iff_exists'.mp fun hnone =>
    hne (List.min?_eq_none_iff.mp hnone)
  obtain ⟨maxPly, hmax⟩ := Option.ne_none_iff_exists'.mp fun hnone =>
    hne (List.max?_eq_none_iff.mp hnone)
  refine ⟨⟨((occurrencesAt rows hash).map fun o => o.ply.toNat).length,
    (gameIdsAt rows hash).length, minPly, maxPly⟩, ?_⟩
  unfold summaryAt
  dsimp only
  rw [hmin, hmax]
  rfl

private theorem materialize_eq {threshold maxRootPly : ℕ} {file : List UInt8}
    {reader : PositionPostings.Reader} (hthreshold : 1 ≤ threshold)
    (hbuild : PositionPostings.build rules threshold games = .ok file)
    (hopen : openArtifact file = .ok reader) (hacc : Accepted rules maxRootPly games) :
    materializeChildCounts (postingsChildCounts reader file) =
      .ok (countsFile (gameCounts rules games)) := by
  obtain ⟨reader', hopen', hanswers, -⟩ := build_answers_of_ok rules hthreshold hbuild
  obtain rfl := Except.ok.inj (hopen.symm.trans hopen')
  obtain ⟨blocks, hblocks, hsparse, hintact⟩ := openArtifact_sound hopen
  have hreplayed := replayed_of_build hthreshold hbuild
  have hascending := hintact.hashes_ascending
  have hfind : ∀ hash : UInt64,
      (blocks.flatten.find? fun entry => decide (entry.hash = hash.toNat)).map
        DirectoryBlockEntry.summary = summaryAt (gameRows rules games) hash := by
    intro hash
    have hsummary := hanswers.summary hash
    rw [Reader.summary, findDirectoryBlockEntry_eq hblocks hsparse hascending, ok_bind] at hsummary
    exact Except.ok.inj hsummary
  have hcount : ∀ entry ∈ blocks.flatten,
      entry.distinctGameCount = (visitsOf rules games).count entry.hash := by
    intro entry hentry
    have hhash : (UInt64.ofNat entry.hash).toNat = entry.hash :=
      UInt64.toNat_ofNat_of_lt' (hintact.valid entry hentry).2
    have hfound : (blocks.flatten.find? fun e => decide (e.hash = entry.hash)) = some entry := by
      rw [← findKey_eq_find? hascending.sortedLT]
      exact (findKey_eq_some hascending.sortedLT).mpr ⟨hentry, rfl⟩
    have hsummary := hfind (UInt64.ofNat entry.hash)
    rw [hhash, hfound] at hsummary
    have hdistinct := distinctGameCount_of_summaryAt hsummary.symm
    rw [length_gameIdsAt hreplayed, hhash] at hdistinct
    exact hdistinct
  have hmem : ∀ p, p ∈ blocks.flatten.map entryCount ↔ p ∈ gameCounts rules games := by
    rintro ⟨hash, count⟩
    rw [List.mem_map, mem_gameCounts]
    constructor
    · rintro ⟨entry, hentry, heq⟩
      obtain ⟨rfl, rfl⟩ := Prod.mk.inj heq
      rw [← hcount entry hentry]
      exact ⟨(hintact.valid entry hentry).1.distinct_pos.ne', rfl⟩
    · rintro ⟨hne, rfl⟩
      have hlt := lt_of_mem_visitsOf (List.count_pos_iff.mp (Nat.pos_of_ne_zero hne))
      have hhash : (UInt64.ofNat hash).toNat = hash := UInt64.toNat_ofNat_of_lt' hlt
      have hids := length_gameIdsAt hreplayed (UInt64.ofNat hash)
      rw [hhash] at hids
      obtain ⟨summary, hsummary⟩ := exists_summaryAt (hids ▸ hne)
      have hfound := hfind (UInt64.ofNat hash)
      rw [hsummary, hhash, Option.map_eq_some_iff] at hfound
      obtain ⟨entry, hentry, -⟩ := hfound
      have hkey : entry.hash = hash := by simpa using List.find?_some hentry
      have hentry := List.mem_of_find?_eq_some hentry
      refine ⟨entry, hentry, ?_⟩
      rw [entryCount, hcount entry hentry, hkey]
  have htable : blocks.flatten.map entryCount = gameCounts rules games := by
    apply eq_of_mem_iff _ pairwise_gameCounts hmem
    rw [List.map_map]
    exact hascending
  have hne : ∀ p ∈ gameCounts rules games, p.2 ≠ 0 := hacc.countTable.ne_zero
  rw [materializeChildCounts, postingsChildCounts_eq hblocks, htable,
    foldlM_writeChildCount (by simpa using pairwise_gameCounts) hne]
  rfl

end Counts

section Write

variable {rules : Chess.Rules} {encodeF64 : ℚ → ℕ} {f g : ℕ → Result ℕ}

private theorem writeContinuations_congr {edges : List (EdgeKey × EdgeAgg)}
    (h : ∀ e ∈ edges, f e.1.childHash = g e.1.childHash) :
    writeContinuations encodeF64 f edges = writeContinuations encodeF64 g edges := by
  induction edges with
  | nil => rfl
  | cons e edges ih =>
    rw [writeContinuations, writeContinuations, h e List.mem_cons_self,
      ih fun e' he' => h e' (List.mem_cons_of_mem e he')]

private theorem writeNodes_congr {roots : List (ℕ × ℕ)} {edges : List (EdgeKey × EdgeAgg)}
    (h : ∀ e ∈ edges, f e.1.childHash = g e.1.childHash) :
    writeNodes rules encodeF64 f roots edges = writeNodes rules encodeF64 g roots edges := by
  induction roots generalizing edges with
  | nil => rfl
  | cons root roots ih =>
    have hfront : ∀ e ∈ edges.takeWhile (fun e => e.1.rootHash = root.1),
        f e.1.childHash = g e.1.childHash := fun e he => h e ((List.takeWhile_prefix _).subset he)
    have hback : ∀ e ∈ edges.dropWhile (fun e => e.1.rootHash = root.1),
        f e.1.childHash = g e.1.childHash := fun e he => h e ((List.dropWhile_suffix _).subset he)
    rw [writeNodes, writeNodes, writeContinuations_congr hfront, ih hback]

private theorem writeIndexFile_eq {counts : List (ℕ × UInt32)} (hcounts : CountTable counts)
    (opts : BuildOptions) (sourceGameCount : ℕ) (roots : List (ℕ × ℕ))
    (edges : List (EdgeKey × EdgeAgg)) :
    writeIndexFile rules encodeF64 opts sourceGameCount roots edges (countsFile counts) = do
      let nodes ← writeNodes rules encodeF64
        (fun hash => orIoFailure ((findKey Prod.fst counts hash).map fun p => p.2.toNat)) roots edges
      return headerBytes opts.maxRootPly sourceGameCount roots.length ++ nodes := by
  obtain ⟨frequencies, hload, hlookup⟩ :=
    lookup_eq hcounts opts.childFrequencyMemoryLimitBytes
  rw [writeIndexFile, readLe_countsFile hcounts.length_lt]
  dsimp only [orIoFailure]
  rw [ok_bind]
  dsimp only
  rw [hload, ok_bind]
  have hnodes : writeNodes rules encodeF64
      (lookupChildFrequency frequencies (countsFile counts) counts.length) roots edges =
      writeNodes rules encodeF64
        (fun hash => orIoFailure ((findKey Prod.fst counts hash).map fun p => p.2.toNat))
        roots edges :=
    writeNodes_congr fun e he => hlookup e.1.childHash (List.mem_map_of_mem he)
  rw [hnodes]
  rfl

end Write

section Build

variable {rules : Chess.Rules} {encodeF64 : ℚ → ℕ} {games : List ReplayGame}
  {opts : BuildOptions} {source : Option ChildCountStream} {b : Builder}

theorem accepted_iff {maxRootPly : ℕ} : Accepted rules maxRootPly games ↔
    (games.all fun game => game.moves.length ≤ 2 ^ 16) ∧
      (aggregate (· + ·) (ones (rootsOf rules maxRootPly games))).all fun p => countFits p.2 := by
  rw [all_aggregate_iff, List.all_eq_true]
  simp only [decide_eq_true_eq]
  exact ⟨fun h => ⟨h.moves, h.roots⟩, fun h => ⟨h.1, h.2⟩⟩

private theorem Accumulated.childCountsFile_eq (h : Accumulated rules opts source b games)
    (hsource : CountSource rules games source)
    (hacc : Accepted rules opts.maxRootPly.toNat games) :
    b.childCountsFile = .ok (countsFile (gameCounts rules games)) := by
  rw [Builder.childCountsFile, h.source]
  cases hsource with
  | own => exact (h.visits rfl).finalize_eq hacc
  | postings hthreshold hbuild hopen => exact materialize_eq hthreshold hbuild hopen hacc

theorem Accumulated.finalize_eq (h : Accumulated rules opts source b games)
    (hsource : CountSource rules games source) :
    (b.finalize rules encodeF64).2 = treeFile rules encodeF64 opts.maxRootPly games := by
  have hopen : ¬b.finalized = true := by simp [h.finalized]
  rw [Builder.finalize, if_neg hopen, h.failure, treeFile]
  dsimp only
  rw [h.spills.mergeRoots, h.spills.mergeEdges, h.count, h.options]
  by_cases hacc : Accepted rules opts.maxRootPly.toNat games
  · have hcond := accepted_iff.mp hacc
    rw [if_pos hcond.2, if_pos hcond, ok_bind, ok_bind, h.childCountsFile_eq hsource hacc, ok_bind,
      writeIndexFile_eq hacc.countTable]
  · rw [if_neg fun hcond => hacc (accepted_iff.mpr hcond),
      if_neg fun hroots => hacc ⟨h.moves, all_aggregate_iff.mp hroots⟩]
    rfl

variable (rules encodeF64) in
/-- A build gives what the games prescribe, with any resources. -/
theorem build_eq (order : IterationOrder) (hthreshold : 1 ≤ opts.spillThreshold)
    (hsource : CountSource rules games source) :
    build rules encodeF64 order opts source games =
      treeFile rules encodeF64 opts.maxRootPly games := by
  rw [build]
  rcases (Accumulated.new rules opts source).accumulateAll hthreshold order games with
    ⟨b, hrun, hb⟩ | ⟨b, hrun, hnot⟩
  · rw [hrun]
    exact hb.finalize_eq hsource
  · rw [hrun, treeFile]
    rw [List.nil_append] at hnot
    exact (if_neg fun hcond => hnot (accepted_iff.mpr hcond)).symm

variable (rules encodeF64) in
/-- The spill threshold, the memory limit, the source of the child counts and the iteration order of
hash tables make no difference to the bytes of a tree index. -/
theorem build_independent (games : List ReplayGame) (maxRootPly : UInt16)
    (order order' : IterationOrder) {threshold threshold' : ℕ} (limit limit' : ℕ)
    {source source' : Option ChildCountStream} (hthreshold : 1 ≤ threshold)
    (hthreshold' : 1 ≤ threshold') (hsource : CountSource rules games source)
    (hsource' : CountSource rules games source') :
    build rules encodeF64 order ⟨maxRootPly, threshold, limit⟩ source games =
      build rules encodeF64 order' ⟨maxRootPly, threshold', limit'⟩ source' games := by
  rw [build_eq rules encodeF64 order hthreshold hsource,
    build_eq rules encodeF64 order' hthreshold' hsource']

end Build

section Sample

/-- Three games, one of which passes through the start again beyond the ply cap. -/
def transposingGames : List ReplayGame :=
  [⟨1, "1-0", some 2500, some 2400, [1, 2]⟩, ⟨2, "1/2-1/2", none, some 2300, [2, 1, 3]⟩,
    ⟨3, "0-1", some 2000, some 2100, [0, 0, 0, 1]⟩]

def insertionOrder : IterationOrder where
  roots := id
  edges := id
  roots_perm := List.Perm.refl
  edges_perm := List.Perm.refl

def reverseOrder : IterationOrder where
  roots := List.reverse
  edges := List.reverse
  roots_perm := List.reverse_perm
  edges_perm := List.reverse_perm

theorem build_independent_sample :
    ∃ file reader, PositionPostings.build Chess.Rules.ofSums 1 transposingGames = .ok file ∧
      openArtifact file = .ok reader ∧
      (build Chess.Rules.ofSums (fun q => q.num.toNat) insertionOrder ⟨1, 1, 0⟩ none
          transposingGames).toOption.isSome ∧
      build Chess.Rules.ofSums (fun q => q.num.toNat) insertionOrder ⟨1, 1, 0⟩ none
          transposingGames =
        build Chess.Rules.ofSums (fun q => q.num.toNat) reverseOrder ⟨1, 1000, 2 ^ 30⟩
          (some (postingsChildCounts reader file)) transposingGames := by
  have hbuilt : (PositionPostings.build Chess.Rules.ofSums 1 transposingGames).toOption.isSome := by
    decide +kernel
  obtain ⟨file, hfile⟩ := Option.isSome_iff_exists.mp hbuilt
  have hbuild := toOption_eq_some.mp hfile
  obtain ⟨reader, hopen, -⟩ := build_answers_of_ok _ le_rfl hbuild
  refine ⟨file, reader, hbuild, hopen, by decide +kernel, ?_⟩
  exact build_independent _ _ transposingGames 1 insertionOrder reverseOrder 0 (2 ^ 30) le_rfl
    (by decide) .own (.postings le_rfl hbuild hopen)

end Sample

end MotifChess.Db.OpeningTreeIndex
