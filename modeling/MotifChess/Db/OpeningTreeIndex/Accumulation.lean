/- GID: MotifChess/Db/OpeningTreeIndex/Accumulation
   generality: implementation
   digest: What the replayed games add to the builder, whatever was spilled on the way. -/

import MotifChess.Db.OpeningTreeIndex.Builder
import Mathlib.Data.List.Infix

set_option autoImplicit false
set_option relaxedAutoImplicit false

namespace MotifChess.Db.OpeningTreeIndex

open MotifChess.Order.Aggregation

variable (rules : Chess.Rules)

section Contributions

/-- The hashes of the positions after each of the moves. -/
def hashesAfter (board : rules.Board) : List UInt16 → List ℕ
  | [] => []
  | encodedMove :: moves =>
    let board := rules.applyEncodedMove board encodedMove
    (rules.hash board).toNat :: hashesAfter board moves

def visitAll (visited hashes : List ℕ) : List ℕ := hashes.foldl (fun v h => v.insert h) visited

/-- The distinct positions of a game. -/
def gameVisits (game : ReplayGame) : List ℕ :=
  visitAll [] (fullCoverageRootHash rules :: hashesAfter rules rules.start game.moves)

/-- The roots and edges of a game whose moves can be numbered. -/
def gameScratch (maxRootPly : ℕ) (game : ReplayGame) : ReplayScratch :=
  match replayMoves rules maxRootPly rules.start (fullCoverageRootHash rules) 0 game.moves none
    ⟨[], [], [fullCoverageRootHash rules]⟩ with
  | .ok (_, scratch) => scratch
  | .error _ => ⟨[], [], [fullCoverageRootHash rules]⟩

def visitsOf (games : List ReplayGame) : List ℕ := games.flatMap (gameVisits rules)

def rootsOf (maxRootPly : ℕ) (games : List ReplayGame) : List ℕ :=
  games.flatMap fun game => (gameScratch rules maxRootPly game).roots

def edgesOf (maxRootPly : ℕ) (games : List ReplayGame) : List (EdgeKey × EdgeAgg) :=
  games.flatMap fun game =>
    (gameScratch rules maxRootPly game).edges.map fun e => edgeRecord game e.1 e.2

/-- The counts of these records all fit 32 bits. -/
abbrev CountsFit (hashes : List ℕ) : Prop := Fit (· + ·) countFits (ones hashes)

/-- The moves of every game can be numbered, and the games of every root counted. -/
structure Accepted (maxRootPly : ℕ) (games : List ReplayGame) : Prop where
  moves : ∀ game ∈ games, game.moves.length ≤ 2 ^ 16
  roots : CountsFit (rootsOf rules maxRootPly games)

private theorem visitsOf_concat (games : List ReplayGame) (game : ReplayGame) :
    visitsOf rules (games ++ [game]) = visitsOf rules games ++ gameVisits rules game := by
  simp [visitsOf]

private theorem rootsOf_concat (maxRootPly : ℕ) (games : List ReplayGame) (game : ReplayGame) :
    rootsOf rules maxRootPly (games ++ [game]) =
      rootsOf rules maxRootPly games ++ (gameScratch rules maxRootPly game).roots := by
  simp [rootsOf]

private theorem edgesOf_concat (maxRootPly : ℕ) (games : List ReplayGame) (game : ReplayGame) :
    edgesOf rules maxRootPly (games ++ [game]) = edgesOf rules maxRootPly games ++
      (gameScratch rules maxRootPly game).edges.map fun e => edgeRecord game e.1 e.2 := by
  simp [edgesOf]

end Contributions

section Counting

theorem countFits_of_add (a b : ℕ) (h : countFits (a + b) = true) : countFits a = true := by
  unfold countFits at *
  rw [decide_eq_true_eq] at *
  omega

private theorem suffix_visitAll (visited hashes : List ℕ) : visited <:+ visitAll visited hashes := by
  induction hashes generalizing visited with
  | nil => exact List.suffix_rfl
  | cons h hashes ih => exact (List.suffix_insert h visited).trans (ih (visited.insert h))

theorem nodup_visitAll {visited : List ℕ} (h : visited.Nodup) (hashes : List ℕ) :
    (visitAll visited hashes).Nodup := by
  induction hashes generalizing visited with
  | nil => exact h
  | cons hash hashes ih => exact ih h.insert

theorem mem_visitAll {visited hashes : List ℕ} {h : ℕ} :
    h ∈ visitAll visited hashes ↔ h ∈ visited ∨ h ∈ hashes := by
  induction hashes generalizing visited with
  | nil => simp [visitAll]
  | cons hash hashes ih =>
    have hstep : visitAll visited (hash :: hashes) = visitAll (visited.insert hash) hashes := rfl
    rw [hstep, ih, List.mem_insert_iff, List.mem_cons]
    tauto

theorem nodup_gameVisits (game : ReplayGame) : (gameVisits rules game).Nodup :=
  nodup_visitAll List.nodup_nil _

theorem mem_gameVisits {game : ReplayGame} {h : ℕ} :
    h ∈ gameVisits rules game ↔
      h ∈ fullCoverageRootHash rules :: hashesAfter rules rules.start game.moves := by
  rw [gameVisits, mem_visitAll]
  simp

/-- A position is counted once for every game that reaches it. -/
theorem count_visitsOf (games : List ReplayGame) (h : ℕ) :
    (visitsOf rules games).count h = games.countP fun game => h ∈ gameVisits rules game := by
  induction games with
  | nil => rfl
  | cons game games ih =>
    have hcons : visitsOf rules (game :: games) =
        gameVisits rules game ++ visitsOf rules games := List.flatMap_cons
    rw [hcons, List.count_append, ih, List.countP_cons, (nodup_gameVisits rules game).count]
    by_cases hmem : h ∈ gameVisits rules game
    · simp [hmem, Nat.add_comm]
    · simp [hmem]

private theorem mem_roots_replayMoves {maxRootPly prevHash ply : ℕ} {board : rules.Board}
    {moves : List UInt16} {visits visits' : Option HashVisitCounter}
    {scratch scratch' : ReplayScratch} {h : ℕ} (hmem : h ∈ scratch.roots)
    (hrun : replayMoves rules maxRootPly board prevHash ply moves visits scratch =
      .ok (visits', scratch')) : h ∈ scratch'.roots := by
  induction moves generalizing board prevHash ply visits scratch with
  | nil =>
    obtain ⟨-, rfl⟩ := Prod.mk.inj (Except.ok.inj hrun)
    exact hmem
  | cons encodedMove moves ih =>
    rw [replayMoves] at hrun
    by_cases hply : ply > uint16Max
    · rw [if_pos hply] at hrun
      cases hrun
    · rw [if_neg hply, bind_eq_ok] at hrun
      obtain ⟨visited, -, hrun⟩ := hrun
      refine ih ?_ hrun
      dsimp only
      split
      · exact List.mem_insert_of_mem hmem
      · exact hmem

private theorem start_mem_roots (maxRootPly : ℕ) (game : ReplayGame) :
    fullCoverageRootHash rules ∈ (gameScratch rules maxRootPly game).roots := by
  unfold gameScratch
  split
  · next hrun => exact mem_roots_replayMoves rules List.mem_cons_self hrun
  · exact List.mem_cons_self

private theorem length_le_count_rootsOf (maxRootPly : ℕ) (games : List ReplayGame) :
    games.length ≤ (rootsOf rules maxRootPly games).count (fullCoverageRootHash rules) := by
  induction games with
  | nil => exact Nat.zero_le _
  | cons game games ih =>
    have hcons : rootsOf rules maxRootPly (game :: games) =
        (gameScratch rules maxRootPly game).roots ++ rootsOf rules maxRootPly games :=
      List.flatMap_cons
    have hpos := List.count_pos_iff.mpr (start_mem_roots rules maxRootPly game)
    rw [hcons, List.count_append, List.length_cons]
    omega

theorem countsFit_iff {hashes : List ℕ} :
    CountsFit hashes ↔ ∀ h, hashes.count h ≤ uint32Max := by
  constructor
  · intro hfit h
    by_cases hzero : hashes.count h = 0
    · rw [hzero]
      exact Nat.zero_le _
    · have htotal := total_ones h hashes
      rw [if_neg hzero] at htotal
      simpa [countFits] using hfit h _ htotal
  · intro hle h n hn
    rw [total_ones] at hn
    split at hn
    · cases hn
    · obtain rfl := Option.some.inj hn
      simpa [countFits] using hle h

theorem Accepted.length_le {maxRootPly : ℕ} {games : List ReplayGame}
    (h : Accepted rules maxRootPly games) : games.length ≤ uint32Max :=
  (length_le_count_rootsOf rules maxRootPly games).trans (countsFit_iff.mp h.roots _)

/-- Where the roots can be counted, the visits can: no position is reached by more games than the
start. -/
theorem Accepted.visits {maxRootPly : ℕ} {games : List ReplayGame}
    (h : Accepted rules maxRootPly games) : CountsFit (visitsOf rules games) := by
  rw [countsFit_iff]
  intro hash
  rw [count_visitsOf]
  exact List.countP_le_length.trans (h.length_le rules)

end Counting

section Visits

variable {hist visited : List ℕ} {counter : HashVisitCounter}

/-- The counter has taken every visit so far, in some order. -/
abbrev Counts (counter : HashVisitCounter) (hashes : List ℕ) : Prop :=
  Spiller.Holds (· + ·) counter (ones hashes)

theorem Counts.visitOnce (h : Counts counter (hist ++ visited)) (hash : ℕ) :
    (∃ counter', visitOnce (some counter) visited hash =
        .ok (some counter', visited.insert hash) ∧
        Counts counter' (hist ++ visited.insert hash)) ∨
      (OpeningTreeIndex.visitOnce (some counter) visited hash = .error .ioFailure ∧
        ¬CountsFit (hist ++ visited.insert hash)) := by
  unfold OpeningTreeIndex.visitOnce
  dsimp only
  by_cases hmem : hash ∈ visited
  · rw [if_pos hmem, List.insert_of_mem hmem]
    exact Or.inl ⟨counter, rfl, h⟩
  · have hperm : (ones (hist ++ visited) ++ [(hash, 1)]).Perm
        (ones (hist ++ visited.insert hash)) := by
      have hlist : ((hist ++ visited) ++ [hash]).Perm (hist ++ hash :: visited) := by
        rw [List.append_assoc]
        exact (List.perm_append_singleton hash visited).append_left hist
      rw [List.insert_of_not_mem hmem]
      have hmap := hlist.map fun k => (k, 1)
      rwa [List.map_append] at hmap
    rw [if_neg hmem, HashVisitCounter.visit]
    rcases h.add countFits_of_add (hash, 1) with ⟨counter', hadd, hcounts⟩ | ⟨hadd, hnot⟩
    · rw [hadd]
      exact Or.inl ⟨counter', rfl, hcounts.perm hperm⟩
    · rw [hadd]
      exact Or.inr ⟨rfl, fun hfit => hnot (hfit.perm hperm.symm)⟩

private theorem countsFit_of_suffix {visited' : List ℕ} (hsuffix : visited <:+ visited')
    (h : CountsFit (hist ++ visited')) : CountsFit (hist ++ visited) := by
  rw [countsFit_iff] at *
  intro hash
  have hle := hsuffix.sublist.count_le hash
  have := h hash
  rw [List.count_append] at *
  omega

end Visits

section Replay

variable {rules} {maxRootPly prevHash ply : ℕ} {board : rules.Board} {moves : List UInt16}

theorem replayMoves_external (maxRootPly prevHash : ℕ) (board : rules.Board) {ply : ℕ}
    (hply : ply ≤ 2 ^ 16) (moves : List UInt16) (scratch : ReplayScratch) :
    (∃ scratch', replayMoves rules maxRootPly board prevHash ply moves none scratch =
        .ok (none, scratch') ∧ ply + moves.length ≤ 2 ^ 16) ∨
      (replayMoves rules maxRootPly board prevHash ply moves none scratch = .error .ioFailure ∧
        2 ^ 16 < ply + moves.length) := by
  induction moves generalizing board prevHash ply scratch with
  | nil => exact Or.inl ⟨scratch, rfl, by simpa using hply⟩
  | cons encodedMove moves ih =>
    rw [replayMoves, List.length_cons]
    by_cases hlarge : ply > uint16Max
    · unfold uint16Max at *
      exact Or.inr ⟨if_pos hlarge, by omega⟩
    · rw [if_neg hlarge]
      unfold uint16Max at hlarge
      have hassoc : ply + (moves.length + 1) = ply + 1 + moves.length := by omega
      rw [hassoc]
      exact ih _ _ (by omega) _

private theorem replayMoves_own {hist visited visited₀ : List ℕ} {counter : HashVisitCounter}
    (hcounts : Counts counter (hist ++ visited)) (edges : List (EdgeKey × ℕ)) (roots : List ℕ) :
    (∃ counter' visits' scratch',
        replayMoves rules maxRootPly board prevHash ply moves none ⟨visited₀, edges, roots⟩ =
          .ok (visits', scratch') ∧
        replayMoves rules maxRootPly board prevHash ply moves (some counter)
            ⟨visited, edges, roots⟩ =
          .ok (some counter', ⟨visitAll visited (hashesAfter rules board moves),
            scratch'.edges, scratch'.roots⟩) ∧
        Counts counter' (hist ++ visitAll visited (hashesAfter rules board moves))) ∨
      (replayMoves rules maxRootPly board prevHash ply moves (some counter)
          ⟨visited, edges, roots⟩ = .error .ioFailure ∧
        (replayMoves rules maxRootPly board prevHash ply moves none ⟨visited₀, edges, roots⟩ =
            .error .ioFailure ∨
          ¬CountsFit (hist ++ visitAll visited (hashesAfter rules board moves)))) := by
  induction moves generalizing board prevHash ply visited counter edges roots with
  | nil => exact Or.inl ⟨counter, none, ⟨visited₀, edges, roots⟩, rfl, rfl, hcounts⟩
  | cons encodedMove moves ih =>
    rw [replayMoves, replayMoves]
    by_cases hlarge : ply > uint16Max
    · rw [if_pos hlarge, if_pos hlarge]
      exact Or.inr ⟨rfl, Or.inl rfl⟩
    rw [if_neg hlarge, if_neg hlarge]
    dsimp only
    rcases hcounts.visitOnce (rules.hash (rules.applyEncodedMove board encodedMove)).toNat with
      ⟨counter', hvisit, hcounts'⟩ | ⟨hvisit, hnot⟩
    · rw [hvisit]
      exact ih hcounts' _ _
    · rw [hvisit]
      refine Or.inr ⟨rfl, Or.inr fun hfit => hnot ?_⟩
      exact countsFit_of_suffix (suffix_visitAll _ (hashesAfter rules _ moves)) hfit

end Replay

section Spills

variable {s : BuildSpills} {roots : List ℕ} {edges : List (EdgeKey × EdgeAgg)}

private theorem foldlM_addRoot (s : BuildSpills) (hashes : List ℕ) :
    hashes.foldlM BuildSpills.addRoot s =
      orIoFailure ((s.roots.addAll (· + ·) countFits (ones hashes)).map fun roots =>
        { s with roots }) := by
  induction hashes generalizing s with
  | nil => rfl
  | cons hash hashes ih =>
    have hcons : ones (hash :: hashes) = (hash, 1) :: ones hashes := rfl
    rw [List.foldlM_cons, hcons, Spiller.addAll, List.foldlM_cons, BuildSpills.addRoot]
    cases s.roots.add (· + ·) countFits (hash, 1) with
    | none => rfl
    | some next =>
      show List.foldlM BuildSpills.addRoot { s with roots := next } hashes = _
      rw [ih]
      rfl

private theorem foldlM_addEdge {α : Type} (record : α → EdgeKey × EdgeAgg) (s : BuildSpills)
    (l : List α) :
    l.foldlM (fun s a => s.addEdge (record a)) s =
      orIoFailure ((s.edges.addAll mergeEdgeAgg BuildSpills.anyEdge (l.map record)).map fun edges =>
        { s with edges }) := by
  induction l generalizing s with
  | nil => rfl
  | cons a l ih =>
    rw [List.foldlM_cons, List.map_cons, Spiller.addAll, List.foldlM_cons, BuildSpills.addEdge]
    cases s.edges.add mergeEdgeAgg BuildSpills.anyEdge (record a) with
    | none => rfl
    | some next =>
      show List.foldlM _ { s with edges := next } l = _
      rw [ih]
      rfl

private theorem anyEdge_of_merge (a b : EdgeAgg) (_ : BuildSpills.anyEdge (mergeEdgeAgg a b) = true) :
    BuildSpills.anyEdge a = true := rfl

private theorem fit_edges (edges : List (EdgeKey × EdgeAgg)) : Fit mergeEdgeAgg BuildSpills.anyEdge edges :=
  fun _ _ _ => rfl

/-- The spills hold the records of these roots and edges, in some order. -/
structure SpillsHold (s : BuildSpills) (roots : List ℕ) (edges : List (EdgeKey × EdgeAgg)) :
    Prop where
  roots : s.roots.Holds (· + ·) (ones roots)
  edges : s.edges.Holds mergeEdgeAgg edges

theorem SpillsHold.new (threshold : ℕ) : SpillsHold (BuildSpills.new threshold) [] [] :=
  ⟨Spiller.holds_new _ threshold, Spiller.holds_new _ threshold⟩

private theorem SpillsHold.addRoots (h : SpillsHold s roots edges) (hashes : List ℕ) :
    (∃ s', hashes.foldlM BuildSpills.addRoot s = .ok s' ∧
        SpillsHold s' (roots ++ hashes) edges) ∨
      (hashes.foldlM BuildSpills.addRoot s = .error .ioFailure ∧
        ¬CountsFit (roots ++ hashes)) := by
  rw [foldlM_addRoot]
  rcases h.roots.addAll countFits_of_add (ones hashes) with ⟨next, hadd, hnext⟩ | ⟨hadd, hnot⟩
  · rw [hadd]
    rw [← ones_append] at hnext
    exact Or.inl ⟨_, rfl, hnext, h.edges⟩
  · rw [hadd]
    rw [← ones_append] at hnot
    exact Or.inr ⟨rfl, hnot⟩

private theorem SpillsHold.addEdges {α : Type} (h : SpillsHold s roots edges)
    (record : α → EdgeKey × EdgeAgg) (l : List α) :
    ∃ s', l.foldlM (fun s a => s.addEdge (record a)) s = .ok s' ∧
      SpillsHold s' roots (edges ++ l.map record) := by
  rw [foldlM_addEdge]
  rcases h.edges.addAll anyEdge_of_merge (l.map record) with
    ⟨next, hadd, hnext⟩ | ⟨-, hnot⟩
  · rw [hadd]
    exact ⟨_, rfl, h.roots, hnext⟩
  · exact absurd (fit_edges _) hnot

theorem SpillsHold.perm {roots' : List ℕ} {edges' : List (EdgeKey × EdgeAgg)}
    (h : SpillsHold s roots edges) (hroots : roots.Perm roots') (hedges : edges.Perm edges') :
    SpillsHold s roots' edges' :=
  ⟨h.roots.perm (hroots.map _), h.edges.perm hedges⟩

theorem SpillsHold.mergeRoots (h : SpillsHold s roots edges) :
    s.mergeRoots = if (aggregate (· + ·) (ones roots)).all fun p => countFits p.2 then
      .ok (aggregate (· + ·) (ones roots)) else .error .ioFailure := by
  rw [BuildSpills.mergeRoots]
  rcases h.roots.spill countFits_of_add with ⟨next, hspill, hempty, hnext⟩ | ⟨hspill, hnot⟩
  · rw [hspill]
    dsimp only [orIoFailure]
    rw [ok_bind, hnext.mergeRuns_eq hempty]
    rfl
  · rw [hspill, if_neg fun hall => hnot (all_aggregate_iff.mp hall)]
    rfl

theorem SpillsHold.mergeEdges (h : SpillsHold s roots edges) :
    s.mergeEdges = .ok (aggregate mergeEdgeAgg edges) := by
  rw [BuildSpills.mergeEdges]
  rcases h.edges.spill anyEdge_of_merge with
    ⟨next, hspill, hempty, hnext⟩ | ⟨-, hnot⟩
  · rw [hspill]
    dsimp only [orIoFailure]
    rw [ok_bind, hnext.mergeRuns_eq hempty]
    rfl
  · exact absurd (fit_edges _) hnot

end Spills

section Games

variable {rules} {order : IterationOrder} {maxRootPly : ℕ} {games : List ReplayGame}
  {s : BuildSpills}

theorem SpillsHold.addGame (h : SpillsHold s (rootsOf rules maxRootPly games)
      (edgesOf rules maxRootPly games)) (order : IterationOrder) (game : ReplayGame)
    {scratch : ReplayScratch}
    (hroots : scratch.roots = (gameScratch rules maxRootPly game).roots)
    (hedges : scratch.edges = (gameScratch rules maxRootPly game).edges) :
    (∃ s', ((order.roots scratch.roots).foldlM BuildSpills.addRoot s >>= fun s =>
          (order.edges scratch.edges).foldlM
            (fun s e => s.addEdge (edgeRecord game e.1 e.2)) s) = .ok s' ∧
        SpillsHold s' (rootsOf rules maxRootPly (games ++ [game]))
          (edgesOf rules maxRootPly (games ++ [game]))) ∨
      (((order.roots scratch.roots).foldlM BuildSpills.addRoot s >>= fun s =>
          (order.edges scratch.edges).foldlM
            (fun s e => s.addEdge (edgeRecord game e.1 e.2)) s) = .error .ioFailure ∧
        ¬CountsFit (rootsOf rules maxRootPly (games ++ [game]))) := by
  have hperm : (rootsOf rules maxRootPly games ++ order.roots scratch.roots).Perm
      (rootsOf rules maxRootPly (games ++ [game])) := by
    rw [rootsOf_concat, ← hroots]
    exact (order.roots_perm _).append_left _
  have hpermEdges : (edgesOf rules maxRootPly games ++
      (order.edges scratch.edges).map fun e => edgeRecord game e.1 e.2).Perm
      (edgesOf rules maxRootPly (games ++ [game])) := by
    rw [edgesOf_concat, ← hedges]
    exact ((order.edges_perm _).map _).append_left _
  rcases h.addRoots (order.roots scratch.roots) with ⟨s', hadd, hs'⟩ | ⟨hadd, hnot⟩
  · obtain ⟨s'', hadd', hs''⟩ := hs'.addEdges (fun e => edgeRecord game e.1 e.2)
      (order.edges scratch.edges)
    rw [hadd, ok_bind, hadd']
    exact Or.inl ⟨s'', rfl, hs''.perm hperm hpermEdges⟩
  · rw [hadd]
    exact Or.inr ⟨rfl, fun hfit => hnot (hfit.perm (hperm.symm.map _))⟩

theorem gameScratch_eq {game : ReplayGame} {visits : Option HashVisitCounter}
    {scratch : ReplayScratch}
    (h : replayMoves rules maxRootPly rules.start (fullCoverageRootHash rules) 0 game.moves none
      ⟨[], [], [fullCoverageRootHash rules]⟩ = .ok (visits, scratch)) :
    gameScratch rules maxRootPly game = scratch := by
  rw [gameScratch, h]

private theorem accumulateGame_external (h : SpillsHold s (rootsOf rules maxRootPly games)
      (edgesOf rules maxRootPly games)) (game : ReplayGame) :
    (∃ s', accumulateGame rules order maxRootPly game none s = .ok (none, s') ∧
        game.moves.length ≤ 2 ^ 16 ∧
        SpillsHold s' (rootsOf rules maxRootPly (games ++ [game]))
          (edgesOf rules maxRootPly (games ++ [game]))) ∨
      (accumulateGame rules order maxRootPly game none s = .error .ioFailure ∧
        ¬Accepted rules maxRootPly (games ++ [game])) := by
  unfold accumulateGame visitOnce
  rw [ok_bind]
  dsimp only
  rcases replayMoves_external maxRootPly (fullCoverageRootHash rules) rules.start
      (Nat.zero_le (2 ^ 16)) game.moves ⟨[], [], [fullCoverageRootHash rules]⟩ with
    ⟨scratch, hrun, hlength⟩ | ⟨hrun, hlength⟩
  · rw [hrun, ok_bind]
    have hscratch := gameScratch_eq hrun
    rcases h.addGame order game (congrArg _ hscratch.symm) (congrArg _ hscratch.symm)
      with ⟨s', hadd, hs'⟩ | ⟨hadd, hnot⟩
    · rw [← bind_assoc, hadd]
      exact Or.inl ⟨s', rfl, by omega, hs'⟩
    · rw [← bind_assoc, hadd]
      exact Or.inr ⟨rfl, fun hacc => hnot hacc.roots⟩
  · rw [hrun]
    refine Or.inr ⟨rfl, fun hacc => ?_⟩
    have := hacc.moves game (by simp)
    omega

private theorem accumulateGame_own {counter : HashVisitCounter}
    (hcounts : Counts counter (visitsOf rules games))
    (h : SpillsHold s (rootsOf rules maxRootPly games) (edgesOf rules maxRootPly games))
    (order : IterationOrder) (game : ReplayGame) :
    (∃ counter' s', accumulateGame rules order maxRootPly game (some counter) s =
          .ok (some counter', s') ∧
        game.moves.length ≤ 2 ^ 16 ∧ Counts counter' (visitsOf rules (games ++ [game])) ∧
        SpillsHold s' (rootsOf rules maxRootPly (games ++ [game]))
          (edgesOf rules maxRootPly (games ++ [game]))) ∨
      (accumulateGame rules order maxRootPly game (some counter) s = .error .ioFailure ∧
        ¬Accepted rules maxRootPly (games ++ [game])) := by
  set start := fullCoverageRootHash rules with hstart
  set later := hashesAfter rules rules.start game.moves with hlater
  have hvisits : visitsOf rules (games ++ [game]) =
      visitsOf rules games ++ visitAll (List.insert start []) later := visitsOf_concat rules games game
  have hbefore : Counts counter (visitsOf rules games ++ []) := by rwa [List.append_nil]
  unfold accumulateGame
  dsimp only
  rw [← hstart]
  rcases hbefore.visitOnce start with ⟨counter', hvisit, hcounts'⟩ | ⟨hvisit, hnot⟩
  swap
  · rw [hvisit]
    refine Or.inr ⟨rfl, fun hacc => hnot ?_⟩
    have hfit := hacc.visits rules
    rw [hvisits] at hfit
    exact countsFit_of_suffix (suffix_visitAll _ later) hfit
  rw [hvisit, ok_bind]
  dsimp only
  rcases replayMoves_external maxRootPly start rules.start (Nat.zero_le (2 ^ 16)) game.moves
      ⟨[], [], [start]⟩ with ⟨scratch, hrun, hlength⟩ | ⟨hrun, hlength⟩
  · rcases replayMoves_own hcounts' [] [start] with
      ⟨counter'', visits', scratch', hnone, hsome, hcounts''⟩ | ⟨hsome, hfail⟩
    · rw [hrun] at hnone
      obtain ⟨-, rfl⟩ := Prod.mk.inj (Except.ok.inj hnone)
      have hscratch := gameScratch_eq hrun
      rw [hsome, ok_bind]
      rcases h.addGame order game (congrArg _ hscratch.symm) (congrArg _ hscratch.symm) with
        ⟨s', hadd, hs'⟩ | ⟨hadd, hnot⟩
      · dsimp only
        rw [← bind_assoc, hadd]
        exact Or.inl ⟨counter'', s', rfl, by omega, hvisits ▸ hcounts'', hs'⟩
      · dsimp only
        rw [← bind_assoc, hadd]
        exact Or.inr ⟨rfl, fun hacc => hnot hacc.roots⟩
    · rw [hsome]
      refine Or.inr ⟨rfl, fun hacc => ?_⟩
      rcases hfail with hfail | hnot
      · rw [hrun] at hfail
        cases hfail
      · exact hnot (hvisits ▸ hacc.visits rules)
  · rcases replayMoves_own hcounts' [] [start] with
      ⟨counter'', visits', scratch', hnone, -, -⟩ | ⟨hsome, -⟩
    · rw [hrun] at hnone
      cases hnone
    · rw [hsome]
      refine Or.inr ⟨rfl, fun hacc => ?_⟩
      have := hacc.moves game (by simp)
      omega

end Games

section Run

variable {rules} {opts : BuildOptions} {childCounts : Option ChildCountStream} {b : Builder}
  {games : List ReplayGame}

/-- A builder that has accumulated these games and may go on. -/
structure Accumulated (rules : Chess.Rules) (opts : BuildOptions)
    (childCounts : Option ChildCountStream) (b : Builder) (games : List ReplayGame) : Prop where
  options : b.options = opts
  source : b.childCounts = childCounts
  failure : b.failure = none
  finalized : b.finalized = false
  count : b.sourceGameCount = games.length
  moves : ∀ game ∈ games, game.moves.length ≤ 2 ^ 16
  visits : childCounts = none → Counts b.visits (visitsOf rules games)
  spills : SpillsHold b.spills (rootsOf rules opts.maxRootPly.toNat games)
    (edgesOf rules opts.maxRootPly.toNat games)

theorem Accumulated.new (rules : Chess.Rules) (opts : BuildOptions)
    (childCounts : Option ChildCountStream) :
    Accumulated rules opts childCounts (Builder.new opts childCounts) [] where
  options := rfl
  source := rfl
  failure := rfl
  finalized := rfl
  count := rfl
  moves := by simp
  visits _ := Spiller.holds_new _ _
  spills := SpillsHold.new _

theorem Accumulated.accumulate (h : Accumulated rules opts childCounts b games)
    (hthreshold : 1 ≤ opts.spillThreshold) (order : IterationOrder) (game : ReplayGame) :
    (∃ b', b.accumulate rules order game = (b', .ok ()) ∧
        Accumulated rules opts childCounts b' (games ++ [game])) ∨
      ∃ b', b.accumulate rules order game = (b', .error .ioFailure) ∧
        ¬Accepted rules opts.maxRootPly.toNat (games ++ [game]) := by
  have hready : ¬(b.finalized = true ∨ b.options.spillThreshold = 0) := by
    rw [h.finalized, h.options]
    simp only [Bool.false_eq_true, false_or]
    omega
  have hmoves : game.moves.length ≤ 2 ^ 16 →
      ∀ g ∈ games ++ [game], g.moves.length ≤ 2 ^ 16 := by
    intro hgame g hg
    rcases List.mem_append.mp hg with hg | hg
    · exact h.moves g hg
    · rwa [List.mem_singleton.mp hg]
  unfold Builder.accumulate
  rw [h.failure]
  dsimp only
  rw [if_neg hready, h.options, h.source]
  cases childCounts with
  | some stream =>
    simp only [Option.isSome_some, if_true]
    rcases accumulateGame_external h.spills game with ⟨s', hadd, hlength, hs'⟩ | ⟨hadd, hnot⟩
    · refine Or.inl ⟨_, by rw [hadd], ?_⟩
      exact
        { options := rfl
          source := rfl
          failure := rfl
          finalized := h.finalized
          count := by rw [List.length_append, h.count, List.length_singleton]
          moves := hmoves hlength
          visits := by simp
          spills := hs' }
    · exact Or.inr ⟨_, by rw [hadd], hnot⟩
  | none =>
    simp only [Option.isSome_none, Bool.false_eq_true, if_false]
    rcases accumulateGame_own (h.visits rfl) h.spills order game with
      ⟨counter', s', hadd, hlength, hcounts, hs'⟩ | ⟨hadd, hnot⟩
    · refine Or.inl ⟨_, by rw [hadd], ?_⟩
      exact
        { options := rfl
          source := rfl
          failure := rfl
          finalized := h.finalized
          count := by rw [List.length_append, h.count, List.length_singleton]
          moves := hmoves hlength
          visits := fun _ => hcounts
          spills := hs' }
    · exact Or.inr ⟨_, by rw [hadd], hnot⟩

private theorem Accepted.of_append {maxRootPly : ℕ} {more : List ReplayGame}
    (h : Accepted rules maxRootPly (games ++ more)) : Accepted rules maxRootPly games where
  moves game hgame := h.moves game (List.mem_append_left _ hgame)
  roots := by
    have hfit := h.roots
    rw [rootsOf, List.flatMap_append, CountsFit, ones_append] at hfit
    exact hfit.of_append_left countFits_of_add

theorem Accumulated.accumulateAll (h : Accumulated rules opts childCounts b games)
    (hthreshold : 1 ≤ opts.spillThreshold) (order : IterationOrder) (more : List ReplayGame) :
    (∃ b', b.accumulateAll rules order more = (b', .ok ()) ∧
        Accumulated rules opts childCounts b' (games ++ more)) ∨
      ∃ b', b.accumulateAll rules order more = (b', .error .ioFailure) ∧
        ¬Accepted rules opts.maxRootPly.toNat (games ++ more) := by
  induction more generalizing b games with
  | nil => exact Or.inl ⟨b, rfl, by rwa [List.append_nil]⟩
  | cons game more ih =>
    have hassoc : games ++ game :: more = games ++ [game] ++ more := by simp
    rw [Builder.accumulateAll, hassoc]
    rcases h.accumulate hthreshold order game with ⟨b', hstep, hb'⟩ | ⟨b', hstep, hnot⟩
    · rw [hstep]
      exact ih hb'
    · rw [hstep]
      exact Or.inr ⟨b', rfl, fun hacc => hnot hacc.of_append⟩

end Run

end MotifChess.Db.OpeningTreeIndex
