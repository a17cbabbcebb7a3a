/- GID: MotifChess/Search/OpeningTree/PathCounts
   generality: implementation
   digest: The counts of an opened tree are those of the games' paths from the root. -/

import MotifChess.Db.Bundle.PositionMatches
import MotifChess.Search.OpeningTree.Counts

set_option autoImplicit false
set_option relaxedAutoImplicit false

namespace MotifChess.Search.OpeningTree

open MotifChess.Db MotifChess.Db.PositionPostings MotifChess.Db.OpeningTreeIndex MotifChess.Order

section Opened

variable {rules : Chess.Rules} {order : List (List TreePositionRow) → List (List TreePositionRow)}
  {database : Database} {rootHash : UInt64} {prefetchDepth : ℕ} {filter : SearchFilter} {tree : Tree}

/-- What a tree of some depth was opened from: the allowed games, and the rows of their occurrences. -/
def OpenedFrom (rules : Chess.Rules) (database : Database) (rootHash : UInt64) (prefetchDepth : ℕ)
    (filter : SearchFilter) (occurrences : List (List TreePositionRow)) : Prop :=
  ∃ allowed, allowedGames database rootHash filter = .ok allowed ∧
    (allowed = some [] ∧ occurrences = [] ∨ allowed ≠ some [] ∧
      queryTreeSlice rules database rootHash prefetchDepth (allowed.getD []) = .ok occurrences)

theorem ioResult_eq_ok {α : Type} {r : Result α} {a : α} (h : ioResult r = .ok a) :
    r = .ok a := by
  cases r with
  | ok b => exact h
  | error e => cases h

private theorem buildTree_tallies {slice : Slice rules} (hslice : slice.WellFormed rootHash)
    (htree : buildTree rules rootHash prefetchDepth slice = .ok tree)
    {es : List (NodeKey × TreePositionRow)} {contexts : List (UInt32 × GameContext)}
    (hnodes : slice.nodes = attributeOpenings contexts (noteEdges es [])) {k : ℕ} {n : Node}
    (hn : tree.root.At k n) : n.Tallies rules (edgeCount es ⟨k + 1, n.zobristHash⟩) := by
  have hkeys : ∀ key, key ∈ (sortedKeys slice.nodes).reverse ↔ key ∈ slice.nodes.map Prod.fst :=
    fun key => List.mem_reverse.trans mem_sortedKeys
  have hdesc := pairwise_reverse_sortedKeys hslice.nodup
  obtain ⟨nodeOf, hbuilt, hspec⟩ := @exists_nodeOf prefetchDepth
    (nodeStats rules slice.nodes slice.boards) (sortedKeys slice.nodes).reverse hdesc
  have hroot := (hkeys _).mpr hslice.root
  have hlookup := hbuilt ⟨1, rootHash⟩
  rw [if_pos hroot] at hlookup
  rw [buildTree, buildNodes, hlookup] at htree
  split_ifs at htree
  obtain rfl := Except.ok.inj htree
  obtain ⟨done, rest, hsplit⟩ := List.append_of_mem hroot
  have htop : Node.mk rootHash (nodeOf ⟨1, rootHash⟩).continuations true = nodeOf ⟨1, rootHash⟩ := by
    rw [hspec done _ rest hsplit]
    rfl
  rw [htop] at hn
  obtain ⟨rootBoard, -⟩ := hslice.board _ hslice.root
  have hplace := hn.continuations_perm hdesc hspec hroot
  rw [show (1 : ℕ) + k = k + 1 from Nat.add_comm 1 k] at hplace
  rcases hplace with ⟨hnil, habsent⟩ | ⟨hkey, hnode⟩
  · have hnone : slice.nodes.lookup ⟨k + 1, n.zobristHash⟩ = none := by
      cases hfound : slice.nodes.lookup ⟨k + 1, n.zobristHash⟩ with
      | none => rfl
      | some node => exact absurd ((hkeys _).mpr (mem_of_lookup hfound)) habsent
    have hperm : (n.continuations.map Prod.fst).Perm (((slice.nodes.lookup
        ⟨k + 1, n.zobristHash⟩).elim [] NodeAggregate.continuations).map
          (buildContinuation rules rootBoard)) := by
      rw [hnone, hnil]
      exact List.Perm.refl _
    exact tallies_of_lookup hnodes hperm
  · obtain ⟨node, hfound⟩ := exists_lookup ((hkeys _).mp hkey)
    obtain ⟨position, -, hstats⟩ := nodeStats_eq hslice hfound
    have hperm := continuations_nodeOf_perm hspec hkey
    rw [← hnode, hstats] at hperm
    have helim : node.continuations =
        (slice.nodes.lookup ⟨k + 1, n.zobristHash⟩).elim [] NodeAggregate.continuations := by
      rw [hfound]
      rfl
    rw [helim] at hperm
    exact tallies_of_lookup hnodes hperm

theorem openTree_tallies (horder : ∀ l, (order l).Perm l) (hdepth : prefetchDepth ≠ 0)
    (htree : openTree rules order database rootHash prefetchDepth filter = .ok tree) :
    ∃ occurrences, OpenedFrom rules database rootHash prefetchDepth filter occurrences ∧
      ∀ k n, tree.root.At k n → n.Tallies rules
        (edgeCount (occurrences.flatMap (edges rootHash)) ⟨k + 1, n.zobristHash⟩) := by
  have hempty : ∀ k n, (Node.mk rootHash [] (prefetchDepth != 0)).At k n → n.Tallies rules
      (edgeCount (([] : List (List TreePositionRow)).flatMap (edges rootHash))
        ⟨k + 1, n.zobristHash⟩) := by
    intro k n hn
    exact Node.tallies_of_isEmpty (hn.continuations_eq_nil rfl) rules.start fun move => rfl
  rw [openTree] at htree
  obtain ⟨slice, hslice, htree⟩ := bind_eq_ok.mp htree
  have hwellFormed := wellFormed_of_openSlice hslice
  rw [openSlice, if_neg hdepth] at hslice
  split_ifs at hslice
  obtain ⟨allowed, hallowed, hslice⟩ := bind_eq_ok.mp hslice
  split_ifs at hslice with hnone
  · obtain rfl := Except.ok.inj hslice
    obtain rfl := Except.ok.inj htree
    exact ⟨[], ⟨allowed, hallowed, .inl ⟨hnone, rfl⟩⟩, hempty⟩
  obtain ⟨occurrences, hquery, hslice⟩ := bind_eq_ok.mp hslice
  refine ⟨occurrences, ⟨allowed, hallowed, .inr ⟨hnone, ioResult_eq_ok hquery⟩⟩, ?_⟩
  split_ifs at hslice with hrows
  · obtain rfl := Except.ok.inj hslice
    obtain rfl := Except.ok.inj htree
    rw [List.isEmpty_iff.mp hrows]
    exact hempty
  obtain ⟨slice', hslice', hslice⟩ := bind_eq_ok.mp hslice
  obtain rfl := Except.ok.inj hslice
  obtain ⟨contexts, -, hplaced⟩ := bind_eq_ok.mp hslice'
  obtain ⟨board, -, hplaced⟩ := bind_eq_ok.mp hplaced
  obtain ⟨boards, -, hplaced⟩ := bind_eq_ok.mp hplaced
  obtain rfl := Except.ok.inj hplaced
  intro k n hn
  rw [← edgeCount_perm ((horder occurrences).flatMap_right _)]
  have hnodes : attributeOpenings contexts (aggregate rootHash (order occurrences)) =
      attributeOpenings contexts (noteEdges ((order occurrences).flatMap (edges rootHash)) []) := by
    rw [aggregate_eq_noteEdges]
  exact buildTree_tallies (hwellFormed _ rfl) htree hnodes hn

end Opened

section Paths

variable (rules : Chess.Rules)

/-- The paths from the root: every game that a filter keeps, with every ply at which it is there. -/
def rootPaths (games : List GameRow) (filter : SearchFilter) (rootHash : UInt64) :
    List (GameRow × ℕ) :=
  (games.filter fun row => filter.keeps row.stored).flatMap fun row =>
    ((List.range (row.stored.moves.length + 1)).filter fun ply =>
      decide (ReachesAt rules row.stored.moves rootHash ply)).map fun ply => (row, ply)

/-- The path is at a position so many plies after the root. -/
def PathAt (k : ℕ) (hash : UInt64) (path : GameRow × ℕ) : Prop :=
  ReachesAt rules path.1.stored.moves hash (path.2 + k)

instance (k : ℕ) (hash : UInt64) (path : GameRow × ℕ) : Decidable (PathAt rules k hash path) :=
  inferInstanceAs (Decidable (ReachesAt ..))

/-- The paths that are at a position so many plies after the root and then play a move, when the
results of their games are wanted. -/
def pathCount (paths : List (GameRow × ℕ)) (k : ℕ) (hash : UInt64) (encodedMove : UInt16)
    (wanted : ℤ → Bool) : ℕ :=
  paths.countP fun path => decide (PathAt rules k hash path ∧
    path.1.stored.moves[path.2 + k]? = some encodedMove) && wanted (resultCode path.1.readResult)

variable {rules} {games : List GameRow} {filter : SearchFilter} {rootHash : UInt64}

theorem mem_rootPaths {path : GameRow × ℕ} : path ∈ rootPaths rules games filter rootHash ↔
    path.1 ∈ games ∧ filter.keeps path.1.stored = true ∧
      ReachesAt rules path.1.stored.moves rootHash path.2 := by
  obtain ⟨row, ply⟩ := path
  rw [rootPaths, List.mem_flatMap]
  constructor
  · rintro ⟨other, hother, hpath⟩
    obtain ⟨k, hk, heq⟩ := List.mem_map.mp hpath
    obtain ⟨rfl, rfl⟩ := Prod.mk.inj heq
    obtain ⟨hgame, hkept⟩ := List.mem_filter.mp hother
    exact ⟨hgame, hkept, of_decide_eq_true (List.mem_filter.mp hk).2⟩
  · rintro ⟨hgame, hkept, hreaches⟩
    refine ⟨row, List.mem_filter.mpr ⟨hgame, hkept⟩, List.mem_map.mpr ⟨ply, ?_, rfl⟩⟩
    exact List.mem_filter.mpr ⟨List.mem_range.mpr (Nat.lt_succ_of_le hreaches.1),
      decide_eq_true hreaches⟩

theorem nodup_rootPaths (hgames : games.Nodup) : (rootPaths rules games filter rootHash).Nodup := by
  refine List.nodup_flatMap.mpr ⟨fun row _ => ?_, ?_⟩
  · exact (List.nodup_range.sublist List.filter_sublist).map fun a c hsame => (Prod.mk.inj hsame).2
  · refine (hgames.sublist List.filter_sublist).imp fun hne => ?_
    rintro path hpath hother
    obtain ⟨_, -, rfl⟩ := List.mem_map.mp hpath
    obtain ⟨_, -, hsame⟩ := List.mem_map.mp hother
    exact hne (Prod.mk.inj hsame).1.symm

theorem sum_countP_le {α β : Type} {l : List α} {cases : List β} (hcases : cases.Nodup)
    {p : β → α → Bool} {q : α → Bool} (hall : ∀ c ∈ cases, ∀ a ∈ l, p c a = true → q a = true)
    (hone : ∀ c d a, p c a = true → p d a = true → c = d) :
    (cases.map fun c => l.countP (p c)).sum ≤ l.countP q := by
  induction cases generalizing q with
  | nil => exact Nat.zero_le _
  | cons c cases ih =>
    obtain ⟨hc, hcases⟩ := List.nodup_cons.mp hcases
    have hrest := @ih hcases (fun a => q a && !p c a) fun d hd a ha hp => by
      rw [Bool.and_eq_true, Bool.not_eq_true', Bool.eq_false_iff]
      exact ⟨hall d (List.mem_cons_of_mem _ hd) a ha hp, fun hpc => hc (hone c d a hpc hp ▸ hd)⟩
    have hfirst : l.countP (fun a => q a && p c a) = l.countP (p c) := by
      refine List.countP_congr fun a ha => ?_
      rw [Bool.and_eq_true]
      exact and_iff_right_of_imp (hall c List.mem_cons_self a ha)
    have hsplit := List.countP_eq_countP_filter_add l q (p c)
    rw [List.countP_filter, List.countP_filter, hfirst] at hsplit
    rw [List.map_cons, List.sum_cons]
    omega

theorem pathCount_results (paths : List (GameRow × ℕ)) (k : ℕ) (hash : UInt64)
    (encodedMove : UInt16) :
    pathCount rules paths k hash encodedMove (fun result => decide (0 < result)) +
        pathCount rules paths k hash encodedMove (fun result => decide (result = 0)) +
        pathCount rules paths k hash encodedMove (fun result => decide (result < 0)) =
      pathCount rules paths k hash encodedMove fun _ => true := by
  induction paths with
  | nil => rfl
  | cons path paths ih =>
    simp only [pathCount, List.countP_cons, Bool.and_eq_true, decide_eq_true_eq] at ih ⊢
    by_cases hplays : PathAt rules k hash path ∧
        path.1.stored.moves[path.2 + k]? = some encodedMove
    · simp only [hplays, true_and, and_self] at ih ⊢
      rcases lt_trichotomy (resultCode path.1.readResult) 0 with hlost | hdrawn | hwon
      · rw [if_neg hlost.not_gt, if_neg hlost.ne, if_pos hlost, if_pos trivial]
        omega
      · rw [if_neg hdrawn.not_gt, if_pos hdrawn, if_neg hdrawn.not_lt, if_pos trivial]
        omega
      · rw [if_pos hwon, if_neg hwon.ne', if_neg hwon.not_gt, if_pos trivial]
        omega
    · simp only [hplays, false_and, if_false] at ih ⊢
      omega

end Paths

end MotifChess.Search.OpeningTree
