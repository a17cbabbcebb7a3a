/- GID: MotifChess/Search/OpeningTree/Transpositions
   generality: implementation
   digest: An opened tree is complete exactly when no position of its slice is led to twice. -/

import MotifChess.Search.OpeningTree.Complete

set_option autoImplicit false
set_option relaxedAutoImplicit false

namespace MotifChess.Search.OpeningTree

open MotifChess.Db MotifChess.Order

section Nodes

/-- The positions that the continuations of a slice's node lead to, by ascending move. -/
def leadsTo (nodes : NodeAggregates) (key : NodeKey) : List UInt64 :=
  ((nodes.lookup key).elim [] NodeAggregate.continuations).map ContinuationAggregate.resultHash

private theorem map_fst_noteNode (key : NodeKey) (row : TreePositionRow) (nodes : NodeAggregates) :
    (noteNode key row nodes).map Prod.fst =
      if key ∈ nodes.map Prod.fst then nodes.map Prod.fst else nodes.map Prod.fst ++ [key] := by
  induction nodes with
  | nil => simp [noteNode]
  | cons entry nodes ih =>
    obtain ⟨other, node⟩ := entry
    by_cases hkey : other = key
    · simp [noteNode, hkey]
    · rw [noteNode, if_neg hkey, List.map_cons, ih]
      by_cases hmem : key ∈ nodes.map Prod.fst
      · simp [hmem]
      · rw [if_neg hmem, if_neg]
        · rfl
        · simpa [Ne.symm hkey] using hmem

private theorem nodup_noteNode {key : NodeKey} {row : TreePositionRow} {nodes : NodeAggregates}
    (h : (nodes.map Prod.fst).Nodup) : ((noteNode key row nodes).map Prod.fst).Nodup := by
  rw [map_fst_noteNode]
  split_ifs with hmem
  · exact h
  · exact List.nodup_append.mpr ⟨h, by simp, by simpa using fun a ha => ne_of_mem_of_not_mem ha hmem⟩

private theorem nodup_noteOccurrence {rows : List TreePositionRow} {parentHash : UInt64}
    {nodes : NodeAggregates} (h : (nodes.map Prod.fst).Nodup) :
    ((noteOccurrence parentHash nodes rows).map Prod.fst).Nodup := by
  induction rows generalizing parentHash nodes with
  | nil => exact h
  | cons row rows ih => exact ih (nodup_noteNode h)

private theorem nodup_aggregate (rootHash : UInt64) (occurrences : List (List TreePositionRow)) :
    ((aggregate rootHash occurrences).map Prod.fst).Nodup := by
  rw [aggregate]
  suffices h : ∀ nodes : NodeAggregates, (nodes.map Prod.fst).Nodup →
      ((occurrences.foldl (noteOccurrence rootHash) nodes).map Prod.fst).Nodup by
    exact h [] List.nodup_nil
  induction occurrences with
  | nil => exact fun nodes h => h
  | cons rows occurrences ih => exact fun nodes h => ih _ (nodup_noteOccurrence h)

@[simp] theorem map_fst_attributeOpenings (contexts : List (UInt32 × GameContext))
    (nodes : NodeAggregates) :
    (attributeOpenings contexts nodes).map Prod.fst = nodes.map Prod.fst := by
  simp [attributeOpenings]

theorem mem_sortedKeys {nodes : NodeAggregates} {key : NodeKey} :
    key ∈ sortedKeys nodes ↔ key ∈ nodes.map Prod.fst := mem_sortBy

theorem pairwise_reverse_sortedKeys {nodes : NodeAggregates} (h : (nodes.map Prod.fst).Nodup) :
    (sortedKeys nodes).reverse.Pairwise fun a b => keyRank b < keyRank a := by
  rw [List.pairwise_reverse]
  have hranks : ((nodes.map Prod.fst).map keyRank).Nodup := h.map keyRank_injective
  exact List.pairwise_map.mp (pairwise_lt_map_sortBy hranks)

theorem exists_lookup {nodes : NodeAggregates} {key : NodeKey}
    (h : key ∈ nodes.map Prod.fst) : ∃ node, nodes.lookup key = some node := by
  cases hlookup : nodes.lookup key with
  | some node => exact ⟨node, rfl⟩
  | none =>
    obtain ⟨entry, hentry, rfl⟩ := List.mem_map.mp h
    have := List.lookup_eq_none_iff.mp hlookup entry hentry
    simp at this

theorem mem_of_lookup {nodes : NodeAggregates} {key : NodeKey} {node : NodeAggregate}
    (h : nodes.lookup key = some node) : key ∈ nodes.map Prod.fst := by
  obtain ⟨l₁, l₂, hnodes, -⟩ := List.lookup_eq_some_iff.mp h
  simp [hnodes]

end Nodes

section Boards

variable {rules : Chess.Rules}

private theorem isSome_lookup_placeContinuations (parent : rules.Board)
    (continuations : List ContinuationAggregate) {boards : List (UInt64 × rules.Board)}
    {hash : UInt64} (h : (boards.lookup hash).isSome) :
    ((placeContinuations rules parent boards continuations).lookup hash).isSome := by
  induction continuations generalizing boards with
  | nil => exact h
  | cons a continuations ih =>
    apply ih
    dsimp only
    split_ifs with hknown
    · exact h
    · rw [List.lookup_append]
      simp [h]

private theorem isSome_lookup_placeBoards {nodes : NodeAggregates} {keys : List NodeKey}
    {boards placed : List (UInt64 × rules.Board)}
    (h : placeBoards rules nodes boards keys = .ok placed) {hash : UInt64}
    (hhash : (boards.lookup hash).isSome ∨ ∃ key ∈ keys, key.parentHash = hash) :
    (placed.lookup hash).isSome := by
  induction keys generalizing boards with
  | nil =>
    obtain rfl : boards = placed := Except.ok.inj h
    simpa using hhash
  | cons key keys ih =>
    rw [placeBoards] at h
    split at h
    case h_2 => cases h
    case h_1 parent node hparent hnode =>
      refine ih h ?_
      rcases hhash with hold | ⟨other, hother, rfl⟩
      · exact .inl (isSome_lookup_placeContinuations _ _ hold)
      · rcases List.mem_cons.mp hother with rfl | hrest
        · exact .inl (isSome_lookup_placeContinuations _ _ (by rw [hparent]; rfl))
        · exact .inr ⟨other, hrest, rfl⟩

end Boards

section Opened

variable {rules : Chess.Rules}

namespace Slice

/-- One node for each key, a node for the root, and the board of each node's position. -/
structure WellFormed (rootHash : UInt64) (slice : Slice rules) : Prop where
  nodup : (slice.nodes.map Prod.fst).Nodup
  root : ⟨1, rootHash⟩ ∈ slice.nodes.map Prod.fst
  board : ∀ key ∈ slice.nodes.map Prod.fst, ∃ position,
    slice.boards.lookup key.parentHash = some position

/-- No continuation on a path from the root leads to a node of the slice that another one leads to
before it. -/
def LinksOnce (rootHash : UInt64) (slice : Slice rules) : Prop :=
  OpeningTree.LinksOnce (slice.nodes.map Prod.fst) (leadsTo slice.nodes) ⟨1, rootHash⟩

end Slice

/-- Every continuation of the tree has a subtree of its position, and where the slice goes on from
that position at the next depth, the subtree is the node with all these continuations. -/
def Tree.Complete (slice : Option (Slice rules)) (tree : Tree) : Prop :=
  ∀ depth c, tree.root.Contains depth c → ∃ subtree, c.2 = some subtree ∧
    subtree.zobristHash = c.1.resultHash ∧
    ∀ s ∈ slice, ∀ node, s.nodes.lookup ⟨depth + 1, c.1.resultHash⟩ = some node →
      ∃ position, s.boards.lookup c.1.resultHash = some position ∧
        (subtree.continuations.map Prod.fst).Perm
          (node.continuations.map (buildContinuation rules position))

private theorem wellFormed_of_aggregateSlice
    {order : List (List TreePositionRow) → List (List TreePositionRow)} {database : Database}
    {rootHash : UInt64} {rows : List (List TreePositionRow)} {slice : Slice rules}
    (h : aggregateSlice rules order database rootHash rows = .ok slice) :
    slice.WellFormed rootHash := by
  obtain ⟨contexts, -, h⟩ := bind_eq_ok.mp h
  obtain ⟨board, hboard, h⟩ := bind_eq_ok.mp h
  obtain ⟨boards, hboards, h⟩ := bind_eq_ok.mp h
  obtain rfl := Except.ok.inj h
  refine ⟨?_, ?_, ?_⟩
  · rw [map_fst_attributeOpenings]
    exact nodup_aggregate _ _
  · rw [map_fst_attributeOpenings]
    rw [rootBoard] at hboard
    split at hboard
    · cases hboard
    · exact mem_of_lookup (by assumption)
  · rw [map_fst_attributeOpenings]
    intro key hkey
    refine Option.isSome_iff_exists.mp (isSome_lookup_placeBoards hboards (.inr ⟨key, ?_, rfl⟩))
    exact mem_sortedKeys.mpr hkey

theorem wellFormed_of_openSlice
    {order : List (List TreePositionRow) → List (List TreePositionRow)} {database : Database}
    {rootHash : UInt64} {prefetchDepth : ℕ} {filter : SearchFilter} {slice : Option (Slice rules)}
    (h : openSlice rules order database rootHash prefetchDepth filter = .ok slice) :
    ∀ s ∈ slice, s.WellFormed rootHash := by
  rintro s rfl
  rw [openSlice] at h
  split_ifs at h with hzero hmax
  · cases Except.ok.inj h
  obtain ⟨allowed, -, h⟩ := bind_eq_ok.mp h
  split_ifs at h with hnone
  · cases Except.ok.inj h
  obtain ⟨rows, -, h⟩ := bind_eq_ok.mp h
  split_ifs at h with hempty
  · cases Except.ok.inj h
  obtain ⟨slice, hslice, h⟩ := bind_eq_ok.mp h
  obtain rfl := Option.some.inj (Except.ok.inj h)
  exact wellFormed_of_aggregateSlice hslice

private theorem OnPath.congr {keys keys' : List NodeKey} {leads leads' : NodeKey → List UInt64}
    {root key : NodeKey} (hkeys : ∀ k, k ∈ keys ↔ k ∈ keys') (hleads : ∀ k ∈ keys, leads k = leads' k)
    (hroot : root ∈ keys) (h : OnPath keys leads root key) :
    key ∈ keys ∧ OnPath keys' leads' root key := by
  induction h with
  | root => exact ⟨hroot, .root⟩
  | child _ hmem hchild ih =>
    rw [hleads _ ih.1] at hmem
    exact ⟨hchild, .child ih.2 hmem ((hkeys _).mp hchild)⟩

private theorem LinksOnce.congr {keys keys' : List NodeKey} {leads leads' : NodeKey → List UInt64}
    {root : NodeKey} (hkeys : ∀ k, k ∈ keys ↔ k ∈ keys') (hleads : ∀ k ∈ keys, leads k = leads' k)
    (hroot : root ∈ keys) (h : LinksOnce keys leads root) : LinksOnce keys' leads' root := by
  intro key lower hash higher hpath hmem hchild hled
  have hleads' : ∀ k ∈ keys', leads' k = leads k := fun k hk => (hleads k ((hkeys k).mpr hk)).symm
  obtain ⟨hkey, hpath'⟩ := hpath.congr (fun k => (hkeys k).symm) hleads' ((hkeys root).mp hroot)
  rw [hleads' key hkey] at hmem
  refine h key lower hash higher hpath' hmem ((hkeys _).mpr hchild) ?_
  refine hled.imp_left ?_
  rintro ⟨other, hother, hdepth, hhigher, hleadsOther⟩
  rw [hleads' other hother] at hleadsOther
  exact ⟨other, (hkeys other).mpr hother, hdepth, hhigher, hleadsOther⟩

theorem nodeStats_eq {rootHash : UInt64} {slice : Slice rules}
    (hslice : slice.WellFormed rootHash) {key : NodeKey} {node : NodeAggregate}
    (hnode : slice.nodes.lookup key = some node) :
    ∃ position, slice.boards.lookup key.parentHash = some position ∧
      nodeStats rules slice.nodes slice.boards key =
        node.continuations.map (buildContinuation rules position) := by
  obtain ⟨position, hposition⟩ := hslice.board key (mem_of_lookup hnode)
  refine ⟨position, hposition, ?_⟩
  rw [nodeStats, hposition, hnode]

private theorem leadsOf_nodeStats {rootHash : UInt64} {slice : Slice rules}
    (hslice : slice.WellFormed rootHash) {key : NodeKey}
    (hkey : key ∈ slice.nodes.map Prod.fst) :
    leadsOf (nodeStats rules slice.nodes slice.boards) key = leadsTo slice.nodes key := by
  obtain ⟨node, hnode⟩ := exists_lookup hkey
  obtain ⟨position, -, hstats⟩ := nodeStats_eq hslice hnode
  rw [leadsOf, leadsTo, hstats, hnode, List.map_map]
  rfl

private theorem buildTree_complete_iff {rootHash : UInt64} {prefetchDepth : ℕ} {slice : Slice rules}
    {tree : Tree} (hslice : slice.WellFormed rootHash)
    (htree : buildTree rules rootHash prefetchDepth slice = .ok tree) :
    tree.Complete (some slice) ↔ slice.LinksOnce rootHash := by
  have hkeys : ∀ k, k ∈ (sortedKeys slice.nodes).reverse ↔ k ∈ slice.nodes.map Prod.fst :=
    fun k => List.mem_reverse.trans mem_sortedKeys
  have hdesc := pairwise_reverse_sortedKeys hslice.nodup
  obtain ⟨nodeOf, hbuilt, hspec⟩ := @exists_nodeOf prefetchDepth
    (nodeStats rules slice.nodes slice.boards) (sortedKeys slice.nodes).reverse hdesc
  have hroot := (hkeys _).mpr hslice.root
  have hlookup := hbuilt ⟨1, rootHash⟩
  rw [if_pos hroot] at hlookup
  rw [buildTree, buildNodes, hlookup] at htree
  split_ifs at htree
  obtain rfl := Except.ok.inj htree
  let root := nodeOf ⟨1, rootHash⟩
  have hcontains : ∀ {depth c}, (Node.mk rootHash root.continuations true).Contains depth c ↔
      root.Contains depth c := fun {depth c} => ⟨fun h => h.congr rfl, fun h => h.congr rfl⟩
  have honce := forall_ne_none_iff hdesc hspec hroot
  constructor
  · intro hcomplete
    refine LinksOnce.congr hkeys (fun k hk => leadsOf_nodeStats hslice ((hkeys k).mp hk)) hroot ?_
    refine honce.mp fun depth c hc hnone => ?_
    obtain ⟨subtree, hsub, -⟩ := hcomplete depth c (hcontains.mpr hc)
    rw [hnone] at hsub
    cases hsub
  · intro hlinks depth c hc
    have hsome := honce.mpr (LinksOnce.congr (fun k => (hkeys k).symm)
      (fun k hk => (leadsOf_nodeStats hslice hk).symm) hslice.root hlinks)
    obtain ⟨subtree, hsub⟩ := Option.ne_none_iff_exists'.mp (hsome depth c (hcontains.mp hc))
    obtain ⟨hhash, hperm⟩ := continuations_perm_of_contains hdesc hspec hroot (hcontains.mp hc) hsub
    refine ⟨subtree, hsub, hhash, ?_⟩
    rintro s ⟨⟩ node hnode
    obtain ⟨position, hposition, hstats⟩ := nodeStats_eq hslice hnode
    refine ⟨position, hposition, ?_⟩
    rw [← hstats]
    exact hperm _ ((hkeys _).mpr (mem_of_lookup hnode)) (add_comm _ _) rfl

/-- A tree that was opened is complete exactly when no continuation on a path from the root leads to
a node of its slice that another continuation leads to before it. -/
theorem openTree_complete_iff {order : List (List TreePositionRow) → List (List TreePositionRow)}
    {database : Database} {rootHash : UInt64} {prefetchDepth : ℕ} {filter : SearchFilter} {tree : Tree}
    (htree : openTree rules order database rootHash prefetchDepth filter = .ok tree) :
    ∃ slice, openSlice rules order database rootHash prefetchDepth filter = .ok slice ∧
      (tree.Complete slice ↔ ∀ s ∈ slice, s.LinksOnce rootHash) := by
  rw [openTree] at htree
  obtain ⟨slice, hslice, htree⟩ := bind_eq_ok.mp htree
  refine ⟨slice, hslice, ?_⟩
  cases slice with
  | none =>
    obtain rfl := Except.ok.inj htree
    refine ⟨fun _ _ hs => ?_, fun _ depth c hc => ?_⟩
    · cases hs
    · exact absurd rfl hc.ne_nil
  | some slice =>
    rw [buildTree_complete_iff (wellFormed_of_openSlice hslice slice rfl) htree]
    simp

end Opened

section Sample

/-- The continuation at a path of child numbers. -/
def Node.follow : List ℕ → Node → Option NodeContinuation
  | [], _ => none
  | [i], n => n.continuations[i]?
  | i :: path, n => do
    let c ← n.continuations[i]?
    let m ← c.2
    follow path m

private theorem Node.contains_of_follow {path : List ℕ} {n : Node} {c : NodeContinuation}
    (h : n.follow path = some c) : n.Contains path.length c := by
  induction path generalizing n with
  | nil => cases h
  | cons i path ih =>
    cases path with
    | nil => exact .here (List.mem_of_getElem? h)
    | cons j path =>
      obtain ⟨d, hd, h⟩ := Option.bind_eq_some_iff.mp h
      obtain ⟨m, hm, h⟩ := Option.bind_eq_some_iff.mp h
      exact .deeper (List.mem_of_getElem? hd) hm (ih h)

/-- The games 1. Nf3 d5 2. d4 Nf6 and 1. d4 d5 2. Nf3 Nf6. -/
def sampleDatabase : Database where
  occurrences hash := .ok (if hash = 0 then [⟨1, 0, 1, none, none⟩, ⟨2, 0, 0, none, none⟩] else [])
  positionGameIds hash := .ok (if hash = 0 then [1, 2] else [])
  findGameIdsWithFilter ids _ := .ok ids
  getGameContexts ids := .ok ([(1, ⟨none, none, [1350, 2291, 1739, 2942]⟩),
    (2, ⟨none, none, [1739, 2291, 1350, 2942]⟩)].filter fun entry => ids.contains entry.1)

private theorem exists_sampleTree : ∃ tree, openTree .ofSums id sampleDatabase 0 4 {} = .ok tree ∧
    (tree.root.follow [0, 0, 0]).map (fun c => (c.1.resultHash, c.2.isNone)) = some (5380, true) := by
  have hopened : (openTree .ofSums id sampleDatabase 0 4 {}).map (fun tree =>
      (tree.root.follow [0, 0, 0]).map fun c => (c.1.resultHash, c.2.isNone)) =
        .ok (some (5380, true)) := by
    decide +kernel
  cases htree : openTree .ofSums id sampleDatabase 0 4 {} with
  | error e =>
    rw [htree] at hopened
    cases hopened
  | ok tree =>
    rw [htree] at hopened
    exact ⟨tree, rfl, Except.ok.inj hopened⟩

/-- Both games are in the position after 2. d4 and 2. Nf3: one parent has its subtree, the other has
nothing. -/
theorem openTree_transposition_lost : ∃ tree slice,
    openTree .ofSums id sampleDatabase 0 4 {} = .ok tree ∧
    openSlice .ofSums id sampleDatabase 0 4 {} = .ok slice ∧
    (∃ c, tree.root.Contains 3 c ∧ c.1.resultHash = 5380 ∧ c.2.isNone) ∧ ¬ tree.Complete slice := by
  obtain ⟨tree, htree, hfollow⟩ := exists_sampleTree
  obtain ⟨slice, hslice, -⟩ := bind_eq_ok.mp htree
  obtain ⟨c, hc, hlost⟩ := Option.map_eq_some_iff.mp hfollow
  obtain ⟨hhash, hnone⟩ := Prod.mk.inj hlost
  have hcontains := Node.contains_of_follow hc
  refine ⟨tree, slice, htree, hslice, ⟨c, hcontains, hhash, hnone⟩, fun hcomplete => ?_⟩
  obtain ⟨subtree, hsub, -⟩ := hcomplete _ c hcontains
  rw [hsub] at hnone
  cases hnone

theorem openTree_complete_iff_sample : ∃ tree slice,
    openTree .ofSums id sampleDatabase 0 4 {} = .ok tree ∧
    openSlice .ofSums id sampleDatabase 0 4 {} = .ok slice ∧
    (tree.Complete slice ↔ ∀ s ∈ slice, s.LinksOnce 0) := by
  obtain ⟨tree, htree, -⟩ := exists_sampleTree
  obtain ⟨slice, hslice, hiff⟩ := openTree_complete_iff htree
  exact ⟨tree, slice, htree, hslice, hiff⟩

end Sample

end MotifChess.Search.OpeningTree
