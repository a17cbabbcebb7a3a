/- GID: MotifChess/Search/OpeningTree/Linking
   generality: implementation
   digest: A built node goes to the first continuation that leads to it, and to no other. -/

import MotifChess.Search.OpeningTree.Open
import Mathlib.Data.List.Induction

set_option autoImplicit false
set_option relaxedAutoImplicit false

namespace MotifChess.Search.OpeningTree

open MotifChess.Db MotifChess.Order

section Keys

theorem keyRank_lt_iff {a b : NodeKey} : keyRank a < keyRank b ↔
    a.depth < b.depth ∨ a.depth = b.depth ∧ a.parentHash < b.parentHash := by
  rw [keyRank, keyRank, Prod.Lex.toLex_lt_toLex, UInt64.lt_iff_toNat_lt]

theorem keyRank_injective : Function.Injective keyRank := by
  rintro ⟨depth, hash⟩ ⟨depth', hash'⟩ h
  obtain ⟨hdepth, hhash⟩ := Prod.mk.inj (toLex.injective h)
  rw [NodeKey.mk.injEq]
  exact ⟨hdepth, UInt64.toNat_inj.mp hhash⟩

end Keys

section Building

variable {maxDepth : ℕ} {stats : NodeKey → List ContinuationStats}

variable (stats) in
/-- The keys that the continuations of a node lead to. -/
def children (key : NodeKey) : List NodeKey := (stats key).map (childKey key.depth)

variable (maxDepth) in
/-- The continuations of a node when some nodes are done and some of these are claimed: the first
claim gets the node, a later one nothing. -/
def linkSpec (nodeOf : NodeKey → Node) (done : List NodeKey) (depth : ℕ) :
    List NodeKey → List ContinuationStats → List NodeContinuation
  | _, [] => []
  | claimed, c :: rest =>
    (c, if childKey depth c ∈ done then
        if childKey depth c ∈ claimed then none else some (nodeOf (childKey depth c))
      else some (leaf maxDepth depth c)) ::
      linkSpec nodeOf done depth (claimed ++ [childKey depth c]) rest

/-- The map of built nodes when some are done and some of these are moved out. -/
def BuiltAs (nodeOf : NodeKey → Node) (done claimed : List NodeKey)
    (built : BuiltNodes) : Prop :=
  ∀ key, built.lookup key =
    if key ∈ done then some (if key ∈ claimed then none else some (nodeOf key)) else none

private theorem lookup_moveOut (built : BuiltNodes) (key other : NodeKey) :
    (moveOut key built).lookup other =
      if other = key then (built.lookup other).map fun _ => none else built.lookup other := by
  induction built with
  | nil => simp [moveOut]
  | cons entry built ih =>
    have hmove : moveOut key (entry :: built) =
        (if entry.1 = key then (entry.1, none) else entry) :: moveOut key built := rfl
    obtain ⟨k, node⟩ := entry
    rw [hmove]
    by_cases hk : k = key
    · subst hk
      by_cases hother : other = k
      · subst hother
        simp
      · simp only [if_pos, List.lookup_cons, ih, if_neg hother, beq_false_of_ne hother]
    · by_cases hother : other = k
      · subst hother
        simp [hk]
      · simp only [if_neg hk, List.lookup_cons, ih, beq_false_of_ne hother]

private theorem BuiltAs.link {nodeOf : NodeKey → Node} {done claimed : List NodeKey}
    {built : BuiltNodes} (h : BuiltAs nodeOf done claimed built) (depth : ℕ) (c : ContinuationStats) :
    BuiltAs nodeOf done (claimed ++ [childKey depth c]) (linkContinuation maxDepth depth built c).1 ∧
      (linkContinuation maxDepth depth built c).2 =
        (c, if childKey depth c ∈ done then
          if childKey depth c ∈ claimed then none else some (nodeOf (childKey depth c))
          else some (leaf maxDepth depth c)) := by
  unfold linkContinuation
  by_cases hdone : childKey depth c ∈ done
  · simp only [h (childKey depth c), if_pos hdone]
    refine ⟨fun key => ?_, trivial⟩
    rw [lookup_moveOut, h key]
    by_cases hkey : key = childKey depth c
    · subst hkey
      simp [hdone]
    · simp [hkey]
  · simp only [h (childKey depth c), if_neg hdone]
    refine ⟨fun key => ?_, trivial⟩
    rw [h key]
    by_cases hkey : key = childKey depth c
    · subst hkey
      simp [hdone]
    · simp [hkey]

private theorem BuiltAs.linkAll {nodeOf : NodeKey → Node} {done : List NodeKey} (depth : ℕ)
    (cs : List ContinuationStats) {claimed : List NodeKey} {built : BuiltNodes}
    (h : BuiltAs nodeOf done claimed built) :
    BuiltAs nodeOf done (claimed ++ cs.map (childKey depth))
        (linkContinuations maxDepth depth built cs).1 ∧
      (linkContinuations maxDepth depth built cs).2 =
        linkSpec maxDepth nodeOf done depth claimed cs := by
  induction cs generalizing claimed built with
  | nil => exact ⟨by simpa [linkContinuations] using h, rfl⟩
  | cons c cs ih =>
    obtain ⟨hbuilt, hlinked⟩ := @BuiltAs.link maxDepth _ _ _ _ h depth c
    obtain ⟨hrest, hcontinuations⟩ := ih hbuilt
    rw [linkContinuations]
    refine ⟨?_, ?_⟩
    · simpa using hrest
    · simp only [hlinked, hcontinuations, linkSpec]

private theorem linkSpec_congr {nodeOf nodeOf' : NodeKey → Node} {done : List NodeKey}
    (h : ∀ key ∈ done, nodeOf key = nodeOf' key) (depth : ℕ) (cs : List ContinuationStats)
    (claimed : List NodeKey) :
    linkSpec maxDepth nodeOf done depth claimed cs =
      linkSpec maxDepth nodeOf' done depth claimed cs := by
  induction cs generalizing claimed with
  | nil => rfl
  | cons c cs ih =>
    rw [linkSpec, linkSpec, ih]
    by_cases hdone : childKey depth c ∈ done
    · rw [h _ hdone]
    · simp [hdone]

variable (maxDepth stats) in
/-- The node of a key, when the nodes before it are done. -/
def nodeSpec (nodeOf : NodeKey → Node) (done : List NodeKey) (key : NodeKey) : Node :=
  .mk key.parentHash (sortContinuations
    (linkSpec maxDepth nodeOf done key.depth (done.flatMap (children stats)) (stats key))) true

private theorem not_mem_children {done : List NodeKey} {key : NodeKey}
    (h : ∀ other ∈ done, keyRank key < keyRank other) :
    key ∉ done.flatMap (children stats) := by
  intro hmem
  obtain ⟨other, hother, hchild⟩ := List.mem_flatMap.mp hmem
  obtain ⟨c, -, rfl⟩ := List.mem_map.mp hchild
  rcases keyRank_lt_iff.mp (h other hother) with hlt | ⟨heq, -⟩
  · simp only [childKey] at hlt
    omega
  · simp only [childKey] at heq
    omega

theorem exists_nodeOf (keys : List NodeKey)
    (hdesc : keys.Pairwise fun a b => keyRank b < keyRank a) :
    ∃ nodeOf : NodeKey → Node,
      BuiltAs nodeOf keys (keys.flatMap (children stats)) (keys.foldl (buildNode maxDepth stats) []) ∧
      ∀ done key rest, keys = done ++ key :: rest →
        nodeOf key = nodeSpec maxDepth stats nodeOf done key := by
  induction keys using List.reverseRecOn with
  | nil => exact ⟨fun _ => .mk 0 [] false, fun key => by simp, fun done key rest h => by simp at h⟩
  | append_singleton keys key ih =>
    obtain ⟨hkeys, -, hlast⟩ := List.pairwise_append.mp hdesc
    have hlt : ∀ other ∈ keys, keyRank key < keyRank other :=
      fun other hother => hlast other hother key List.mem_cons_self
    obtain ⟨nodeOf, hbuilt, hspec⟩ := ih hkeys
    obtain ⟨hlinked, hcontinuations⟩ := @BuiltAs.linkAll maxDepth _ _ key.depth (stats key) _ _ hbuilt
    have hnew : key ∉ keys := fun hmem => lt_irrefl _ (hlt key hmem)
    let nodeOf' : NodeKey → Node := fun k =>
      if k = key then nodeSpec maxDepth stats nodeOf keys key else nodeOf k
    have hagree : ∀ done : List NodeKey, done ⊆ keys → ∀ k ∈ done, nodeOf k = nodeOf' k := by
      intro done hsub k hk
      have hne : k ≠ key := fun heq => hnew (heq ▸ hsub hk)
      exact (if_neg hne).symm
    have hsame : ∀ done k, done ⊆ keys →
        nodeSpec maxDepth stats nodeOf done k = nodeSpec maxDepth stats nodeOf' done k := by
      intro done k hsub
      rw [nodeSpec, nodeSpec, linkSpec_congr (hagree done hsub)]
    refine ⟨nodeOf', ?_, ?_⟩
    · intro k
      rw [List.foldl_concat, buildNode]
      simp only [hcontinuations, List.lookup_cons, List.flatMap_append, List.flatMap_singleton,
        List.mem_append, List.mem_singleton]
      by_cases hk : k = key
      · subst hk
        have hclaimed := @not_mem_children stats keys k hlt
        have hself : k ∉ children stats k := by
          intro hmem
          obtain ⟨c, -, hc⟩ := List.mem_map.mp hmem
          have := congrArg NodeKey.depth hc
          simp only [childKey] at this
          omega
        simp only [beq_self_eq_true, or_true, if_true, hclaimed, hself, or_self, if_false]
        simp [nodeOf', nodeSpec]
      · rw [beq_false_of_ne hk]
        simp only [hk, or_false]
        have hold : nodeOf' k = nodeOf k := if_neg hk
        rw [hold]
        have := hlinked k
        simpa [children] using this
    · intro done k rest heq
      rcases List.eq_nil_or_concat rest with rfl | ⟨rest', last, rfl⟩
      · obtain ⟨rfl, hkey⟩ := List.append_inj' heq rfl
        obtain rfl : key = k := by simpa using hkey
        exact (if_pos rfl).trans (hsame _ _ (List.Subset.refl _))
      · have heq' : keys ++ [key] = (done ++ k :: rest') ++ [last] := by simpa using heq
        obtain ⟨hkeys', -⟩ := List.append_inj' heq' rfl
        have hsub : done ⊆ keys := hkeys' ▸ List.subset_append_left _ _
        have hk : k ≠ key := fun hkk => hnew (by rw [hkeys', ← hkk]; simp)
        exact (if_neg hk).trans ((hspec done k rest' hkeys').trans (hsame done k hsub))

end Building

end MotifChess.Search.OpeningTree
