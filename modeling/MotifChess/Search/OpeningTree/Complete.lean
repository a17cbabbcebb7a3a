/- GID: MotifChess/Search/OpeningTree/Complete
   generality: implementation
   digest: When every continuation of an opened tree has its subtree, and when one is lost. -/

import MotifChess.Search.OpeningTree.Linking

set_option autoImplicit false
set_option relaxedAutoImplicit false

namespace MotifChess.Search.OpeningTree

open MotifChess.Db MotifChess.Order

section Contains

/-- A continuation of a node or of a node below it, with its depth. -/
inductive Node.Contains : Node → ℕ → NodeContinuation → Prop
  | here {n : Node} {c : NodeContinuation} : c ∈ n.continuations → Contains n 1 c
  | deeper {n m : Node} {c d : NodeContinuation} {depth : ℕ} :
      c ∈ n.continuations → c.2 = some m → Contains m depth d → Contains n (depth + 1) d

theorem Node.Contains.trans {n m : Node} {c d : NodeContinuation} {depth depth' : ℕ}
    (h : n.Contains depth c) (hm : c.2 = some m) (hd : m.Contains depth' d) :
    n.Contains (depth' + depth) d := by
  induction h with
  | here hc => exact .deeper hc hm hd
  | deeper hc hsub _ ih => exact .deeper hc hsub (ih hm)

theorem Node.Contains.ne_nil {n : Node} {c : NodeContinuation} {depth : ℕ}
    (h : n.Contains depth c) : n.continuations ≠ [] := by
  cases h with
  | here hc => exact List.ne_nil_of_mem hc
  | deeper hc _ _ => exact List.ne_nil_of_mem hc

theorem Node.Contains.congr {n n' : Node} {c : NodeContinuation} {depth : ℕ}
    (h : n.Contains depth c) (heq : n.continuations = n'.continuations) : n'.Contains depth c := by
  cases h with
  | here hc => exact .here (heq ▸ hc)
  | deeper hc hsub hd => exact .deeper (heq ▸ hc) hsub hd

end Contains

section Paths

variable (keys : List NodeKey) (leads : NodeKey → List UInt64) (root : NodeKey)

/-- The nodes that are reached from the root through what each node leads to. -/
inductive OnPath : NodeKey → Prop
  | root : OnPath root
  | child {key : NodeKey} {hash : UInt64} : OnPath key → hash ∈ leads key →
      ⟨key.depth + 1, hash⟩ ∈ keys → OnPath ⟨key.depth + 1, hash⟩

/-- The position that a continuation leads to is led to before: by a parent of higher hash at the
same depth, or by a lower move of the same parent. -/
def LedToBefore (key : NodeKey) (lower : List UInt64) (hash : UInt64) : Prop :=
  (∃ other ∈ keys, other.depth = key.depth ∧ key.parentHash < other.parentHash ∧
    hash ∈ leads other) ∨ hash ∈ lower

/-- No continuation on a path from the root leads to a node that is led to before. -/
def LinksOnce : Prop := ∀ key lower hash higher, OnPath keys leads root key →
  leads key = lower ++ hash :: higher → ⟨key.depth + 1, hash⟩ ∈ keys →
    ¬ LedToBefore keys leads key lower hash

end Paths

section Linked

variable {maxDepth : ℕ} {stats : NodeKey → List ContinuationStats} {keys : List NodeKey}
  {root : NodeKey} {nodeOf : NodeKey → Node}

variable (stats) in
/-- The positions that the continuations of a node lead to, in their order. -/
def leadsOf (key : NodeKey) : List UInt64 := (stats key).map ContinuationStats.resultHash

variable (maxDepth stats keys nodeOf) in
/-- What the build links to one continuation of a node. -/
def IsLinked (key : NodeKey) (lower : List ContinuationStats) (c : NodeContinuation) : Prop :=
  (childKey key.depth c.1 ∉ keys ∧ c.2 = some (leaf maxDepth key.depth c.1)) ∨
  (childKey key.depth c.1 ∈ keys ∧ c.2 = some (nodeOf (childKey key.depth c.1)) ∧
    ¬ LedToBefore keys (leadsOf stats) key (lower.map ContinuationStats.resultHash) c.1.resultHash) ∨
  (childKey key.depth c.1 ∈ keys ∧ c.2 = none ∧
    LedToBefore keys (leadsOf stats) key (lower.map ContinuationStats.resultHash) c.1.resultHash)

private theorem mem_linkSpec {done claimed : List NodeKey} {depth : ℕ} {cs : List ContinuationStats}
    {c : NodeContinuation} :
    c ∈ linkSpec maxDepth nodeOf done depth claimed cs ↔
      ∃ lower d higher, cs = lower ++ d :: higher ∧
        c = (d, if childKey depth d ∈ done then
          if childKey depth d ∈ claimed ++ lower.map (childKey depth) then none
            else some (nodeOf (childKey depth d))
          else some (leaf maxDepth depth d)) := by
  induction cs generalizing claimed with
  | nil => simp [linkSpec]
  | cons e cs ih =>
    rw [linkSpec, List.mem_cons, ih]
    constructor
    · rintro (rfl | ⟨lower, d, higher, rfl, rfl⟩)
      · exact ⟨[], e, cs, rfl, by simp⟩
      · exact ⟨e :: lower, d, higher, rfl, by simp⟩
    · rintro ⟨lower, d, higher, heq, rfl⟩
      cases lower with
      | nil =>
        obtain ⟨rfl, -⟩ := List.cons.inj heq
        exact .inl (by simp)
      | cons e' lower =>
        obtain ⟨rfl, rfl⟩ := List.cons.inj heq
        exact .inr ⟨lower, d, higher, rfl, by simp⟩

private theorem childKey_eq_iff {depth depth' : ℕ} {c c' : ContinuationStats} :
    childKey depth c = childKey depth' c' ↔ depth = depth' ∧ c.resultHash = c'.resultHash := by
  simp [childKey]

private theorem mem_done_iff {done rest : List NodeKey} {key other : NodeKey}
    (hdesc : keys.Pairwise fun a b => keyRank b < keyRank a) (hkeys : keys = done ++ key :: rest) :
    other ∈ done ↔ other ∈ keys ∧ keyRank key < keyRank other := by
  subst hkeys
  obtain ⟨-, htail, hcross⟩ := List.pairwise_append.mp hdesc
  constructor
  · intro hmem
    exact ⟨List.mem_append_left _ hmem, hcross other hmem key List.mem_cons_self⟩
  · rintro ⟨hmem, hlt⟩
    rcases List.mem_append.mp hmem with hdone | hcons
    · exact hdone
    · rcases List.mem_cons.mp hcons with rfl | hrest
      · exact absurd hlt (lt_irrefl _)
      · exact absurd (hlt.trans ((List.pairwise_cons.mp htail).1 other hrest)) (lt_irrefl _)

private theorem mem_claimed_iff {done rest : List NodeKey} {key : NodeKey}
    {lower : List ContinuationStats} {c : ContinuationStats}
    (hdesc : keys.Pairwise fun a b => keyRank b < keyRank a) (hkeys : keys = done ++ key :: rest) :
    childKey key.depth c ∈ done.flatMap (children stats) ++ lower.map (childKey key.depth) ↔
      LedToBefore keys (leadsOf stats) key (lower.map ContinuationStats.resultHash) c.resultHash := by
  rw [List.mem_append, LedToBefore]
  refine or_congr ?_ ?_
  · rw [List.mem_flatMap]
    constructor
    · rintro ⟨other, hother, hchild⟩
      obtain ⟨c', hc', heq⟩ := List.mem_map.mp hchild
      obtain ⟨hdepth, hhash⟩ := childKey_eq_iff.mp heq
      obtain ⟨hmem, hlt⟩ := (mem_done_iff hdesc hkeys).mp hother
      rcases keyRank_lt_iff.mp hlt with hdeeper | ⟨-, hhigher⟩
      · omega
      · exact ⟨other, hmem, hdepth, hhigher, List.mem_map.mpr ⟨c', hc', hhash⟩⟩
    · rintro ⟨other, hmem, hdepth, hhigher, hleads⟩
      obtain ⟨c', hc', hhash⟩ := List.mem_map.mp hleads
      have hlt := keyRank_lt_iff.mpr (.inr ⟨hdepth.symm, hhigher⟩)
      exact ⟨other, (mem_done_iff hdesc hkeys).mpr ⟨hmem, hlt⟩,
        List.mem_map.mpr ⟨c', hc', childKey_eq_iff.mpr ⟨hdepth, hhash⟩⟩⟩
  · rw [List.mem_map, List.mem_map]
    exact exists_congr fun c' => and_congr_right fun _ => by simp [childKey]

private theorem mem_sortContinuations {l : List NodeContinuation} {c : NodeContinuation} :
    c ∈ sortContinuations l ↔ c ∈ l := mem_sortBy

theorem sortContinuations_map_fst (l : List NodeContinuation) :
    ((sortContinuations l).map Prod.fst).Perm (l.map Prod.fst) := (sortBy_perm _ l).map _

theorem map_fst_linkSpec (done claimed : List NodeKey) (depth : ℕ)
    (cs : List ContinuationStats) :
    (linkSpec maxDepth nodeOf done depth claimed cs).map Prod.fst = cs := by
  induction cs generalizing claimed with
  | nil => rfl
  | cons c cs ih => rw [linkSpec, List.map_cons, ih]

theorem mem_continuations_iff (hdesc : keys.Pairwise fun a b => keyRank b < keyRank a)
    (hspec : ∀ done key rest, keys = done ++ key :: rest →
      nodeOf key = nodeSpec maxDepth stats nodeOf done key)
    {key : NodeKey} (hkey : key ∈ keys) {c : NodeContinuation} :
    c ∈ (nodeOf key).continuations ↔ ∃ lower higher, stats key = lower ++ c.1 :: higher ∧
      IsLinked maxDepth stats keys nodeOf key lower c := by
  obtain ⟨done, rest, hkeys⟩ := List.append_of_mem hkey
  have hchild : ∀ d : ContinuationStats,
      childKey key.depth d ∈ done ↔ childKey key.depth d ∈ keys := by
    intro d
    rw [mem_done_iff hdesc hkeys]
    have hlt : keyRank key < keyRank (childKey key.depth d) :=
      keyRank_lt_iff.mpr (.inl (by simp [childKey]))
    exact and_iff_left hlt
  have hnode : (nodeOf key).continuations = sortContinuations (linkSpec maxDepth nodeOf done
      key.depth (done.flatMap (children stats)) (stats key)) := by
    rw [hspec done key rest hkeys]
    rfl
  have hclaimed : ∀ (lower : List ContinuationStats) d, childKey key.depth d ∈ done.flatMap (children stats) ++
      lower.map (childKey key.depth) ↔ LedToBefore keys (leadsOf stats) key
        (lower.map ContinuationStats.resultHash) d.resultHash :=
    fun lower d => mem_claimed_iff hdesc hkeys
  rw [hnode, mem_sortContinuations, mem_linkSpec]
  constructor
  · rintro ⟨lower, d, higher, hstats, rfl⟩
    refine ⟨lower, higher, hstats, ?_⟩
    by_cases hmem : childKey key.depth d ∈ keys
    · by_cases hled : LedToBefore keys (leadsOf stats) key
        (lower.map ContinuationStats.resultHash) d.resultHash
      · refine .inr (.inr ⟨hmem, ?_, hled⟩)
        rw [if_pos ((hchild d).mpr hmem), if_pos ((hclaimed lower d).mpr hled)]
      · refine .inr (.inl ⟨hmem, ?_, hled⟩)
        rw [if_pos ((hchild d).mpr hmem), if_neg fun h => hled ((hclaimed lower d).mp h)]
    · refine .inl ⟨hmem, ?_⟩
      rw [if_neg fun h => hmem ((hchild d).mp h)]
  · rintro ⟨lower, higher, hstats, hlinked⟩
    refine ⟨lower, c.1, higher, hstats, Prod.ext rfl ?_⟩
    rcases hlinked with ⟨hmem, hsub⟩ | ⟨hmem, hsub, hled⟩ | ⟨hmem, hsub, hled⟩
    · rw [hsub, if_neg fun h => hmem ((hchild c.1).mp h)]
    · rw [hsub, if_pos ((hchild c.1).mpr hmem),
        if_neg fun h => hled ((hclaimed lower c.1).mp h)]
    · rw [hsub, if_pos ((hchild c.1).mpr hmem), if_pos ((hclaimed lower c.1).mpr hled)]

private theorem exists_onPath (hdesc : keys.Pairwise fun a b => keyRank b < keyRank a)
    (hspec : ∀ done key rest, keys = done ++ key :: rest →
      nodeOf key = nodeSpec maxDepth stats nodeOf done key)
    {n : Node} {depth : ℕ} {c : NodeContinuation} (h : n.Contains depth c) {key : NodeKey}
    (hkey : key ∈ keys) (hpath : OnPath keys (leadsOf stats) root key)
    (hn : n.continuations = (nodeOf key).continuations) :
    ∃ parent, OnPath keys (leadsOf stats) root parent ∧ parent.depth + 1 = key.depth + depth ∧
      ∃ lower higher, stats parent = lower ++ c.1 :: higher ∧
        IsLinked maxDepth stats keys nodeOf parent lower c := by
  induction h generalizing key with
  | here hc =>
    rw [hn] at hc
    exact ⟨key, hpath, rfl, (mem_continuations_iff hdesc hspec hkey).mp hc⟩
  | @deeper n m c d depth hc hsub hd ih =>
    rw [hn] at hc
    obtain ⟨lower, higher, hstats, hlinked⟩ := (mem_continuations_iff hdesc hspec hkey).mp hc
    have hleads : c.1.resultHash ∈ leadsOf stats key :=
      List.mem_map_of_mem (by rw [hstats]; simp)
    rcases hlinked with ⟨-, hleaf⟩ | ⟨hmem, hnode, -⟩ | ⟨-, hnone, -⟩
    · obtain rfl : m = leaf maxDepth key.depth c.1 := Option.some.inj (hsub.symm.trans hleaf)
      exact absurd rfl hd.ne_nil
    · obtain rfl : m = nodeOf (childKey key.depth c.1) := Option.some.inj (hsub.symm.trans hnode)
      obtain ⟨parent, hparent, hdepth, hlink⟩ := ih hmem (.child hpath hleads hmem) rfl
      refine ⟨parent, hparent, ?_, hlink⟩
      have hchild : (childKey key.depth c.1).depth = key.depth + 1 := rfl
      omega
    · rw [hnone] at hsub
      cases hsub

private theorem contains_of_onPath (hdesc : keys.Pairwise fun a b => keyRank b < keyRank a)
    (hspec : ∀ done key rest, keys = done ++ key :: rest →
      nodeOf key = nodeSpec maxDepth stats nodeOf done key)
    (hroot : root ∈ keys)
    (hsome : ∀ depth c, (nodeOf root).Contains depth c → c.2 ≠ none) {key : NodeKey}
    (hpath : OnPath keys (leadsOf stats) root key) :
    key ∈ keys ∧ ∀ c ∈ (nodeOf key).continuations, ∃ depth, (nodeOf root).Contains depth c := by
  induction hpath with
  | root => exact ⟨hroot, fun c hc => ⟨1, .here hc⟩⟩
  | @child key hash hpath hleads hmem ih =>
    obtain ⟨hkey, hbelow⟩ := ih
    obtain ⟨c, hc, rfl⟩ := List.mem_map.mp hleads
    obtain ⟨lower, higher, hstats⟩ := List.append_of_mem hc
    have hchild : childKey key.depth c ∈ keys := hmem
    have hinner : ∀ sub, IsLinked maxDepth stats keys nodeOf key lower (c, sub) →
        ∃ depth, (nodeOf root).Contains depth (c, sub) := by
      intro sub hlinked
      exact hbelow _ ((mem_continuations_iff hdesc hspec hkey).mpr
        ⟨lower, higher, hstats, hlinked⟩)
    refine ⟨hmem, fun d hd => ?_⟩
    by_cases hled : LedToBefore keys (leadsOf stats) key
      (lower.map ContinuationStats.resultHash) c.resultHash
    · obtain ⟨depth, hlost⟩ := hinner none (.inr (.inr ⟨hchild, rfl, hled⟩))
      exact absurd rfl (hsome depth _ hlost)
    · obtain ⟨depth, hheld⟩ := hinner (some (nodeOf (childKey key.depth c)))
        (.inr (.inl ⟨hchild, rfl, hled⟩))
      exact ⟨1 + depth, hheld.trans rfl (.here hd)⟩

theorem forall_ne_none_iff (hdesc : keys.Pairwise fun a b => keyRank b < keyRank a)
    (hspec : ∀ done key rest, keys = done ++ key :: rest →
      nodeOf key = nodeSpec maxDepth stats nodeOf done key) (hroot : root ∈ keys) :
    (∀ depth c, (nodeOf root).Contains depth c → c.2 ≠ none) ↔
      LinksOnce keys (leadsOf stats) root := by
  constructor
  · intro hsome key lower hash higher hpath hleads hmem hled
    obtain ⟨hkey, hbelow⟩ := contains_of_onPath hdesc hspec hroot hsome hpath
    obtain ⟨lower, rest, hstats, rfl, hrest⟩ := List.map_eq_append_iff.mp hleads
    obtain ⟨c, higher, rfl, rfl, -⟩ := List.map_eq_cons_iff.mp hrest
    obtain ⟨depth, hlost⟩ := hbelow (c, none) ((mem_continuations_iff hdesc hspec hkey).mpr
      ⟨lower, higher, hstats, .inr (.inr ⟨hmem, rfl, hled⟩)⟩)
    exact hsome depth _ hlost rfl
  · intro honce depth c hc
    obtain ⟨key, hpath, -, lower, higher, hstats, hlinked⟩ :=
      exists_onPath hdesc hspec hc hroot .root rfl
    have hleads : leadsOf stats key = lower.map ContinuationStats.resultHash ++
        c.1.resultHash :: higher.map ContinuationStats.resultHash := by
      rw [leadsOf, hstats, List.map_append, List.map_cons]
    rcases hlinked with ⟨-, hleaf⟩ | ⟨-, hnode, -⟩ | ⟨hmem, -, hled⟩
    · simp [hleaf]
    · simp [hnode]
    · exact absurd hled (honce key _ _ _ hpath hleads hmem)

theorem continuations_perm_of_contains (hdesc : keys.Pairwise fun a b => keyRank b < keyRank a)
    (hspec : ∀ done key rest, keys = done ++ key :: rest →
      nodeOf key = nodeSpec maxDepth stats nodeOf done key) (hroot : root ∈ keys)
    {depth : ℕ} {c : NodeContinuation} (hc : (nodeOf root).Contains depth c) {subtree : Node}
    (hsub : c.2 = some subtree) :
    subtree.zobristHash = c.1.resultHash ∧ ∀ key ∈ keys, key.depth = root.depth + depth →
      key.parentHash = c.1.resultHash →
        (subtree.continuations.map Prod.fst).Perm (stats key) := by
  obtain ⟨parent, -, hdepth, lower, higher, -, hlinked⟩ :=
    exists_onPath hdesc hspec hc hroot .root rfl
  have hchild : ∀ key : NodeKey, key.depth = root.depth + depth →
      key.parentHash = c.1.resultHash → key = childKey parent.depth c.1 := by
    rintro ⟨keyDepth, parentHash⟩ hkeyDepth hhash
    simp only at hkeyDepth hhash
    rw [childKey, hdepth, hkeyDepth, hhash]
  rcases hlinked with ⟨hmem, hleaf⟩ | ⟨hmem, hnode, -⟩ | ⟨-, hnone, -⟩
  · obtain rfl : subtree = leaf maxDepth parent.depth c.1 := Option.some.inj (hsub.symm.trans hleaf)
    refine ⟨rfl, fun key hkey hkeyDepth hhash => ?_⟩
    exact absurd (hchild key hkeyDepth hhash ▸ hkey) hmem
  · obtain rfl : subtree = nodeOf (childKey parent.depth c.1) :=
      Option.some.inj (hsub.symm.trans hnode)
    obtain ⟨done, rest, hkeys⟩ := List.append_of_mem hmem
    rw [hspec done _ rest hkeys]
    refine ⟨rfl, fun key _ hkeyDepth hhash => ?_⟩
    obtain rfl := hchild key hkeyDepth hhash
    exact (sortContinuations_map_fst _).trans (.of_eq (map_fst_linkSpec ..))
  · rw [hnone] at hsub
    cases hsub

end Linked

end MotifChess.Search.OpeningTree
