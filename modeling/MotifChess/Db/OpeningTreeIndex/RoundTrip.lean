/- GID: MotifChess/Db/OpeningTreeIndex/RoundTrip
   generality: implementation
   digest: An index that is opened from the bytes that were written answers what was written. -/

import MotifChess.Db.OpeningTreeIndex.Builder
import MotifChess.Db.OpeningTreeIndex.Validation

set_option autoImplicit false
set_option relaxedAutoImplicit false

namespace MotifChess.Db.OpeningTreeIndex

open Codec LittleEndian
open MotifChess.Order.Aggregation MotifChess.Order.Bisection

section Varint

private theorem readVarintLoop_of_readUleb128Loop {count consumed shift value : ℕ} {input : List UInt8}
    {r : ℕ × List UInt8} (h : readUleb128Loop count consumed shift value input = some r) :
    readVarintLoop shift value input = some r := by
  induction count generalizing consumed shift value input with
  | zero => cases h
  | succ count ih =>
    cases input with
    | nil => cases h
    | cons byte rest =>
      rw [readUleb128Loop] at h
      rw [readVarintLoop]
      split at h
      · cases h
      next hguard =>
        rw [if_neg (by omega)]
        dsimp only
        split at h
        next hlast =>
          rw [if_pos hlast]
          dsimp only at h
          split at h
          · exact h
          · cases h
        next hmore =>
          rw [if_neg hmore]
          exact ih h

private theorem readVarint_writeVarint {v : ℕ} (hv : v < 2 ^ 64) (rest : List UInt8) :
    readVarint (writeVarint v ++ rest) = some (v, rest) := by
  rw [writeVarint, writeUleb128_eq]
  exact readVarintLoop_of_readUleb128Loop (readUleb128_encode hv rest)

end Varint

section Records

variable {encodeF64 : ℚ → ℕ}

/-- The numbers of an edge fit the fields of its record. -/
structure EdgeFits (e : EdgeKey × EdgeAgg) : Prop where
  encodedMove : e.1.encodedMove < 2 ^ 16
  childHash : e.1.childHash < 2 ^ 64
  rootPly : e.2.rootPly ≤ uint16Max
  ecoSampleMin : e.2.ecoSampleMin ≤ uint32Max
  ecoSampleMax : e.2.ecoSampleMax ≤ uint32Max

/-- The record of an edge, with the count of its child. -/
def edgeContinuation (encodeF64 : ℚ → ℕ) (childCount : ℕ → ℕ) (e : EdgeKey × EdgeAgg) :
    Continuation where
  encodedMove := e.1.encodedMove
  childHash := e.1.childHash
  rootPly := e.2.rootPly
  frequency := e.2.frequency.toNat
  whiteWins := e.2.whiteWins.toNat
  draws := e.2.draws.toNat
  blackWins := e.2.blackWins.toNat
  whiteEloSum := sumBits e.2.whiteEloSum
  whiteEloCount := e.2.whiteEloCount.toNat
  blackEloSum := sumBits e.2.blackEloSum
  blackEloCount := e.2.blackEloCount.toNat
  weightedContribSum := encodeF64 e.2.weightedContribSum % 256 ^ 8
  eloWeightSum := encodeF64 e.2.eloWeightSum % 256 ^ 8
  ecoSampleMin := e.2.ecoSampleMin
  ecoSampleMax := e.2.ecoSampleMax
  transpositionFrequency := childCount e.1.childHash

private theorem sumBits_lt (sum : ℤ) : sumBits sum < 2 ^ 64 := by
  rw [sumBits]
  omega

private theorem readLe_leBytes_mod (width n : ℕ) (rest : List UInt8) :
    readLe width (leBytes width n ++ rest) = some (n % 256 ^ width, rest) := by
  rw [← leBytes_mod]
  exact readLe_leBytes (Nat.mod_lt _ (Nat.pow_pos (by omega))) rest

private theorem toNat_lt_64 (n : UInt32) : n.toNat < 2 ^ 64 := by
  have := n.toNat_lt
  omega

private theorem readFields_writeContinuation {childCount : ℕ → ℕ} {e : EdgeKey × EdgeAgg} (hfits : EdgeFits e)
    (hcount : childCount e.1.childHash ≤ uint32Max) (rest : List UInt8) :
    readFields (writeContinuation encodeF64 e.1 e.2 (childCount e.1.childHash) ++ rest) =
      some (edgeContinuation encodeF64 childCount e, rest) := by
  obtain ⟨hmove, hchild, hply, hmin, hmax⟩ := hfits
  rw [uint16Max] at hply
  rw [uint32Max] at hmin hmax hcount
  have hmove' : e.1.encodedMove < 256 ^ 2 := by omega
  have hchild' : e.1.childHash < 256 ^ 8 := by omega
  have hply' : e.2.rootPly < 2 ^ 64 := by omega
  have hmin' : e.2.ecoSampleMin < 2 ^ 64 := by omega
  have hmax' : e.2.ecoSampleMax < 2 ^ 64 := by omega
  have hcount' : childCount e.1.childHash < 2 ^ 64 := by omega
  rw [writeContinuation]
  simp only [List.append_assoc]
  unfold readFields
  refine Option.bind_eq_some_iff.mpr ⟨_, readLe_leBytes hmove' _, ?_⟩
  refine Option.bind_eq_some_iff.mpr ⟨_, readLe_leBytes hchild' _, ?_⟩
  refine Option.bind_eq_some_iff.mpr ⟨_, readVarint_writeVarint hply' _, ?_⟩
  refine Option.bind_eq_some_iff.mpr ⟨_, readVarint_writeVarint (toNat_lt_64 _) _, ?_⟩
  refine Option.bind_eq_some_iff.mpr ⟨_, readVarint_writeVarint (toNat_lt_64 _) _, ?_⟩
  refine Option.bind_eq_some_iff.mpr ⟨_, readVarint_writeVarint (toNat_lt_64 _) _, ?_⟩
  refine Option.bind_eq_some_iff.mpr ⟨_, readVarint_writeVarint (toNat_lt_64 _) _, ?_⟩
  refine Option.bind_eq_some_iff.mpr ⟨_, readVarint_writeVarint (sumBits_lt _) _, ?_⟩
  refine Option.bind_eq_some_iff.mpr ⟨_, readVarint_writeVarint (toNat_lt_64 _) _, ?_⟩
  refine Option.bind_eq_some_iff.mpr ⟨_, readVarint_writeVarint (sumBits_lt _) _, ?_⟩
  refine Option.bind_eq_some_iff.mpr ⟨_, readVarint_writeVarint (toNat_lt_64 _) _, ?_⟩
  refine Option.bind_eq_some_iff.mpr ⟨_, readLe_leBytes_mod _ _ _, ?_⟩
  refine Option.bind_eq_some_iff.mpr ⟨_, readLe_leBytes_mod _ _ _, ?_⟩
  refine Option.bind_eq_some_iff.mpr ⟨_, readVarint_writeVarint hmin' _, ?_⟩
  refine Option.bind_eq_some_iff.mpr ⟨_, readVarint_writeVarint hmax' _, ?_⟩
  exact Option.bind_eq_some_iff.mpr ⟨_, readVarint_writeVarint hcount' _, rfl⟩

/-- Every edge of a list that is written fits its record, and so does the count of its child. -/
structure EdgesFit (childCount : ℕ → ℕ) (edges : List (EdgeKey × EdgeAgg)) : Prop where
  fits : ∀ e ∈ edges, EdgeFits e
  counts : ∀ e ∈ edges, childCount e.1.childHash ≤ uint32Max

variable {childCount : ℕ → ℕ} {frequencyOf : ℕ → Result ℕ} {edges : List (EdgeKey × EdgeAgg)}

theorem EdgesFit.subset {edges' : List (EdgeKey × EdgeAgg)} (h : EdgesFit childCount edges)
    (hsub : edges' ⊆ edges) : EdgesFit childCount edges' :=
  ⟨fun e he => h.fits e (hsub he), fun e he => h.counts e (hsub he)⟩

private theorem readContinuations_writeContinuations (maxRootPly gameCount : ℕ)
    (hfits : EdgesFit childCount edges)
    (hcount : ∀ hash n, frequencyOf hash = .ok n → n = childCount hash) {bytes : List UInt8}
    (hwrite : writeContinuations encodeF64 frequencyOf edges = .ok bytes) (tail : List UInt8) :
    readContinuations maxRootPly gameCount edges.length (bytes ++ tail) =
      if ∀ e ∈ edges, ¬(edgeContinuation encodeF64 childCount e).Rejected maxRootPly gameCount then
        .ok (edges.map (edgeContinuation encodeF64 childCount), tail)
      else .error .ioFailure := by
  induction edges generalizing bytes with
  | nil =>
    obtain rfl := Except.ok.inj hwrite
    simp [readContinuations]
  | cons e edges ih =>
    rw [writeContinuations] at hwrite
    obtain ⟨frequency, hfrequency, hwrite⟩ := bind_eq_ok.mp hwrite
    split at hwrite
    · cases hwrite
    obtain ⟨more, hmore, hwrite⟩ := bind_eq_ok.mp hwrite
    obtain rfl := Except.ok.inj hwrite
    obtain rfl := hcount _ _ hfrequency
    rw [List.length_cons, readContinuations, readContinuation, List.append_assoc,
      readFields_writeContinuation (hfits.fits e List.mem_cons_self)
        (hfits.counts e List.mem_cons_self)]
    dsimp only
    by_cases hrejected :
        (edgeContinuation encodeF64 childCount e).Rejected maxRootPly gameCount
    · rw [if_pos hrejected, if_neg fun h => h e List.mem_cons_self hrejected]
      rfl
    · rw [if_neg hrejected, ok_bind]
      dsimp only
      rw [ih (hfits.subset (List.subset_cons_self ..)) hmore]
      split
      next hall =>
        have hboth : ∀ e' ∈ e :: edges, ¬(edgeContinuation encodeF64 childCount e').Rejected
            maxRootPly gameCount := List.forall_mem_cons.mpr ⟨hrejected, hall⟩
        rw [if_pos hboth]
        rfl
      next hnot =>
        rw [if_neg fun h => hnot fun e' he' => h e' (List.mem_cons_of_mem e he')]
        rfl

end Records

section Ascending

variable {α : Type} {f : α → ℕ} {l : List α} {k : ℕ}

private theorem takeWhile_eq_filter (hsorted : l.Pairwise fun a b => f a ≤ f b) (hle : ∀ a ∈ l, k ≤ f a) :
    (l.takeWhile fun a => f a = k) = l.filter fun a => f a = k := by
  induction l with
  | nil => rfl
  | cons a l ih =>
    obtain ⟨hhead, htail⟩ := List.pairwise_cons.mp hsorted
    by_cases ha : f a = k
    · rw [List.takeWhile_cons_of_pos (by simpa using ha), List.filter_cons_of_pos (by simpa using ha),
        ih htail fun b hb => hle b (List.mem_cons_of_mem a hb)]
    · have hlt : k < f a := lt_of_le_of_ne (hle a List.mem_cons_self) (Ne.symm ha)
      rw [List.takeWhile_cons_of_neg (by simpa using ha), List.filter_cons_of_neg (by simpa using ha),
        eq_comm, List.filter_eq_nil_iff]
      intro b hb
      have hab := hhead b hb
      rw [decide_eq_true_eq]
      omega

private theorem filter_dropWhile {k' : ℕ} (hne : k' ≠ k) :
    ((l.dropWhile fun a => f a = k).filter fun a => f a = k') = l.filter fun a => f a = k' := by
  have hfront : (l.takeWhile fun a => f a = k).filter (fun a => f a = k') = [] := by
    rw [List.filter_eq_nil_iff]
    intro a ha hk'
    have hk := List.mem_takeWhile_imp ha
    rw [decide_eq_true_eq] at hk hk'
    exact hne (hk'.symm.trans hk)
  conv_rhs => rw [← List.takeWhile_append_dropWhile (p := fun a => f a = k) (l := l)]
  rw [List.filter_append, hfront, List.nil_append]

private theorem lt_of_mem_dropWhile (hsorted : l.Pairwise fun a b => f a ≤ f b) (hle : ∀ a ∈ l, k ≤ f a)
    {a : α} (ha : a ∈ l.dropWhile fun a => f a = k) : k < f a := by
  induction l with
  | nil => cases ha
  | cons b l ih =>
    obtain ⟨hhead, htail⟩ := List.pairwise_cons.mp hsorted
    by_cases hb : f b = k
    · rw [List.dropWhile_cons_of_pos (by simpa using hb)] at ha
      exact ih htail (fun c hc => hle c (List.mem_cons_of_mem b hc)) ha
    · have hlt : k < f b := lt_of_le_of_ne (hle b List.mem_cons_self) (Ne.symm hb)
      rw [List.dropWhile_cons_of_neg (by simpa using hb)] at ha
      rcases List.mem_cons.mp ha with rfl | ha
      · exact hlt
      · exact hlt.trans_le (hhead a ha)

end Ascending

section Nodes

variable {rules : Chess.Rules} {encodeF64 : ℚ → ℕ} {childCount : ℕ → ℕ}
  {frequencyOf : ℕ → Result ℕ} {file : List UInt8}

/-- The node of a root stands in a file, and its records can be read at its offset. -/
structure NodeStands (rules : Chess.Rules) (file : List UInt8) (maxRootPly : ℕ)
    (records : ℕ → List Continuation) (root : ℕ × ℕ) (node : Node) : Prop where
  hash : node.hash = root.1
  gameCount : node.gameCount = root.2
  complete : node.complete = decide (root.1 = fullCoverageRootHash rules)
  stored : ∃ next, readContinuations (maxPlyForValidation maxRootPly node.complete) node.gameCount
    node.continuationCount (file.drop node.dataOffset) = .ok (records root.1, next)

/-- What the header of a node has to satisfy. -/
def HeaderAccepted (previousHash : Option ℕ) (hash gameCount continuationCount : ℕ) : Prop :=
  gameCount ≠ 0 ∧ gameCount ≤ uint32Max ∧ continuationCount ≤ uint32Max ∧
    ∀ previous ∈ previousHash, previous < hash

instance (previousHash : Option ℕ) (hash gameCount continuationCount : ℕ) :
    Decidable (HeaderAccepted previousHash hash gameCount continuationCount) :=
  inferInstanceAs (Decidable (_ ∧ _))

private theorem readNodeHeader_eq (previousHash : Option ℕ) {hash gameCount continuationCount : ℕ}
    (hhash : hash < 2 ^ 64) (hgames : gameCount < 2 ^ 64) (hcontinuations : continuationCount < 2 ^ 64)
    (complete : Bool) (tail : List UInt8) :
    readNodeHeader previousHash (leBytes 8 hash ++ (writeVarint gameCount ++
        (writeVarint continuationCount ++ (writeVarint complete.toNat ++ tail)))) =
      if HeaderAccepted previousHash hash gameCount continuationCount then
        some ((hash, gameCount, continuationCount, complete), tail)
      else none := by
  have hhash' : hash < 256 ^ 8 := by omega
  have hcomplete : complete.toNat < 2 ^ 64 := by cases complete <;> decide
  have hone : complete.toNat ≤ 1 := by cases complete <;> decide
  have hbool : decide (complete.toNat = 1) = complete := by cases complete <;> rfl
  unfold readNodeHeader
  simp only [Option.bind_eq_bind, readLe_leBytes hhash', readVarint_writeVarint hgames,
    readVarint_writeVarint hcontinuations, readVarint_writeVarint hcomplete, Option.bind_some, hbool]
  by_cases h : HeaderAccepted previousHash hash gameCount continuationCount
  · obtain ⟨hzero, hmax, hcount, hprevious⟩ := id h
    rw [if_pos h, guard, if_pos ⟨hzero, hmax, hcount, hone, hprevious⟩]
    rfl
  · rw [if_neg h, guard, if_neg fun hall => h ⟨hall.1, hall.2.1, hall.2.2.1, hall.2.2.2.2⟩]
    rfl

/-- The roots and edges of a tree ascend, every edge starts from a root, and all their numbers fit. -/
structure TreeFits (childCount : ℕ → ℕ) (roots : List (ℕ × ℕ)) (edges : List (EdgeKey × EdgeAgg)) :
    Prop where
  fits : EdgesFit childCount edges
  rootFits : ∀ root ∈ roots, root.1 < 2 ^ 64 ∧ root.2 < 2 ^ 64
  length_lt : edges.length < 2 ^ 64
  ascending : edges.Pairwise fun e e' => e.1.rootHash ≤ e'.1.rootHash
  rootsAscending : roots.Pairwise fun root root' => root.1 < root'.1
  rooted : ∀ e ∈ edges, e.1.rootHash ∈ roots.map Prod.fst

/-- A root that can be opened again: its counts and its records are accepted. -/
structure RootAccepted (rules : Chess.Rules) (header : Header) (records : ℕ → List Continuation)
    (root : ℕ × ℕ) : Prop where
  games : root.2 ≠ 0 ∧ root.2 ≤ uint32Max
  continuations : (records root.1).length ≤ uint32Max
  complete : root.1 = fullCoverageRootHash rules → root.2 = header.sourceGameCount
  records : ∀ c ∈ records root.1, ¬c.Rejected (maxPlyForValidation header.maxRootPly
    (decide (root.1 = fullCoverageRootHash rules))) root.2

/-- A node that is accepted where it stands among the nodes of the file. -/
structure NodeAccepted (rules : Chess.Rules) (header : Header) (previousHash : Option ℕ)
    (completeCount : ℕ) (records : List Continuation) (root : ℕ × ℕ) : Prop where
  front : HeaderAccepted previousHash root.1 root.2 records.length
  complete : root.1 = fullCoverageRootHash rules →
    root.2 = header.sourceGameCount ∧ completeCount = 0
  records : ∀ c ∈ records, ¬c.Rejected (maxPlyForValidation header.maxRootPly
    (decide (root.1 = fullCoverageRootHash rules))) root.2

private theorem nodeAccepted_iff {header : Header} {records : ℕ → List Continuation} {root : ℕ × ℕ}
    {previousHash : Option ℕ} {completeCount : ℕ} (hprevious : ∀ previous ∈ previousHash, previous < root.1)
    (hcomplete : completeCount ≠ 0 → root.1 ≠ fullCoverageRootHash rules) :
    NodeAccepted rules header previousHash completeCount (records root.1) root ↔
      RootAccepted rules header records root := by
  constructor
  · rintro ⟨hheader, hfull, hrecords⟩
    exact ⟨⟨hheader.1, hheader.2.1⟩, hheader.2.2.1, fun hroot => (hfull hroot).1, hrecords⟩
  · rintro ⟨hgames, hcontinuations, hfull, hrecords⟩
    refine ⟨⟨hgames.1, hgames.2, hcontinuations, hprevious⟩, fun hroot => ⟨hfull hroot, ?_⟩, hrecords⟩
    by_contra hne
    exact hcomplete hne hroot

/-- A node and its records in front of other bytes. -/
def nodeBytes (rules : Chess.Rules) (root : ℕ × ℕ) (continuationCount : ℕ) (recordBytes : List UInt8) :
    List UInt8 :=
  leBytes 8 root.1 ++ writeVarint root.2 ++ writeVarint continuationCount ++
    writeVarint (if root.1 = fullCoverageRootHash rules then 1 else 0) ++ recordBytes

section Node

variable {header : Header} {previousHash : Option ℕ} {completeCount fileSize count : ℕ}
  {root : ℕ × ℕ} {edges : List (EdgeKey × EdgeAgg)} {recordBytes input : List UInt8}

private theorem readNodes_node (hroot : root.1 < 2 ^ 64 ∧ root.2 < 2 ^ 64) (hlength : edges.length < 2 ^ 64)
    (hfits : EdgesFit childCount edges)
    (hcount : ∀ hash n, frequencyOf hash = .ok n → n = childCount hash)
    (hwrite : writeContinuations encodeF64 frequencyOf edges = .ok recordBytes) :
    (NodeAccepted rules header previousHash completeCount
          (edges.map (edgeContinuation encodeF64 childCount)) root →
        readNodes rules fileSize header (count + 1) previousHash completeCount
            (nodeBytes rules root edges.length recordBytes ++ input) =
          (readNodes rules fileSize header count (some root.1)
            (completeCount + (decide (root.1 = fullCoverageRootHash rules)).toNat) input).map
            fun (nodes, rest) => (⟨root.1, root.2, fileSize - (recordBytes ++ input).length,
              edges.length, decide (root.1 = fullCoverageRootHash rules)⟩ :: nodes, rest)) ∧
      (¬NodeAccepted rules header previousHash completeCount
          (edges.map (edgeContinuation encodeF64 childCount)) root →
        readNodes rules fileSize header (count + 1) previousHash completeCount
            (nodeBytes rules root edges.length recordBytes ++ input) = .error .ioFailure) := by
  set complete := decide (root.1 = fullCoverageRootHash rules) with hisComplete
  have htoNat : (if root.1 = fullCoverageRootHash rules then 1 else 0) = complete.toNat := by
    rw [hisComplete]
    split
    next h => simp [h]
    next h => simp [h]
  have hrecords := readContinuations_writeContinuations
    (maxPlyForValidation header.maxRootPly complete) root.2 hfits hcount hwrite input
  rw [nodeBytes, htoNat]
  simp only [List.append_assoc]
  rw [readNodes, readNodeHeader_eq previousHash hroot.1 hroot.2 hlength]
  constructor
  · rintro ⟨hheader, hfull, haccepted⟩
    rw [List.length_map] at hheader
    have hstart : ¬(complete = true ∧ (root.1 ≠ (rules.hash rules.start).toNat ∨
        root.2 ≠ header.sourceGameCount ∨ completeCount ≠ 0)) := by
      rintro ⟨hcomplete, hne⟩
      have hfound := of_decide_eq_true hcomplete
      obtain ⟨hgames, hzero⟩ := hfull hfound
      rcases hne with hne | hne | hne
      · exact hne hfound
      · exact hne hgames
      · exact hne hzero
    rw [if_pos hheader]
    dsimp only
    rw [if_neg hstart, hrecords, if_pos fun e he => haccepted _ (List.mem_map_of_mem he), ok_bind]
    dsimp only
    cases readNodes rules fileSize header count (some root.1) (completeCount + complete.toNat) input <;> rfl
  · intro hnot
    by_cases hheader : HeaderAccepted previousHash root.1 root.2 edges.length
    swap
    · rw [if_neg hheader]
    rw [if_pos hheader]
    dsimp only
    split
    · rfl
    next hstart =>
      rw [hrecords, if_neg ?_]
      · rfl
      · intro haccepted
        refine hnot ⟨by rwa [List.length_map], fun hfound => ?_, fun c hc => ?_⟩
        · have hcomplete : complete = true := decide_eq_true hfound
          constructor
          · by_contra hne
            exact hstart ⟨hcomplete, .inr (.inl hne)⟩
          · by_contra hne
            exact hstart ⟨hcomplete, .inr (.inr hne)⟩
        · obtain ⟨e, he, rfl⟩ := List.mem_map.mp hc
          exact haccepted e he

end Node

section Tree

variable {root : ℕ × ℕ} {roots : List (ℕ × ℕ)} {edges : List (EdgeKey × EdgeAgg)}

private theorem TreeFits.lt_roots (h : TreeFits childCount (root :: roots) edges) {other : ℕ × ℕ}
    (hother : other ∈ roots) : root.1 < other.1 :=
  (List.pairwise_cons.mp h.rootsAscending).1 other hother

private theorem TreeFits.le_edges (h : TreeFits childCount (root :: roots) edges) :
    ∀ e ∈ edges, root.1 ≤ e.1.rootHash := by
  intro e he
  rcases List.mem_cons.mp (h.rooted e he) with hsame | hlater
  · exact hsame.ge
  · obtain ⟨other, hother, hsame⟩ := List.mem_map.mp hlater
    rw [← hsame]
    exact (h.lt_roots hother).le

private theorem TreeFits.front (h : TreeFits childCount (root :: roots) edges) :
    (edges.takeWhile fun e => e.1.rootHash = root.1) = edges.filter fun e => e.1.rootHash = root.1 :=
  takeWhile_eq_filter h.ascending h.le_edges

private theorem TreeFits.rest (h : TreeFits childCount (root :: roots) edges) :
    TreeFits childCount roots (edges.dropWhile fun e => e.1.rootHash = root.1) := by
  have hsub := List.dropWhile_suffix (l := edges) (fun e => e.1.rootHash = root.1)
  refine ⟨h.fits.subset hsub.subset, fun other hother => h.rootFits other (List.mem_cons_of_mem _ hother),
    hsub.length_le.trans_lt h.length_lt, h.ascending.sublist hsub.sublist,
    (List.pairwise_cons.mp h.rootsAscending).2, fun e he => ?_⟩
  rcases List.mem_cons.mp (h.rooted e (hsub.subset he)) with hsame | hother
  · exact absurd hsame (lt_of_mem_dropWhile h.ascending h.le_edges he).ne'
  · exact hother

private theorem TreeFits.filter_rest (h : TreeFits childCount (root :: roots) edges) {other : ℕ × ℕ}
    (hother : other ∈ roots) : ((edges.dropWhile fun e => e.1.rootHash = root.1).filter fun e =>
      e.1.rootHash = other.1) = edges.filter fun e => e.1.rootHash = other.1 :=
  filter_dropWhile (h.lt_roots hother).ne'

end Tree

private theorem readNodes_writeNodes (header : Header) {roots : List (ℕ × ℕ)}
    {edges : List (EdgeKey × EdgeAgg)} (hfits : TreeFits childCount roots edges)
    (hcount : ∀ hash n, frequencyOf hash = .ok n → n = childCount hash)
    {records : ℕ → List Continuation} (hrecords : ∀ root ∈ roots, records root.1 =
      (edges.filter fun e => e.1.rootHash = root.1).map (edgeContinuation encodeF64 childCount))
    {bytes : List UInt8} (hwrite : writeNodes rules encodeF64 frequencyOf roots edges = .ok bytes)
    {tail : List UInt8} (hfollows : Follows 0 file (bytes ++ tail)) (previousHash : Option ℕ)
    (hprevious : ∀ root ∈ roots, ∀ previous ∈ previousHash, previous < root.1) (completeCount : ℕ)
    (hcomplete : completeCount ≠ 0 → ∀ root ∈ roots, root.1 ≠ fullCoverageRootHash rules) :
    (∃ nodes, readNodes rules file.length header roots.length previousHash completeCount
          (bytes ++ tail) = .ok (nodes, tail) ∧
        List.Forall₂ (NodeStands rules file header.maxRootPly records) roots nodes ∧
        ∀ root ∈ roots, RootAccepted rules header records root) ∨
      (readNodes rules file.length header roots.length previousHash completeCount
          (bytes ++ tail) = .error .ioFailure ∧
        ∃ root ∈ roots, ¬RootAccepted rules header records root) := by
  induction roots generalizing edges bytes previousHash completeCount with
  | nil =>
    obtain rfl := Except.ok.inj hwrite
    exact Or.inl ⟨[], rfl, .nil, by simp⟩
  | cons root roots ih =>
    rw [writeNodes] at hwrite
    obtain ⟨recordBytes, hrecordBytes, hwrite⟩ := bind_eq_ok.mp hwrite
    obtain ⟨laterBytes, hlaterBytes, hwrite⟩ := bind_eq_ok.mp hwrite
    obtain rfl := Except.ok.inj hwrite
    have hrecordsHere : records root.1 = (edges.takeWhile fun e => e.1.rootHash = root.1).map
        (edgeContinuation encodeF64 childCount) := by
      rw [hfits.front]
      exact hrecords root List.mem_cons_self
    have hstarts := List.takeWhile_prefix (l := edges) (fun e => e.1.rootHash = root.1)
    have hedges := hfits.fits.subset hstarts.subset
    have hnode := @readNodes_node rules encodeF64 childCount frequencyOf header previousHash
      completeCount file.length roots.length root _ recordBytes (laterBytes ++ tail)
      (hfits.rootFits root List.mem_cons_self) (hstarts.length_le.trans_lt hfits.length_lt) hedges
      hcount hrecordBytes
    rw [← hrecordsHere, nodeAccepted_iff (hprevious root List.mem_cons_self)
      fun hne => hcomplete hne root List.mem_cons_self, ← List.append_assoc] at hnode
    rw [List.length_cons]
    by_cases haccepted : RootAccepted rules header records root
    swap
    · exact Or.inr ⟨hnode.2 haccepted, root, List.mem_cons_self, haccepted⟩
    have hdata : Follows 0 file (recordBytes ++ (laterBytes ++ tail)) := by
      obtain ⟨front, hfile, -⟩ := hfollows
      refine ⟨front ++ (leBytes 8 root.1 ++ writeVarint root.2 ++ writeVarint
        (edges.takeWhile fun e => e.1.rootHash = root.1).length ++ writeVarint
        (if root.1 = fullCoverageRootHash rules then 1 else 0)), ?_, Nat.zero_le _⟩
      simp only [hfile, List.append_assoc]
    have hnext : Follows 0 file (laterBytes ++ tail) := by
      obtain ⟨front, hfile, -⟩ := hdata
      exact ⟨front ++ recordBytes, by rw [hfile, List.append_assoc], Nat.zero_le _⟩
    have hrecordsLater : ∀ other ∈ roots, records other.1 =
        ((edges.dropWhile fun e => e.1.rootHash = root.1).filter fun e =>
          e.1.rootHash = other.1).map (edgeContinuation encodeF64 childCount) := by
      intro other hother
      rw [hfits.filter_rest hother]
      exact hrecords other (List.mem_cons_of_mem _ hother)
    have hpreviousLater : ∀ other ∈ roots, ∀ previous ∈ some root.1, previous < other.1 := by
      intro other hother previous hprev
      obtain rfl := Option.mem_some_iff.mp hprev
      exact hfits.lt_roots hother
    have hcompleteLater : completeCount + (decide (root.1 = fullCoverageRootHash rules)).toNat ≠ 0 →
        ∀ other ∈ roots, other.1 ≠ fullCoverageRootHash rules := by
      intro hne other hother
      by_cases hzero : completeCount = 0
      · have hroot : root.1 = fullCoverageRootHash rules := by
          by_contra hnot
          simp [hzero, hnot] at hne
        exact hroot ▸ (hfits.lt_roots hother).ne'
      · exact hcomplete hzero other (List.mem_cons_of_mem _ hother)
    have hread := hnode.1 haccepted
    rcases ih hfits.rest hrecordsLater hlaterBytes hnext _ hpreviousLater _ hcompleteLater with
      ⟨nodes, hnodes, hstand, hall⟩ | ⟨hnodes, other, hother, hnot⟩
    · rw [hnodes] at hread
      refine Or.inl ⟨_, hread, .cons ⟨rfl, rfl, rfl, laterBytes ++ tail, ?_⟩ hstand,
        List.forall_mem_cons.mpr ⟨haccepted, hall⟩⟩
      dsimp only
      rw [hdata.drop_eq, readContinuations_writeContinuations _ _ hedges hcount hrecordBytes,
        ← hrecordsHere, if_pos fun e he => haccepted.records _ ?_]
      rw [hrecordsHere]
      exact List.mem_map_of_mem he
    · rw [hnodes] at hread
      exact Or.inr ⟨hread, other, List.mem_cons_of_mem _ hother, hnot⟩

end Nodes

section File

variable {rules : Chess.Rules} {encodeF64 : ℚ → ℕ} {childCount : ℕ → ℕ}
  {frequencyOf : ℕ → Result ℕ} {roots : List (ℕ × ℕ)} {edges : List (EdgeKey × EdgeAgg)}
  {bytes : List UInt8}

private theorem length_writeVarint_pos (v : ℕ) : 1 ≤ (writeVarint v).length := by
  rw [writeVarint, writeUleb128_eq]
  exact Leb128.length_encode_pos v

theorem length_writeNodes
    (hwrite : writeNodes rules encodeF64 frequencyOf roots edges = .ok bytes) :
    roots.length * minimumNodeSize ≤ bytes.length := by
  induction roots generalizing edges bytes with
  | nil => simp
  | cons root roots ih =>
    rw [writeNodes] at hwrite
    obtain ⟨recordBytes, -, hwrite⟩ := bind_eq_ok.mp hwrite
    obtain ⟨nodeBytes, hnodeBytes, hwrite⟩ := bind_eq_ok.mp hwrite
    obtain rfl := Except.ok.inj hwrite
    have hrest := ih hnodeBytes
    have hgames := length_writeVarint_pos root.2
    have hcount := length_writeVarint_pos (edges.takeWhile fun e => e.1.rootHash = root.1).length
    have hcomplete := length_writeVarint_pos (if root.1 = fullCoverageRootHash rules then 1 else 0)
    simp only [List.length_append, length_leBytes, List.length_cons, Nat.succ_mul, minimumNodeSize] at *
    omega

theorem readHeader_headerBytes {maxRootPly : UInt16} {sourceGameCount rootCount : ℕ}
    (hgames : sourceGameCount < 2 ^ 64) (hroots : rootCount < 2 ^ 64)
    (hlength : rootCount * minimumNodeSize ≤ bytes.length) :
    readHeader (headerBytes maxRootPly sourceGameCount rootCount ++ bytes) =
      some (⟨maxRootPly.toNat, sourceGameCount, rootCount⟩, bytes) := by
  have hply : maxRootPly.toNat < 256 ^ 2 := maxRootPly.toNat_lt
  have hgames' : sourceGameCount < 256 ^ 8 := hgames
  have hroots' : rootCount < 256 ^ 8 := hroots
  have hheader : (headerBytes maxRootPly sourceGameCount rootCount ++ bytes).length =
      fixedHeaderSize + bytes.length := by
    simp [headerBytes, magic, fixedHeaderSize]
    omega
  have hmagic : (headerBytes maxRootPly sourceGameCount rootCount ++ bytes).take 8 = magic := by
    simp [headerBytes, magic]
  have hdrop : (headerBytes maxRootPly sourceGameCount rootCount ++ bytes).drop 8 =
      leBytes 4 formatVersion ++ (leBytes 2 maxRootPly.toNat ++ (leBytes 8 sourceGameCount ++
        (leBytes 8 rootCount ++ bytes))) := by
    simp [headerBytes, magic]
  have hroom : rootCount ≤ (fixedHeaderSize + bytes.length - fixedHeaderSize) / minimumNodeSize := by
    rw [Nat.add_sub_cancel_left, Nat.le_div_iff_mul_le (by decide)]
    exact hlength
  unfold readHeader
  rw [hheader, hmagic, hdrop]
  refine Option.bind_eq_some_iff.mpr
    ⟨(), (Option.guard_eq_some' _).mpr ⟨Nat.le_add_right _ _, rfl⟩, ?_⟩
  refine Option.bind_eq_some_iff.mpr ⟨_, readLe_leBytes (by decide) _, ?_⟩
  refine Option.bind_eq_some_iff.mpr ⟨(), (Option.guard_eq_some' _).mpr rfl, ?_⟩
  refine Option.bind_eq_some_iff.mpr ⟨_, readLe_leBytes hply _, ?_⟩
  refine Option.bind_eq_some_iff.mpr ⟨_, readLe_leBytes hgames' _, ?_⟩
  refine Option.bind_eq_some_iff.mpr ⟨_, readLe_leBytes hroots' _, ?_⟩
  exact Option.bind_eq_some_iff.mpr ⟨(), (Option.guard_eq_some' _).mpr hroom, rfl⟩

theorem openIndex_written (hfits : TreeFits childCount roots edges)
    (hcount : ∀ hash n, frequencyOf hash = .ok n → n = childCount hash)
    {records : ℕ → List Continuation} (hrecords : ∀ root ∈ roots, records root.1 =
      (edges.filter fun e => e.1.rootHash = root.1).map (edgeContinuation encodeF64 childCount))
    (hwrite : writeNodes rules encodeF64 frequencyOf roots edges = .ok bytes)
    (maxRootPly : UInt16) {sourceGameCount : ℕ} (hgames : sourceGameCount < 2 ^ 64)
    (hroots : roots.length < 2 ^ 64) {file : List UInt8}
    (hfile : file = headerBytes maxRootPly sourceGameCount roots.length ++ bytes) :
    (∃ nodes, openIndex rules file = .ok ⟨nodes, sourceGameCount, maxRootPly.toNat⟩ ∧
        List.Forall₂ (NodeStands rules file maxRootPly.toNat records) roots nodes ∧
        ∀ root ∈ roots, RootAccepted rules ⟨maxRootPly.toNat, sourceGameCount, roots.length⟩
          records root) ∨
      (openIndex rules file = .error .ioFailure ∧
        ∃ root ∈ roots, ¬RootAccepted rules ⟨maxRootPly.toNat, sourceGameCount, roots.length⟩
          records root) := by
  have hheader : readHeader (headerBytes maxRootPly sourceGameCount roots.length ++ bytes) =
      some (⟨maxRootPly.toNat, sourceGameCount, roots.length⟩, bytes) :=
    readHeader_headerBytes hgames hroots (length_writeNodes hwrite)
  have hfollows : Follows 0 file (bytes ++ []) := ⟨_, by rw [hfile, List.append_nil], Nat.zero_le _⟩
  have hread := readNodes_writeNodes ⟨maxRootPly.toNat, sourceGameCount, roots.length⟩ hfits hcount
    hrecords hwrite hfollows none (by simp) 0 (by simp)
  rw [List.append_nil] at hread
  rw [openIndex, hfile, hheader]
  dsimp only
  rw [← hfile]
  rcases hread with ⟨nodes, hnodes, hstand, hall⟩ | ⟨hnodes, hnot⟩
  · rw [hnodes, ok_bind]
    exact Or.inl ⟨nodes, rfl, hstand, hall⟩
  · rw [hnodes]
    exact Or.inr ⟨rfl, hnot⟩

end File

section Queries

variable {rules : Chess.Rules} {file : List UInt8} {records : ℕ → List Continuation}
  {roots : List (ℕ × ℕ)} {index : Index}

private theorem map_hash_of_stands {maxRootPly : ℕ} {nodes : List Node}
    (h : List.Forall₂ (NodeStands rules file maxRootPly records) roots nodes) :
    nodes.map Node.hash = roots.map Prod.fst := by
  induction h with
  | nil => rfl
  | cons hhead _ ih => rw [List.map_cons, List.map_cons, hhead.hash, ih]

/-- The records of the continuations of a position, before they become rows. -/
def Index.queryRecords (index : Index) (file : List UInt8) (hash : ℕ) : Result (List Continuation) :=
  match index.findNode hash with
  | none => .ok []
  | some node => do
    let (cs, _) ← readContinuations (maxPlyForValidation index.maxRootPly node.complete)
      node.gameCount node.continuationCount (file.drop node.dataOffset)
    return cs

theorem Index.queryOpeningStats_eq (index : Index) (file : List UInt8) (hash : ℕ) :
    index.queryOpeningStats file hash =
      (index.queryRecords file hash).map (List.map Continuation.row) := by
  rw [Index.queryOpeningStats, Index.queryRecords]
  cases index.findNode hash with
  | none => rfl
  | some node =>
    dsimp only
    cases readContinuations (maxPlyForValidation index.maxRootPly node.complete) node.gameCount
      node.continuationCount (file.drop node.dataOffset) <;> rfl

theorem query_of_mem (h : List.Forall₂ (NodeStands rules file index.maxRootPly records) roots
      index.nodes) (hroots : (roots.map Prod.fst).Pairwise (· < ·)) {root : ℕ × ℕ}
    (hroot : root ∈ roots) :
    index.gameCount root.1 = root.2 ∧
      index.isComplete root.1 = decide (root.1 = fullCoverageRootHash rules) ∧
      index.queryRecords file root.1 = .ok (records root.1) := by
  have hascending : (index.nodes.map Node.hash).Pairwise (· < ·) := by
    rwa [map_hash_of_stands h]
  obtain ⟨node, hnode, hstands⟩ : ∃ node ∈ index.nodes,
      NodeStands rules file index.maxRootPly records root node := by
    obtain ⟨i, hi, rfl⟩ := List.getElem_of_mem hroot
    have hi' : i < index.nodes.length := h.length_eq ▸ hi
    exact ⟨index.nodes[i], List.getElem_mem hi', h.get hi hi'⟩
  obtain ⟨hhash, hgames, hcomplete, next, hstored⟩ := hstands
  have hfind := Index.findNode_of_mem hascending hnode
  rw [hhash] at hfind
  refine ⟨?_, ?_, ?_⟩
  · rw [Index.gameCount, hfind]
    exact hgames
  · rw [Index.isComplete, hfind]
    exact hcomplete
  · rw [Index.queryRecords, hfind]
    dsimp only
    rw [hstored]
    rfl

theorem query_of_not_mem (h : List.Forall₂ (NodeStands rules file index.maxRootPly records) roots
      index.nodes) (hroots : (roots.map Prod.fst).Pairwise (· < ·)) {hash : ℕ}
    (hhash : hash ∉ roots.map Prod.fst) :
    index.gameCount hash = 0 ∧ index.isComplete hash = false ∧
      index.queryRecords file hash = .ok [] := by
  have hascending : (index.nodes.map Node.hash).Pairwise (· < ·) := by
    rwa [map_hash_of_stands h]
  have hfind : index.findNode hash = none := by
    apply Index.findNode_of_absent hascending
    rintro node hnode rfl
    rw [← map_hash_of_stands h] at hhash
    exact hhash (List.mem_map_of_mem hnode)
  refine ⟨?_, ?_, ?_⟩
  · rw [Index.gameCount, hfind]
    rfl
  · rw [Index.isComplete, hfind]
    rfl
  · rw [Index.queryRecords, hfind]

end Queries

end MotifChess.Db.OpeningTreeIndex
