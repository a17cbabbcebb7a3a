/- GID: MotifChess/Db/OpeningTreeIndex/Validation
   generality: implementation
   digest: What a successful open guarantees of an arbitrary opening tree file. -/

import MotifChess.Db.OpeningTreeIndex.Reader

set_option autoImplicit false
set_option relaxedAutoImplicit false

namespace MotifChess.Db.OpeningTreeIndex

open Codec LittleEndian

/-- Two bytes of move, eight of hash, sixteen of sums and twelve integers of at least one byte. -/
def minimumContinuationSize : ℕ := 38

/-- What holds of every record that a query reads. -/
structure Continuation.Sound (maxRootPly gameCount : ℕ) (c : Continuation) : Prop where
  results : c.whiteWins + c.draws + c.blackWins = c.frequency
  frequency_pos : 1 ≤ c.frequency
  frequency_le : c.frequency ≤ gameCount
  transposition : c.frequency ≤ c.transpositionFrequency
  elo_counts : c.whiteEloCount ≤ c.frequency ∧ c.blackEloCount ≤ c.frequency
  elo_sums : c.whiteEloSum < 2 ^ 63 ∧ c.blackEloSum < 2 ^ 63
  rootPly_le : c.rootPly ≤ maxRootPly

/-- The row of a record carries its integers unchanged. -/
structure Continuation.Narrows (c : Continuation) : Prop where
  contEncodedMove : c.row.contEncodedMove.toNat = c.encodedMove
  contHash : c.row.contHash.toNat = c.childHash
  rootPly : c.row.rootPly.toNat = c.rootPly
  frequency : c.row.frequency.toNat = c.frequency
  transpositionFrequency : c.row.transpositionFrequency.toNat = c.transpositionFrequency
  whiteWins : c.row.whiteWins.toNat = c.whiteWins
  draws : c.row.draws.toNat = c.draws
  blackWins : c.row.blackWins.toNat = c.blackWins
  ecoSampleMin : c.row.ecoSampleMin.toNat = c.ecoSampleMin
  ecoSampleMax : c.row.ecoSampleMax.toNat = c.ecoSampleMax

/-- What an index promises about the file that it was opened from. -/
structure Index.Verified (rules : Chess.Rules) (file : List UInt8) (index : Index) : Prop where
  hashes_ascending : (index.nodes.map Node.hash).Pairwise (· < ·)
  complete_unique : (index.nodes.filter Node.complete).length ≤ 1
  complete_start : ∀ node ∈ index.nodes, node.complete = true →
    node.hash = (rules.hash rules.start).toNat ∧ node.gameCount = index.sourceGameCount
  sizes : fixedHeaderSize + (index.nodes.map fun node =>
    minimumNodeSize + minimumContinuationSize * node.continuationCount).sum ≤ file.length
  offsets : ∀ node ∈ index.nodes, node.dataOffset ≤ file.length
  stored : ∀ node ∈ index.nodes, index.gameCount node.hash = node.gameCount ∧
    index.isComplete node.hash = node.complete ∧ ∃ cs : List Continuation,
      index.queryOpeningStats file node.hash = .ok (cs.map Continuation.row) ∧
      cs.length = node.continuationCount ∧ ∀ c ∈ cs, c.Narrows ∧
        c.Sound (maxPlyForValidation index.maxRootPly node.complete) node.gameCount
  absent : ∀ hash, (∀ node ∈ index.nodes, node.hash ≠ hash) →
    index.gameCount hash = 0 ∧ index.isComplete hash = false ∧
      index.queryOpeningStats file hash = .ok []

section Consumption

/-- At least `size` bytes of the input stand before the rest. -/
def Follows (size : ℕ) (input rest : List UInt8) : Prop :=
  ∃ bytes, input = bytes ++ rest ∧ size ≤ bytes.length

variable {size size' : ℕ} {input middle rest : List UInt8}

theorem Follows.trans (h : Follows size input middle) (h' : Follows size' middle rest) :
    Follows (size + size') input rest := by
  obtain ⟨front, rfl, hfront⟩ := h
  obtain ⟨back, rfl, hback⟩ := h'
  refine ⟨front ++ back, (List.append_assoc _ _ _).symm, ?_⟩
  rw [List.length_append]
  omega

theorem Follows.refl : Follows 0 input input := ⟨[], rfl, Nat.le_refl 0⟩

theorem Follows.mono (h : Follows size input rest) (hle : size' ≤ size) :
    Follows size' input rest := by
  obtain ⟨bytes, rfl, hbytes⟩ := h
  exact ⟨bytes, rfl, Nat.le_trans hle hbytes⟩

theorem Follows.length_le (h : Follows size input rest) : size + rest.length ≤ input.length := by
  obtain ⟨bytes, rfl, hbytes⟩ := h
  rw [List.length_append]
  omega

theorem Follows.drop_eq (h : Follows size input rest) :
    input.drop (input.length - rest.length) = rest := by
  obtain ⟨bytes, rfl, -⟩ := h
  rw [List.length_append, Nat.add_sub_cancel]
  exact List.drop_left

private theorem follows_readLe {width v : ℕ} (h : readLe width input = some (v, rest)) :
    Follows width input rest ∧ v < 256 ^ width := by
  obtain ⟨rfl, hv⟩ := readLe_eq_some.mp h
  exact ⟨⟨_, rfl, (length_leBytes width v).ge⟩, hv⟩

end Consumption

section Varint

/-- The number that the low seven bits of each byte spell, lowest first. -/
def varintValue : List UInt8 → ℕ
  | [] => 0
  | byte :: bytes => byte.toNat % 128 + 128 * varintValue bytes

private theorem readVarintLoop_exact {k value v : ℕ} {input rest : List UInt8}
    (hvalue : value < 128 ^ k) (h : readVarintLoop (7 * k) value input = some (v, rest)) :
    ∃ bytes, input = bytes ++ rest ∧ 1 ≤ bytes.length ∧
      v = value + 128 ^ k * varintValue bytes ∧ v < 2 ^ 64 := by
  induction input generalizing k value with
  | nil => cases h
  | cons byte tail ih =>
    rw [readVarintLoop, and_payload_mask] at h
    split at h
    · cases h
    · next hguard =>
      have hpayload : byte.toNat % 128 < 128 := Nat.mod_lt _ (by omega)
      have hfit := lt_of_guard hvalue hpayload hguard
      rw [or_shifted hvalue hfit] at h
      split at h
      · obtain ⟨rfl, rfl⟩ := Prod.mk.inj (Option.some.inj h)
        exact ⟨[byte], rfl, Nat.le_refl 1, by simp [varintValue], hfit⟩
      · have hnext : value + 128 ^ k * (byte.toNat % 128) < 128 ^ (k + 1) := by
          have hmul : 128 ^ k * (byte.toNat % 128) ≤ 128 ^ k * 127 :=
            Nat.mul_le_mul_left _ (by omega)
          rw [pow_succ]
          omega
        obtain ⟨bytes, rfl, hlen, hv, hlt⟩ := ih hnext h
        refine ⟨byte :: bytes, rfl, by simp, ?_, hlt⟩
        rw [hv, varintValue]
        ring

private theorem readVarint_exact {v : ℕ} {input rest : List UInt8}
    (h : readVarint input = some (v, rest)) :
    ∃ bytes, input = bytes ++ rest ∧ 1 ≤ bytes.length ∧ v = varintValue bytes ∧ v < 2 ^ 64 := by
  have hloop : readVarintLoop (7 * 0) 0 input = some (v, rest) := h
  obtain ⟨bytes, rfl, hlen, hv, hlt⟩ := readVarintLoop_exact (by simp) hloop
  exact ⟨bytes, rfl, hlen, by simpa using hv, hlt⟩

private theorem follows_readVarint {v : ℕ} {input rest : List UInt8}
    (h : readVarint input = some (v, rest)) : Follows 1 input rest := by
  obtain ⟨bytes, rfl, hlen, -, -⟩ := readVarint_exact h
  exact ⟨bytes, rfl, hlen⟩

end Varint

section Continuations

variable {maxRootPly gameCount : ℕ} {input rest : List UInt8} {c : Continuation}

private theorem readFields_sound (h : readFields input = some (c, rest)) :
    Follows minimumContinuationSize input rest ∧ c.encodedMove < 2 ^ 16 ∧ c.childHash < 2 ^ 64 := by
  obtain ⟨_, hmove, h⟩ := Option.bind_eq_some_iff.mp h
  obtain ⟨_, hhash, h⟩ := Option.bind_eq_some_iff.mp h
  obtain ⟨_, h₁, h⟩ := Option.bind_eq_some_iff.mp h
  obtain ⟨_, h₂, h⟩ := Option.bind_eq_some_iff.mp h
  obtain ⟨_, h₃, h⟩ := Option.bind_eq_some_iff.mp h
  obtain ⟨_, h₄, h⟩ := Option.bind_eq_some_iff.mp h
  obtain ⟨_, h₅, h⟩ := Option.bind_eq_some_iff.mp h
  obtain ⟨_, h₆, h⟩ := Option.bind_eq_some_iff.mp h
  obtain ⟨_, h₇, h⟩ := Option.bind_eq_some_iff.mp h
  obtain ⟨_, h₈, h⟩ := Option.bind_eq_some_iff.mp h
  obtain ⟨_, h₉, h⟩ := Option.bind_eq_some_iff.mp h
  obtain ⟨_, hcontrib, h⟩ := Option.bind_eq_some_iff.mp h
  obtain ⟨_, hweight, h⟩ := Option.bind_eq_some_iff.mp h
  obtain ⟨_, h₁₀, h⟩ := Option.bind_eq_some_iff.mp h
  obtain ⟨_, h₁₁, h⟩ := Option.bind_eq_some_iff.mp h
  obtain ⟨_, h₁₂, h⟩ := Option.bind_eq_some_iff.mp h
  obtain ⟨rfl, rfl⟩ := Prod.mk.inj (Option.some.inj h)
  obtain ⟨fmove, hmove⟩ := follows_readLe hmove
  obtain ⟨fhash, hhash⟩ := follows_readLe hhash
  have counts : Follows 9 _ _ := (follows_readVarint h₁).trans <| (follows_readVarint h₂).trans <|
    (follows_readVarint h₃).trans <| (follows_readVarint h₄).trans <|
    (follows_readVarint h₅).trans <| (follows_readVarint h₆).trans <|
    (follows_readVarint h₇).trans <| (follows_readVarint h₈).trans (follows_readVarint h₉)
  have sums : Follows 16 _ _ := (follows_readLe hcontrib).1.trans (follows_readLe hweight).1
  have samples : Follows 3 _ _ := (follows_readVarint h₁₀).trans <|
    (follows_readVarint h₁₁).trans (follows_readVarint h₁₂)
  refine ⟨?_, hmove, hhash⟩
  exact ((fmove.trans fhash).trans (counts.trans (sums.trans samples))).mono (by decide)

private theorem sound_of_accepted (h : ¬c.Rejected maxRootPly gameCount) :
    c.Sound maxRootPly gameCount := by
  simp only [Continuation.Rejected, not_or, uint32Max, int64Max] at h
  obtain ⟨hply, hpos, hcount, hmax, hwhite, hdraws, hblack, hsum, hwhiteSum, hblackSum, hwhiteElo,
    hblackElo, -, -, -, htransposition, -⟩ := h
  have hfit : c.whiteWins + c.draws + c.blackWins < 2 ^ 64 := by omega
  rw [Nat.mod_eq_of_lt hfit] at hsum
  constructor <;> omega

private theorem narrows_of_accepted (hcap : maxRootPly ≤ uint16Max)
    (hmove : c.encodedMove < 2 ^ 16) (hhash : c.childHash < 2 ^ 64)
    (h : ¬c.Rejected maxRootPly gameCount) : c.Narrows := by
  simp only [Continuation.Rejected, not_or, uint32Max] at h
  obtain ⟨hply, -, -, hmax, hwhite, hdraws, hblack, -, -, -, -, -, -, hmin, heco, -, htrans⟩ := h
  rw [uint16Max] at hcap
  constructor
  · exact UInt16.toNat_ofNat_of_lt' hmove
  · exact UInt64.toNat_ofNat_of_lt' hhash
  · exact UInt16.toNat_ofNat_of_lt' (by simp only [UInt16.size]; omega)
  all_goals exact UInt32.toNat_ofNat_of_lt' (by simp only [UInt32.size]; omega)

private theorem readContinuation_sound (hcap : maxRootPly ≤ uint16Max)
    (h : readContinuation maxRootPly gameCount input = .ok (c, rest)) :
    Follows minimumContinuationSize input rest ∧ c.Narrows ∧ c.Sound maxRootPly gameCount := by
  unfold readContinuation at h
  split at h
  · cases h
  · next c' rest' hfields =>
    split at h
    · cases h
    · next haccepted =>
      obtain ⟨rfl, rfl⟩ := Prod.mk.inj (Except.ok.inj h)
      obtain ⟨hfollows, hmove, hhash⟩ := readFields_sound hfields
      exact ⟨hfollows, narrows_of_accepted hcap hmove hhash haccepted, sound_of_accepted haccepted⟩

private theorem readContinuations_sound (hcap : maxRootPly ≤ uint16Max) {count : ℕ}
    {cs : List Continuation}
    (h : readContinuations maxRootPly gameCount count input = .ok (cs, rest)) :
    Follows (minimumContinuationSize * count) input rest ∧ cs.length = count ∧
      ∀ c ∈ cs, c.Narrows ∧ c.Sound maxRootPly gameCount := by
  induction count generalizing input cs with
  | zero =>
    obtain ⟨rfl, rfl⟩ := Prod.mk.inj (Except.ok.inj h)
    exact ⟨Follows.refl, rfl, by simp⟩
  | succ count ih =>
    obtain ⟨⟨c, middle⟩, hfirst, h⟩ := bind_eq_ok.mp h
    obtain ⟨⟨tail, rest'⟩, hrest, h⟩ := bind_eq_ok.mp h
    obtain ⟨rfl, rfl⟩ := Prod.mk.inj (Except.ok.inj h)
    obtain ⟨ffirst, hc⟩ := readContinuation_sound hcap hfirst
    obtain ⟨frest, hlen, htail⟩ := ih hrest
    refine ⟨?_, by rw [List.length_cons, hlen], ?_⟩
    · rw [Nat.mul_succ, Nat.add_comm]
      exact ffirst.trans frest
    · intro c' hmem
      rcases List.mem_cons.mp hmem with rfl | hmem
      · exact hc
      · exact htail c' hmem

end Continuations

section Nodes

/-- The records of a node stand at its offset. -/
def Node.StoredAt (file : List UInt8) (maxRootPly : ℕ) (node : Node) : Prop :=
  ∃ cs rest, readContinuations (maxPlyForValidation maxRootPly node.complete) node.gameCount
    node.continuationCount (file.drop node.dataOffset) = .ok (cs, rest)

/-- The bytes that a node takes at least. -/
def Node.minimumSize (node : Node) : ℕ :=
  minimumNodeSize + minimumContinuationSize * node.continuationCount

variable {rules : Chess.Rules} {file input rest : List UInt8} {header : Header} {nodes : List Node}

private theorem maxPlyForValidation_le {maxRootPly : ℕ} (h : maxRootPly ≤ uint16Max)
    {complete : Bool} : maxPlyForValidation maxRootPly complete ≤ uint16Max := by
  unfold maxPlyForValidation
  split
  · exact Nat.le_refl _
  · exact h

/-- What reading the remaining nodes of a file establishes. -/
structure NodesRead (rules : Chess.Rules) (file : List UInt8) (header : Header)
    (previousHash : Option ℕ) (completeCount : ℕ) (input rest : List UInt8) (nodes : List Node) :
    Prop where
  hashes : (previousHash.toList ++ nodes.map Node.hash).IsChain (· < ·)
  complete_unique : completeCount ≤ 1 →
    completeCount + (nodes.filter Node.complete).length ≤ 1
  complete_start : ∀ node ∈ nodes, node.complete = true →
    node.hash = (rules.hash rules.start).toNat ∧ node.gameCount = header.sourceGameCount
  consumed : Follows (nodes.map Node.minimumSize).sum input rest
  stored : ∀ node ∈ nodes, node.dataOffset ≤ file.length ∧ node.StoredAt file header.maxRootPly

private theorem readNodeHeader_sound {previousHash : Option ℕ} {node : ℕ × ℕ × ℕ × Bool}
    (h : readNodeHeader previousHash input = some (node, rest)) :
    Follows minimumNodeSize input rest ∧ ∀ previous ∈ previousHash, previous < node.1 := by
  simp only [readNodeHeader, Option.bind_eq_bind, Option.bind_eq_some_iff, Prod.exists,
    Option.guard_eq_some', Option.pure_def, Option.some.injEq, Prod.mk.injEq, exists_const] at h
  obtain ⟨hash, _, hhash, _, _, h₁, _, _, h₂, _, _, h₃, ⟨-, -, -, -, hprevious⟩, rfl, rfl⟩ := h
  refine ⟨?_, hprevious⟩
  exact (follows_readLe hhash).1.trans <| (follows_readVarint h₁).trans <|
    (follows_readVarint h₂).trans (follows_readVarint h₃)

private theorem NodesRead.cons {previousHash : Option ℕ} {completeCount : ℕ} {node : Node}
    {data next : List UInt8} (hdata : Follows 0 file data) (hheader : Follows minimumNodeSize input data)
    (hprevious : ∀ previous ∈ previousHash, previous < node.hash)
    (hcomplete : node.complete = true → node.hash = (rules.hash rules.start).toNat ∧
      node.gameCount = header.sourceGameCount ∧ completeCount = 0)
    (hoffset : node.dataOffset = file.length - data.length) {cs : List Continuation}
    (hcap : header.maxRootPly ≤ uint16Max)
    (hcs : readContinuations (maxPlyForValidation header.maxRootPly node.complete) node.gameCount
      node.continuationCount data = .ok (cs, next))
    (h : NodesRead rules file header (some node.hash) (completeCount + node.complete.toNat) next rest
      nodes) :
    NodesRead rules file header previousHash completeCount input rest (node :: nodes) where
  hashes := by
    cases previousHash with
    | none => exact h.hashes
    | some previous => exact List.IsChain.cons_cons (hprevious previous rfl) h.hashes
  complete_unique := by
    intro hle
    have hrest := h.complete_unique
    cases hnode : node.complete with
    | false =>
      rw [hnode] at hrest
      simpa [hnode] using hrest hle
    | true =>
      obtain ⟨-, -, rfl⟩ := hcomplete hnode
      rw [hnode] at hrest
      have hrest := hrest (Nat.le_refl 1)
      simp only [List.filter_cons, hnode, if_true, List.length_cons]
      simp only [Bool.toNat_true] at hrest
      omega
  complete_start := by
    intro other hother hdone
    rcases List.mem_cons.mp hother with rfl | hother
    · obtain ⟨hhash, hcount, -⟩ := hcomplete hdone
      exact ⟨hhash, hcount⟩
    · exact h.complete_start other hother hdone
  consumed := by
    have hfollows := (readContinuations_sound (maxPlyForValidation_le hcap) hcs).1
    have htotal := (hheader.trans hfollows).trans h.consumed
    rwa [List.map_cons, List.sum_cons]
  stored := by
    intro other hother
    rcases List.mem_cons.mp hother with rfl | hother
    · refine ⟨by rw [hoffset]; exact Nat.sub_le _ _, cs, next, ?_⟩
      rw [hoffset, hdata.drop_eq]
      exact hcs
    · exact h.stored other hother

private theorem readNodes_sound {count : ℕ} {previousHash : Option ℕ} {completeCount : ℕ}
    (hcap : header.maxRootPly ≤ uint16Max) (hinput : Follows 0 file input)
    (h : readNodes rules file.length header count previousHash completeCount input =
      .ok (nodes, rest)) :
    NodesRead rules file header previousHash completeCount input rest nodes := by
  induction count generalizing previousHash completeCount input nodes with
  | zero =>
    obtain ⟨rfl, rfl⟩ := Prod.mk.inj (Except.ok.inj h)
    refine ⟨?_, by simp, by simp, Follows.refl, by simp⟩
    cases previousHash <;> simp
  | succ count ih =>
    rw [readNodes] at h
    split at h
    · cases h
    · next hash gameCount continuationCount complete data hheader =>
      split at h
      · cases h
      · next hstart =>
        obtain ⟨⟨cs, next⟩, hcs, h⟩ := bind_eq_ok.mp h
        obtain ⟨⟨tail, rest'⟩, hrest, h⟩ := bind_eq_ok.mp h
        obtain ⟨rfl, rfl⟩ := Prod.mk.inj (Except.ok.inj h)
        obtain ⟨hfollows, hprevious⟩ := readNodeHeader_sound hheader
        have hdata := (hinput.trans hfollows).mono (Nat.zero_le _)
        have hnext := (hdata.trans (readContinuations_sound (maxPlyForValidation_le hcap) hcs).1).mono
          (Nat.zero_le _)
        refine NodesRead.cons hdata hfollows hprevious ?_ rfl hcap hcs (ih hnext hrest)
        intro hcomplete
        by_contra hne
        exact hstart ⟨hcomplete, by tauto⟩

end Nodes

section Open

variable {rules : Chess.Rules} {file : List UInt8} {index : Index}

private theorem readHeader_sound {header : Header} {input : List UInt8}
    (h : readHeader file = some (header, input)) :
    Follows fixedHeaderSize file input ∧ header.maxRootPly ≤ uint16Max := by
  obtain ⟨_, hguard, h⟩ := Option.bind_eq_some_iff.mp h
  obtain ⟨-, hmagic⟩ := (Option.guard_eq_some' _).mp hguard
  obtain ⟨_, hversion, h⟩ := Option.bind_eq_some_iff.mp h
  obtain ⟨-, -, h⟩ := Option.bind_eq_some_iff.mp h
  obtain ⟨_, hply, h⟩ := Option.bind_eq_some_iff.mp h
  obtain ⟨_, hgames, h⟩ := Option.bind_eq_some_iff.mp h
  obtain ⟨_, hnodes, h⟩ := Option.bind_eq_some_iff.mp h
  obtain ⟨-, -, h⟩ := Option.bind_eq_some_iff.mp h
  obtain ⟨rfl, rfl⟩ := Prod.mk.inj (Option.some.inj h)
  have hstart : Follows 8 file (file.drop 8) := by
    refine ⟨file.take 8, (List.take_append_drop 8 file).symm, ?_⟩
    rw [hmagic]
    decide
  obtain ⟨fply, hcap⟩ := follows_readLe hply
  refine ⟨?_, Nat.le_sub_one_of_lt hcap⟩
  exact hstart.trans <| (follows_readLe hversion).1.trans <| fply.trans <|
    (follows_readLe hgames).1.trans (follows_readLe hnodes).1

private theorem exists_nodesRead (h : openIndex rules file = .ok index) :
    ∃ header input, index = ⟨index.nodes, header.sourceGameCount, header.maxRootPly⟩ ∧
      header.maxRootPly ≤ uint16Max ∧ Follows fixedHeaderSize file input ∧
      NodesRead rules file header none 0 input [] index.nodes := by
  unfold openIndex at h
  split at h
  · cases h
  · next header input hheader =>
    obtain ⟨⟨nodes, rest⟩, hnodes, h⟩ := bind_eq_ok.mp h
    obtain ⟨hstart, hcap⟩ := readHeader_sound hheader
    by_cases hrest : rest = []
    · simp only [hrest, ne_eq, not_true_eq_false, if_false] at h
      obtain rfl := Except.ok.inj h
      rw [hrest] at hnodes
      exact ⟨header, input, rfl, hcap, hstart,
        readNodes_sound hcap (hstart.mono (Nat.zero_le _)) hnodes⟩
    · simp only [ne_eq, hrest, not_false_eq_true, if_true] at h
      cases h

theorem Index.findNode_of_mem (h : (index.nodes.map Node.hash).Pairwise (· < ·)) {node : Node}
    (hnode : node ∈ index.nodes) : index.findNode node.hash = some node :=
  (Order.Bisection.findKey_eq_some h.sortedLT).mpr ⟨hnode, rfl⟩

theorem Index.findNode_of_absent (h : (index.nodes.map Node.hash).Pairwise (· < ·)) {hash : ℕ}
    (hhash : ∀ node ∈ index.nodes, node.hash ≠ hash) : index.findNode hash = none :=
  (Order.Bisection.findKey_eq_none h.sortedLT).mpr hhash

/-- A file that can be opened is well formed, and every query on it is answered. -/
theorem verified_of_openIndex (rules : Chess.Rules) (file : List UInt8) (index : Index)
    (h : openIndex rules file = .ok index) : index.Verified rules file := by
  obtain ⟨header, input, hindex, hcap, hstart, hread⟩ := exists_nodesRead h
  have hply : index.maxRootPly = header.maxRootPly := by rw [hindex]
  have hgames : index.sourceGameCount = header.sourceGameCount := by rw [hindex]
  have hascending : (index.nodes.map Node.hash).Pairwise (· < ·) := by
    have hchain := hread.hashes
    rw [Option.toList_none, List.nil_append] at hchain
    exact hchain.pairwise
  constructor
  · exact hascending
  · have hunique := hread.complete_unique (Nat.zero_le 1)
    omega
  · intro node hnode hcomplete
    rw [hgames]
    exact hread.complete_start node hnode hcomplete
  · have htotal := (hstart.trans hread.consumed).length_le
    exact htotal
  · intro node hnode
    exact (hread.stored node hnode).1
  · intro node hnode
    obtain ⟨-, cs, rest, hcs⟩ := hread.stored node hnode
    obtain ⟨-, hlen, hsound⟩ := readContinuations_sound (maxPlyForValidation_le hcap) hcs
    have hfind := Index.findNode_of_mem hascending hnode
    refine ⟨by rw [Index.gameCount, hfind]; rfl, by rw [Index.isComplete, hfind]; rfl, cs, ?_,
      hlen, ?_⟩
    · rw [Index.queryOpeningStats, hfind, hply]
      dsimp only
      rw [hcs]
      rfl
    · rw [hply]
      exact hsound
  · intro hash hhash
    have hfind := Index.findNode_of_absent hascending hhash
    refine ⟨by rw [Index.gameCount, hfind]; rfl, by rw [Index.isComplete, hfind]; rfl, ?_⟩
    rw [Index.queryOpeningStats, hfind]

end Open

section Samples

/-- A record of a move that one game, won by White, has played. -/
def sampleContinuation (move hash : ℕ) (rootPly : UInt8) : List UInt8 :=
  leBytes 2 move ++ leBytes 8 hash ++ [rootPly, 1, 1, 0, 0, 0, 0, 0, 0] ++ leBytes 16 0 ++ [1, 1, 1]

/-- The index of a game of two moves whose positions hash to 0, 5 and 12. -/
def sampleFile : List UInt8 :=
  magic ++ leBytes 4 formatVersion ++ leBytes 2 20 ++ leBytes 8 1 ++ leBytes 8 3 ++
    (leBytes 8 0 ++ [1, 1, 1] ++ sampleContinuation 5 5 0) ++
    (leBytes 8 5 ++ [1, 1, 0] ++ sampleContinuation 7 12 1) ++ (leBytes 8 12 ++ [1, 0, 0])

def sampleIndex : Index :=
  ⟨[⟨0, 1, 41, 1, true⟩, ⟨5, 1, 90, 1, false⟩, ⟨12, 1, 139, 0, false⟩], 1, 20⟩

theorem verified_of_openIndex_sample :
    openIndex Chess.Rules.ofSums sampleFile = .ok sampleIndex ∧
      sampleIndex.Verified Chess.Rules.ofSums sampleFile :=
  ⟨by decide +kernel, verified_of_openIndex _ _ _ (by decide +kernel)⟩

end Samples

end MotifChess.Db.OpeningTreeIndex
