/- GID: MotifChess/Db/PositionPostings/PostingBlock
   generality: implementation
   digest: Posting blocks of delta-coded game groups, and the three decoders that scan them. -/

import MotifChess.Db.PositionPostings.Directory
import MotifChess.Order.Bisection
import MotifChess.Order.SortBy
import Mathlib.Data.List.Induction
import Mathlib.Data.List.Range

set_option autoImplicit false
set_option relaxedAutoImplicit false

namespace MotifChess.Db.PositionPostings

open Codec

/-- The games of one position in ascending order, each with its plies in ascending order. -/
abbrev GameGroups := List (ℕ × List ℕ)

section Writer

def plyDeltas : List ℕ → List ℕ
  | previous :: ply :: rest => wrappingSub 64 ply previous :: plyDeltas (ply :: rest)
  | _ => []

def plyDeltaBytes (plies : List ℕ) : List UInt8 := (plyDeltas plies).flatMap writeUleb128

@[simp] theorem plyDeltaBytes_singleton (ply : ℕ) : plyDeltaBytes [ply] = [] := rfl

theorem plyDeltaBytes_cons (previous ply : ℕ) (rest : List ℕ) :
    plyDeltaBytes (previous :: ply :: rest) =
      writeUleb128 (wrappingSub 64 ply previous) ++ plyDeltaBytes (ply :: rest) := rfl

/-- The bytes that `flush_game_group` emits after the group of `previous`, if there was one. -/
def gameGroupBytes (previous : Option ℕ) (group : ℕ × List ℕ) : List UInt8 :=
  writeUleb128 (previous.elim group.1 (wrappingSub 32 group.1)) ++
    writeUleb128 group.2.length ++ writeUleb128 (group.2.headD 0) ++ plyDeltaBytes group.2

def postingBytes : Option ℕ → GameGroups → List UInt8
  | _, [] => []
  | previous, group :: groups => gameGroupBytes previous group ++ postingBytes (some group.1) groups

end Writer

section Decoder

/-- What a decoder keeps of the occurrences it scans, and how it counts them. -/
structure PostingVisitor (σ : Type) where
  first : σ → Occurrence → σ
  later : σ → Occurrence → σ
  endGame : σ → UInt32 → ℕ → Option σ
  total : σ → ℕ

structure PostingScan (σ : Type) where
  output : σ
  minPly : ℕ
  maxPly : ℕ

variable {σ : Type} (visitor : PostingVisitor σ)

def PostingScan.visit (f : σ → Occurrence → σ) (id ply : ℕ) (scan : PostingScan σ) :
    PostingScan σ :=
  ⟨f scan.output ⟨UInt32.ofNat id, UInt16.ofNat ply⟩, min scan.minPly ply, max scan.maxPly ply⟩

def decodePlies (id : ℕ) : ℕ → ℕ → PostingScan σ → List UInt8 →
    Option (PostingScan σ × List UInt8)
  | 0, _, scan, input => some (scan, input)
  | count + 1, ply, scan, input => do
    let (plyDelta, input) ← readUleb128 input
    -- The sum is taken in 64 bits, so that a delta near `2 ^ 64` passes the check.
    guard (plyDelta ≠ 0 ∧ wrappingAdd 64 ply plyDelta ≤ uint16Max)
    decodePlies id count (wrappingAdd 64 ply plyDelta)
      (scan.visit visitor.later id (wrappingAdd 64 ply plyDelta)) input

def decodeGameGroups : ℕ → Bool → ℕ → PostingScan σ → List UInt8 →
    Option (PostingScan σ × List UInt8)
  | 0, _, _, scan, input => some (scan, input)
  | count + 1, isFirst, previousGameId, scan, input => do
    let (gameIdDelta, input) ← readUleb128 input
    guard ((isFirst ∨ gameIdDelta ≠ 0) ∧ previousGameId + gameIdDelta ≤ uint64Max)
    let currentGameId := previousGameId + gameIdDelta
    guard (currentGameId ≠ 0 ∧ currentGameId ≤ uint32Max)
    let (plyCount, input) ← readUleb128 input
    guard (plyCount ≠ 0)
    let (firstPly, input) ← readUleb128 input
    guard (firstPly ≤ uint16Max)
    let scan := scan.visit visitor.first currentGameId firstPly
    let (scan, input) ← decodePlies visitor currentGameId (plyCount - 1) firstPly scan input
    let output ← visitor.endGame scan.output (UInt32.ofNat currentGameId) plyCount
    decodeGameGroups count false currentGameId { scan with output := output } input

/-- Scan a whole posting block, and check it against the counts of its directory entry. -/
def decodePostingBlock (init : σ) (bytes : List UInt8) (entry : DirectoryBlockEntry) :
    Result σ :=
  match decodeGameGroups visitor entry.distinctGameCount true 0 ⟨init, uint16Max, 0⟩ bytes with
  | some (scan, []) =>
    if visitor.total scan.output = entry.occurrenceCount ∧ scan.minPly = entry.minPly ∧
        scan.maxPly = entry.maxPly then .ok scan.output
    else .error .schemaMismatch
  | _ => .error .schemaMismatch

end Decoder

section Decoders

structure WindowState where
  occurrences : List Occurrence
  occurrenceIndex : ℕ

def appendIfRequested (begin' count : ℕ) (s : WindowState) (o : Occurrence) : WindowState :=
  if begin' ≤ s.occurrenceIndex ∧ s.occurrences.length < count then
    ⟨s.occurrences ++ [o], s.occurrenceIndex + 1⟩
  else ⟨s.occurrences, s.occurrenceIndex + 1⟩

def windowVisitor (begin' count : ℕ) : PostingVisitor WindowState where
  first := appendIfRequested begin' count
  later := appendIfRequested begin' count
  endGame s _ _ := some s
  total := WindowState.occurrenceIndex

def decodePostingBlockWindow (bytes : List UInt8) (entry : DirectoryBlockEntry)
    (limit skip : ℕ) : Result (List Occurrence) :=
  let begin' := min skip entry.occurrenceCount
  let remaining := entry.occurrenceCount - begin'
  let count := if limit = 0 then remaining else min limit remaining
  return (← decodePostingBlock (windowVisitor begin' count) ⟨[], 0⟩ bytes entry).occurrences

structure GameIdsState where
  gameIds : List UInt32
  totalOccurrences : ℕ

def gameIdsVisitor : PostingVisitor GameIdsState where
  first s _ := s
  later s _ := s
  endGame s id plyCount := do
    let total ← checkedAdd s.totalOccurrences plyCount
    return ⟨s.gameIds ++ [id], total⟩
  total := GameIdsState.totalOccurrences

def decodePostingBlockGameIds (bytes : List UInt8) (entry : DirectoryBlockEntry) :
    Result (List UInt32) :=
  return (← decodePostingBlock gameIdsVisitor ⟨[], 0⟩ bytes entry).gameIds

structure FirstOccurrencesState where
  occurrences : List Occurrence
  totalOccurrences : ℕ

/-- `requested` is in ascending order. -/
def firstOccurrencesVisitor (requested : List UInt32) : PostingVisitor FirstOccurrencesState where
  first s o :=
    if Order.Bisection.binarySearch UInt32.toNat requested o.id.toNat then
      { s with occurrences := s.occurrences ++ [o] }
    else s
  later s _ := s
  endGame s _ plyCount := do
    let total ← checkedAdd s.totalOccurrences plyCount
    return { s with totalOccurrences := total }
  total := FirstOccurrencesState.totalOccurrences

def decodePostingBlockFirstOccurrences (bytes : List UInt8) (entry : DirectoryBlockEntry)
    (requestedGameIds : List UInt32) : Result (List Occurrence) :=
  let requested := Order.sortBy UInt32.toNat requestedGameIds
  return (← decodePostingBlock (firstOccurrencesVisitor requested) ⟨[], 0⟩ bytes entry).occurrences

end Decoders

/-- Nonzero 32-bit ids in ascending order, each with 16-bit plies in ascending order. -/
structure GroupsOk (groups : GameGroups) : Prop where
  ascending : (groups.map Prod.fst).Pairwise (· < ·)
  id_pos : ∀ g ∈ groups, 0 < g.1
  id_lt : ∀ g ∈ groups, g.1 < 2 ^ 32
  plies_ne : ∀ g ∈ groups, g.2 ≠ []
  plies_ascending : ∀ g ∈ groups, g.2.Pairwise (· < ·)
  ply_lt : ∀ g ∈ groups, ∀ p ∈ g.2, p < 2 ^ 16

/-- What a posting block can spell: the plies of a game stand in any order, but no ply twice in a
row. -/
structure GroupsSpelled (groups : GameGroups) : Prop where
  ascending : (groups.map Prod.fst).Pairwise (· < ·)
  id_pos : ∀ g ∈ groups, 0 < g.1
  id_lt : ∀ g ∈ groups, g.1 < 2 ^ 32
  plies_ne : ∀ g ∈ groups, g.2 ≠ []
  plies_chain : ∀ g ∈ groups, g.2.IsChain (· ≠ ·)
  ply_lt : ∀ g ∈ groups, ∀ p ∈ g.2, p < 2 ^ 16
  length_lt : ∀ g ∈ groups, g.2.length < 2 ^ 64

private theorem length_le_of_ascending {plies : List ℕ} {bound : ℕ} (h : plies.Pairwise (· < ·))
    (hbound : ∀ p ∈ plies, p < bound) : plies.length ≤ bound := by
  have hnodup : plies.Nodup := List.Pairwise.imp (fun hlt => hlt.ne) h
  have hsub : plies ⊆ List.range bound := fun p hp => List.mem_range.mpr (hbound p hp)
  simpa using (List.subperm_of_subset hnodup hsub).length_le

theorem GroupsOk.spelled {groups : GameGroups} (h : GroupsOk groups) : GroupsSpelled groups where
  ascending := h.ascending
  id_pos := h.id_pos
  id_lt := h.id_lt
  plies_ne := h.plies_ne
  plies_chain g hg := ((h.plies_ascending g hg).imp fun hlt => hlt.ne).isChain
  ply_lt := h.ply_lt
  length_lt g hg := by
    have hlength := length_le_of_ascending (h.plies_ascending g hg) (h.ply_lt g hg)
    omega

theorem GroupsSpelled.tail {group : ℕ × List ℕ} {groups : GameGroups}
    (h : GroupsSpelled (group :: groups)) : GroupsSpelled groups where
  ascending := (List.pairwise_cons.mp h.ascending).2
  id_pos g hg := h.id_pos g (List.mem_cons_of_mem _ hg)
  id_lt g hg := h.id_lt g (List.mem_cons_of_mem _ hg)
  plies_ne g hg := h.plies_ne g (List.mem_cons_of_mem _ hg)
  plies_chain g hg := h.plies_chain g (List.mem_cons_of_mem _ hg)
  ply_lt g hg := h.ply_lt g (List.mem_cons_of_mem _ hg)
  length_lt g hg := h.length_lt g (List.mem_cons_of_mem _ hg)

section RoundTrip

variable {σ : Type} (visitor : PostingVisitor σ)

/-- The scan of one game: its first ply, then its later plies. -/
def visitPlies (id : ℕ) (plies : List ℕ) (scan : PostingScan σ) : PostingScan σ :=
  plies.tail.foldl (fun scan ply => scan.visit visitor.later id ply)
    (scan.visit visitor.first id (plies.headD 0))

def visitGame (scan : PostingScan σ) (group : ℕ × List ℕ) : Option (PostingScan σ) := do
  let scan := visitPlies visitor group.1 group.2 scan
  let output ← visitor.endGame scan.output (UInt32.ofNat group.1) group.2.length
  return { scan with output := output }

private theorem decodePlies_succ {id count ply delta next : ℕ} {scan : PostingScan σ}
    {input rest : List UInt8} (hread : readUleb128 input = some (delta, rest))
    (hnext : wrappingAdd 64 ply delta = next) (hguard : delta ≠ 0 ∧ next ≤ uint16Max) :
    decodePlies visitor id (count + 1) ply scan input =
      decodePlies visitor id count next (scan.visit visitor.later id next) rest := by
  subst hnext
  rw [decodePlies, hread]
  exact congrArg (Option.bind · _) (guard_of hguard)

private theorem decodePlies_bytes (id : ℕ) {ply : ℕ} {plies : List ℕ} (scan : PostingScan σ)
    (rest : List UInt8) (hchain : (ply :: plies).IsChain (· ≠ ·))
    (hlt : ∀ p ∈ ply :: plies, p < 2 ^ 16) :
    decodePlies visitor id plies.length ply scan (plyDeltaBytes (ply :: plies) ++ rest) =
      some (plies.foldl (fun scan ply => scan.visit visitor.later id ply) scan, rest) := by
  induction plies generalizing ply scan with
  | nil => rfl
  | cons next plies ih =>
    obtain ⟨hstep, hchain⟩ := List.isChain_cons_cons.mp hchain
    have hply : ply < 2 ^ 16 := hlt ply List.mem_cons_self
    have hnext : next < 2 ^ 16 := hlt next (by simp)
    have hply64 : ply < 2 ^ 64 := by omega
    have hnext64 : next < 2 ^ 64 := by omega
    have hback : wrappingAdd 64 ply (wrappingSub 64 next ply) = next :=
      wrappingAdd_wrappingSub hnext64 hply64
    have hdelta : wrappingSub 64 next ply ≠ 0 := by
      intro hzero
      rw [hzero, wrappingAdd, Nat.add_zero, Nat.mod_eq_of_lt hply64] at hback
      exact hstep hback
    have hle : next ≤ uint16Max := by
      unfold uint16Max
      omega
    have htail := ih (scan.visit visitor.later id next) hchain
      (fun p hp => hlt p (List.mem_cons_of_mem _ hp))
    have hread := readUleb128_encode (wrappingSub_lt 64 next ply)
      (plyDeltaBytes (next :: plies) ++ rest)
    rw [plyDeltaBytes_cons, writeUleb128_eq, List.append_assoc, List.length_cons,
      decodePlies_succ visitor hread hback ⟨hdelta, hle⟩, htail, List.foldl_cons]

private theorem gameIdDelta_eq {previous : Option ℕ} {id : ℕ} (hid : id < 2 ^ 32)
    (hprevious : ∀ p ∈ previous, p < id) :
    previous.elim id (wrappingSub 32 id) = id - previous.getD 0 := by
  cases previous with
  | none => simp only [Option.elim_none, Option.getD_none, Nat.sub_zero]
  | some p =>
    rw [Option.elim_some, Option.getD_some, wrappingSub_eq (hprevious p rfl).le hid]

private theorem decodeGameGroups_group {count : ℕ} {previous : Option ℕ} {group : ℕ × List ℕ}
    {groups : GameGroups} (scan : PostingScan σ) (rest : List UInt8)
    (h : GroupsSpelled (group :: groups)) (hprevious : ∀ p ∈ previous, p < group.1) :
    decodeGameGroups visitor (count + 1) previous.isNone (previous.getD 0) scan
      (gameGroupBytes previous group ++ rest) =
      (visitGame visitor scan group).bind fun scan =>
        decodeGameGroups visitor count false group.1 scan rest := by
  obtain ⟨id, plies⟩ := group
  have hid : 0 < id := h.id_pos _ List.mem_cons_self
  have hidlt : id < 2 ^ 32 := h.id_lt _ List.mem_cons_self
  obtain ⟨ply, plies, rfl⟩ := List.exists_cons_of_ne_nil (h.plies_ne _ List.mem_cons_self)
  have hchain : (ply :: plies).IsChain (· ≠ ·) := h.plies_chain _ List.mem_cons_self
  have hply : ∀ p ∈ ply :: plies, p < 2 ^ 16 := h.ply_lt _ List.mem_cons_self
  have hcount : plies.length + 1 < 2 ^ 64 := h.length_lt _ List.mem_cons_self
  have hfirst : ply < 2 ^ 16 := hply ply List.mem_cons_self
  have hlt : previous.getD 0 < id := by
    cases previous with
    | none => exact hid
    | some p => exact hprevious p rfl
  have hsum : previous.getD 0 + (id - previous.getD 0) = id := by omega
  have hguard : (previous.isNone = true ∨ id - previous.getD 0 ≠ 0) ∧ id ≤ uint64Max := by
    unfold uint64Max
    omega
  have hrange : id ≠ 0 ∧ id ≤ uint32Max := by
    unfold uint32Max
    omega
  have hfirstGuard : ply ≤ uint16Max := by
    unfold uint16Max
    omega
  rw [gameGroupBytes, gameIdDelta_eq hidlt hprevious]
  simp only [writeUleb128_eq, List.append_assoc, List.length_cons, List.headD_cons]
  rw [decodeGameGroups, readUleb128_encode (by omega)]
  simp only [Option.bind_eq_bind, Option.bind_some, hsum, hguard, hrange, ne_eq,
    not_false_eq_true, and_self, guard_true, Option.pure_def]
  rw [readUleb128_encode (by omega)]
  simp only [Option.bind_some, Nat.succ_ne_zero, not_false_eq_true, guard_true, Option.pure_def]
  rw [readUleb128_encode (by omega)]
  simp only [Option.bind_some, hfirstGuard, guard_true, Option.pure_def, Nat.add_sub_cancel]
  rw [decodePlies_bytes visitor id _ _ hchain hply]
  simp only [Option.bind_some, visitGame, visitPlies, List.tail_cons, List.headD_cons,
    List.length_cons, Option.bind_eq_bind, Option.pure_def, Option.bind_assoc]

private theorem decodeGameGroups_bytes {groups : GameGroups} {previous : Option ℕ}
    (scan : PostingScan σ) (rest : List UInt8) (h : GroupsSpelled groups)
    (hprevious : ∀ p ∈ previous, ∀ g ∈ groups, p < g.1) :
    decodeGameGroups visitor groups.length previous.isNone (previous.getD 0) scan
      (postingBytes previous groups ++ rest) =
      (groups.foldlM (visitGame visitor) scan).map fun scan => (scan, rest) := by
  induction groups generalizing previous scan with
  | nil => rfl
  | cons group groups ih =>
    have hpair := List.pairwise_cons.mp h.ascending
    have hprevious' : ∀ p ∈ previous, p < group.1 := fun p hp =>
      hprevious p hp group List.mem_cons_self
    have hnext : ∀ p ∈ some group.1, ∀ g ∈ groups, p < g.1 := by
      intro p hp g hg
      obtain rfl := Option.some.inj hp
      exact hpair.1 _ (List.mem_map_of_mem hg)
    have htail := fun scan => ih scan h.tail hnext
    simp only [Option.isNone_some, Option.getD_some] at htail
    rw [postingBytes, List.append_assoc, List.length_cons,
      decodeGameGroups_group visitor scan _ h hprevious', List.foldlM_cons]
    simp only [htail, Option.bind_eq_bind, Option.map_bind, Function.comp_def]

/-- The plies of all games of a block, in the order in which they are scanned. -/
def groupPlies (groups : GameGroups) : List ℕ := groups.flatMap Prod.snd

def occurrencesOf (groups : GameGroups) : List Occurrence :=
  groups.flatMap fun g => g.2.map fun ply => ⟨UInt32.ofNat g.1, UInt16.ofNat ply⟩

@[simp] theorem length_occurrencesOf (groups : GameGroups) :
    (occurrencesOf groups).length = (groupPlies groups).length := by
  simp [occurrencesOf, groupPlies, List.length_flatMap]

/-- The counts of a directory entry are those of the groups. -/
structure Describes (entry : DirectoryBlockEntry) (groups : GameGroups) : Prop where
  distinct : entry.distinctGameCount = groups.length
  occurrence : entry.occurrenceCount = (groupPlies groups).length
  min : entry.minPly = (groupPlies groups).foldl min uint16Max
  max : entry.maxPly = (groupPlies groups).foldl max 0

def visitOutput (output : σ) (group : ℕ × List ℕ) : Option σ :=
  let occurrence := fun ply => (⟨UInt32.ofNat group.1, UInt16.ofNat ply⟩ : Occurrence)
  visitor.endGame
    (group.2.tail.foldl (fun output ply => visitor.later output (occurrence ply))
      (visitor.first output (occurrence (group.2.headD 0))))
    (UInt32.ofNat group.1) group.2.length

private theorem foldl_visit (f : σ → Occurrence → σ) (id : ℕ) (plies : List ℕ)
    (scan : PostingScan σ) :
    plies.foldl (fun scan ply => scan.visit f id ply) scan =
      ⟨plies.foldl (fun output ply => f output ⟨UInt32.ofNat id, UInt16.ofNat ply⟩) scan.output,
        plies.foldl min scan.minPly, plies.foldl max scan.maxPly⟩ := by
  induction plies generalizing scan with
  | nil => rfl
  | cons ply plies ih =>
    rw [List.foldl_cons, ih]
    rfl

theorem foldlM_visitGame {groups : GameGroups} (hne : ∀ g ∈ groups, g.2 ≠ [])
    (scan : PostingScan σ) :
    groups.foldlM (visitGame visitor) scan =
      (groups.foldlM (visitOutput visitor) scan.output).map fun output =>
        ⟨output, (groupPlies groups).foldl min scan.minPly,
          (groupPlies groups).foldl max scan.maxPly⟩ := by
  induction groups generalizing scan with
  | nil => rfl
  | cons group groups ih =>
    obtain ⟨id, plies⟩ := group
    obtain ⟨ply, plies, rfl⟩ := List.exists_cons_of_ne_nil (hne _ List.mem_cons_self)
    have htail := ih fun g hg => hne g (List.mem_cons_of_mem _ hg)
    have hgame : visitGame visitor scan (id, ply :: plies) =
        (visitOutput visitor scan.output (id, ply :: plies)).map fun output =>
          ⟨output, (ply :: plies).foldl min scan.minPly, (ply :: plies).foldl max scan.maxPly⟩ := by
      simp only [visitGame, visitPlies, visitOutput, List.tail_cons, List.headD_cons, foldl_visit,
        Option.bind_eq_bind, Option.pure_def]
      rw [Option.map_eq_bind]
      rfl
    rw [List.foldlM_cons, List.foldlM_cons, hgame]
    cases visitOutput visitor scan.output (id, ply :: plies) with
    | none => rfl
    | some output =>
      simp only [Option.map_some, Option.bind_eq_bind, Option.bind_some, htail, groupPlies,
        List.flatMap_cons, List.foldl_append]

private theorem decodePostingBlock_bytes {groups : GameGroups} {entry : DirectoryBlockEntry} {init output : σ}
    (h : GroupsSpelled groups) (hentry : Describes entry groups)
    (houtput : groups.foldlM (visitOutput visitor) init = some output)
    (htotal : visitor.total output = (groupPlies groups).length) :
    decodePostingBlock visitor init (postingBytes none groups) entry = .ok output := by
  have hdecode := @decodeGameGroups_bytes _ visitor groups none ⟨init, uint16Max, 0⟩ [] h
    (by simp)
  simp only [Option.isNone_none, Option.getD_none, List.append_nil, foldlM_visitGame visitor
    h.plies_ne, houtput, Option.map_some] at hdecode
  rw [decodePostingBlock, hentry.distinct, hdecode]
  simp only [htotal, hentry.occurrence, hentry.min, hentry.max, and_self, if_true]

end RoundTrip

section Results

private theorem foldl_appendIfRequested (begin' count : ℕ) (l : List Occurrence) :
    l.foldl (appendIfRequested begin' count) ⟨[], 0⟩ = ⟨(l.drop begin').take count, l.length⟩ := by
  induction l using List.reverseRecOn with
  | nil => simp
  | append_singleton l o ih =>
    rw [List.foldl_append, ih, List.foldl_cons, List.foldl_nil, appendIfRequested]
    simp only [List.length_take, List.length_drop, List.length_append, List.length_singleton]
    by_cases hbegin : begin' ≤ l.length
    · rw [List.drop_append_of_le_length hbegin, List.take_append]
      by_cases hroom : l.length - begin' < count
      · have hsplit : count - (l.drop begin').length = (count - (l.length - begin') - 1) + 1 := by
          rw [List.length_drop]
          omega
        rw [if_pos ⟨hbegin, by omega⟩, hsplit]
        simp
      · have hfull : count - (l.drop begin').length = 0 := by
          rw [List.length_drop]
          omega
        rw [if_neg (by omega), hfull]
        simp
    · have hshort : (l ++ [o]).length ≤ begin' := by
        rw [List.length_append, List.length_singleton]
        omega
      rw [if_neg (by omega), List.drop_eq_nil_of_le hshort, List.drop_eq_nil_of_le (by omega)]

private theorem foldlM_windowVisitor (begin' count : ℕ) {groups : GameGroups}
    (hne : ∀ g ∈ groups, g.2 ≠ []) (s : WindowState) :
    groups.foldlM (visitOutput (windowVisitor begin' count)) s =
      some ((occurrencesOf groups).foldl (appendIfRequested begin' count) s) := by
  induction groups generalizing s with
  | nil => rfl
  | cons group groups ih =>
    obtain ⟨id, plies⟩ := group
    obtain ⟨ply, plies, rfl⟩ := List.exists_cons_of_ne_nil (hne _ List.mem_cons_self)
    have htail := ih fun g hg => hne g (List.mem_cons_of_mem _ hg)
    simp only [List.foldlM_cons, visitOutput, windowVisitor, List.headD_cons, List.tail_cons,
      Option.bind_eq_bind, Option.bind_some, occurrencesOf, List.flatMap_cons, List.foldl_append,
      List.map_cons, List.foldl_cons, List.foldl_map]
    exact htail _

theorem decodePostingBlockWindow_bytes {groups : GameGroups} {entry : DirectoryBlockEntry}
    (h : GroupsSpelled groups) (hentry : Describes entry groups) (limit skip : ℕ) :
    decodePostingBlockWindow (postingBytes none groups) entry limit skip =
      .ok (if limit = 0 then (occurrencesOf groups).drop skip
        else ((occurrencesOf groups).drop skip).take limit) := by
  have hlen : entry.occurrenceCount = (occurrencesOf groups).length := by
    rw [hentry.occurrence, length_occurrencesOf]
  have hfold := fun begin' count => foldlM_windowVisitor begin' count h.plies_ne ⟨[], 0⟩
  simp only [foldl_appendIfRequested] at hfold
  have hblock := fun begin' count => decodePostingBlock_bytes (windowVisitor begin' count) h hentry
    (hfold begin' count) (length_occurrencesOf groups)
  rw [decodePostingBlockWindow]
  simp only [hblock, bind_pure_comp, hlen, Functor.map, Except.map, Except.ok.injEq]
  have hdrop : (occurrencesOf groups).drop (min skip (occurrencesOf groups).length) =
      (occurrencesOf groups).drop skip := by
    rcases Nat.le_total skip (occurrencesOf groups).length with hle | hle
    · rw [Nat.min_eq_left hle]
    · rw [Nat.min_eq_right hle, List.drop_length, List.drop_eq_nil_of_le hle]
  have hremaining : (occurrencesOf groups).length - min skip (occurrencesOf groups).length =
      ((occurrencesOf groups).drop skip).length := by
    rw [List.length_drop]
    omega
  rw [hdrop, hremaining]
  split
  · rw [List.take_length]
  · rw [List.take_eq_take_iff]
    omega

private theorem foldlM_gameIdsVisitor {groups : GameGroups} (ids : List UInt32) (total : ℕ)
    (hfit : total + (groupPlies groups).length ≤ uint64Max) :
    groups.foldlM (visitOutput gameIdsVisitor) ⟨ids, total⟩ =
      some ⟨ids ++ groups.map fun g => UInt32.ofNat g.1, total + (groupPlies groups).length⟩ := by
  induction groups generalizing ids total with
  | nil => simp [groupPlies]
  | cons group groups ih =>
    obtain ⟨id, plies⟩ := group
    rw [groupPlies, List.flatMap_cons, List.length_append, ← groupPlies] at hfit
    dsimp only at hfit
    have hkeep : ∀ s : GameIdsState, plies.tail.foldl (fun s ply =>
        gameIdsVisitor.later s ⟨UInt32.ofNat id, UInt16.ofNat ply⟩) s = s := fun s =>
      List.foldl_fixed' (fun _ => rfl) plies.tail
    have hadd : checkedAdd total plies.length = some (total + plies.length) := by
      rw [checkedAdd, if_neg (by omega)]
    have hgame : visitOutput gameIdsVisitor ⟨ids, total⟩ (id, plies) =
        some ⟨ids ++ [UInt32.ofNat id], total + plies.length⟩ := by
      rw [visitOutput, hkeep]
      simp only [gameIdsVisitor, hadd, Option.bind_eq_bind, Option.bind_some, Option.pure_def]
    rw [List.foldlM_cons, hgame, Option.bind_eq_bind, Option.bind_some, ih _ _ (by omega)]
    simp [groupPlies, Nat.add_assoc]

theorem decodePostingBlockGameIds_bytes {groups : GameGroups} {entry : DirectoryBlockEntry}
    (h : GroupsSpelled groups) (hentry : Describes entry groups)
    (hfit : (groupPlies groups).length ≤ uint64Max) :
    decodePostingBlockGameIds (postingBytes none groups) entry =
      .ok (groups.map fun g => UInt32.ofNat g.1) := by
  have hfold : groups.foldlM (visitOutput gameIdsVisitor) ⟨[], 0⟩ =
      some ⟨groups.map fun g => UInt32.ofNat g.1, (groupPlies groups).length⟩ := by
    simpa using foldlM_gameIdsVisitor [] 0 (by omega)
  rw [decodePostingBlockGameIds, decodePostingBlock_bytes gameIdsVisitor h hentry hfold rfl]
  rfl

/-- The requested games of a block, each with its lowest ply. -/
def firstOccurrencesOf (requested : List UInt32) (groups : GameGroups) : List Occurrence :=
  (groups.filter fun g => decide (UInt32.ofNat g.1 ∈ requested)).map fun g =>
    ⟨UInt32.ofNat g.1, UInt16.ofNat (g.2.headD 0)⟩

private theorem foldlM_firstOccurrencesVisitor {sorted requested : List UInt32}
    (hsorted : ∀ id, Order.Bisection.binarySearch UInt32.toNat sorted id.toNat = true ↔
      id ∈ requested) {groups : GameGroups} (occurrences : List Occurrence) (total : ℕ)
    (hfit : total + (groupPlies groups).length ≤ uint64Max) :
    groups.foldlM (visitOutput (firstOccurrencesVisitor sorted)) ⟨occurrences, total⟩ =
      some ⟨occurrences ++ firstOccurrencesOf requested groups,
        total + (groupPlies groups).length⟩ := by
  induction groups generalizing occurrences total with
  | nil => simp [groupPlies, firstOccurrencesOf]
  | cons group groups ih =>
    obtain ⟨id, plies⟩ := group
    rw [groupPlies, List.flatMap_cons, List.length_append, ← groupPlies] at hfit
    dsimp only at hfit
    have hkeep : ∀ s : FirstOccurrencesState, plies.tail.foldl (fun s ply =>
        (firstOccurrencesVisitor sorted).later s ⟨UInt32.ofNat id, UInt16.ofNat ply⟩) s = s :=
      fun s => List.foldl_fixed' (fun _ => rfl) plies.tail
    have hadd : checkedAdd total plies.length = some (total + plies.length) := by
      rw [checkedAdd, if_neg (by omega)]
    have hgame : visitOutput (firstOccurrencesVisitor sorted) ⟨occurrences, total⟩ (id, plies) =
        some ⟨occurrences ++ firstOccurrencesOf requested [(id, plies)],
          total + plies.length⟩ := by
      rw [visitOutput, hkeep]
      by_cases hmem : UInt32.ofNat id ∈ requested
      · have hfind := (hsorted _).mpr hmem
        simp only [firstOccurrencesVisitor, hfind, if_true, hadd, Option.bind_eq_bind,
          Option.bind_some, Option.pure_def]
        simp [firstOccurrencesOf, hmem]
      · have hfind : Order.Bisection.binarySearch UInt32.toNat sorted (UInt32.ofNat id).toNat =
            false := Bool.eq_false_iff.mpr fun h => hmem ((hsorted _).mp h)
        simp only [firstOccurrencesVisitor, hfind, Bool.false_eq_true, if_false, hadd,
          Option.bind_eq_bind, Option.bind_some, Option.pure_def]
        simp [firstOccurrencesOf, hmem]
    rw [List.foldlM_cons, hgame, Option.bind_eq_bind, Option.bind_some, ih _ _ (by omega)]
    simp only [firstOccurrencesOf, List.append_assoc, ← List.map_append, ← List.filter_append,
      List.singleton_append, groupPlies, List.flatMap_cons, List.length_append, Nat.add_assoc]

theorem decodePostingBlockFirstOccurrences_bytes {groups : GameGroups}
    {entry : DirectoryBlockEntry} (h : GroupsSpelled groups) (hentry : Describes entry groups)
    (hfit : (groupPlies groups).length ≤ uint64Max) (requested : List UInt32) :
    decodePostingBlockFirstOccurrences (postingBytes none groups) entry requested =
      .ok (firstOccurrencesOf requested groups) := by
  set sorted := Order.sortBy UInt32.toNat requested with hsortedDef
  have hascending : (sorted.map UInt32.toNat).SortedLE :=
    Order.sortedLE_map_sortBy UInt32.toNat requested
  have hsorted : ∀ id, Order.Bisection.binarySearch UInt32.toNat sorted id.toNat = true ↔
      id ∈ requested := by
    intro id
    rw [Order.Bisection.binarySearch_eq_true hascending, hsortedDef]
    simp only [Order.mem_sortBy, UInt32.toNat_inj, exists_eq_right]
  have hfold : groups.foldlM (visitOutput (firstOccurrencesVisitor sorted)) ⟨[], 0⟩ =
      some ⟨firstOccurrencesOf requested groups, (groupPlies groups).length⟩ := by
    simpa using foldlM_firstOccurrencesVisitor hsorted [] 0 (by omega)
  rw [decodePostingBlockFirstOccurrences, ← hsortedDef,
    decodePostingBlock_bytes (firstOccurrencesVisitor sorted) h hentry hfold rfl]
  rfl

end Results

end MotifChess.Db.PositionPostings
