/- GID: MotifChess/Db/PositionPostings/MergeRuns
   generality: implementation
   digest: The streaming merge writes one posting block and one entry for each group of records. -/

import MotifChess.Db.PositionPostings.Build
import MotifChess.Order.Runs

set_option autoImplicit false
set_option relaxedAutoImplicit false

namespace MotifChess.Db.PositionPostings

open MotifChess.Order.Runs

/-- One position with the games and plies at which it occurs. -/
abbrev HashGroup := ℕ × List (ℕ × ℕ)

def Record.pair (r : Record) : ℕ × ℕ × ℕ := (r.hash, r.gameKey, r.ply)

section Layout

def groupBytes (group : HashGroup) : List UInt8 := postingBytes none (groupRuns group.2)

def entryOf (offset : ℕ) (group : HashGroup) : DirectoryBlockEntry :=
  ⟨group.1, offset, (groupBytes group).length, group.2.length, (groupRuns group.2).length,
    (group.2.map Prod.snd).foldl min uint16Max, (group.2.map Prod.snd).foldl max 0⟩

@[simp] theorem entryOf_hash (offset : ℕ) (group : HashGroup) :
    (entryOf offset group).hash = group.1 := rfl

@[simp] theorem entryOf_postingOffset (offset : ℕ) (group : HashGroup) :
    (entryOf offset group).postingOffset = offset := rfl

@[simp] theorem entryOf_postingByteLength (offset : ℕ) (group : HashGroup) :
    (entryOf offset group).postingByteLength = (groupBytes group).length := rfl

/-- The directory of groups whose posting blocks are laid out from `offset` on. -/
def entriesFrom : ℕ → List HashGroup → List DirectoryBlockEntry
  | _, [] => []
  | offset, group :: groups =>
    entryOf offset group :: entriesFrom (offset + (groupBytes group).length) groups

/-- The sparse entries of blocks that are laid out from `offset` on. -/
def sparseFrom : ℕ → List (List DirectoryBlockEntry) → List SparseEntry
  | _, [] => []
  | offset, block :: blocks =>
    ⟨(block.head?.map DirectoryBlockEntry.hash).getD 0, offset, (directoryBlockBytes block).length,
      block.length⟩ :: sparseFrom (offset + (directoryBlockBytes block).length) blocks

private theorem entriesFrom_concat (offset : ℕ) (groups : List HashGroup) (group : HashGroup) :
    entriesFrom offset (groups ++ [group]) =
      entriesFrom offset groups ++ [entryOf (offset + (groups.flatMap groupBytes).length) group] := by
  induction groups generalizing offset with
  | nil => simp [entriesFrom]
  | cons first groups ih =>
    rw [List.cons_append, entriesFrom, ih, entriesFrom, List.flatMap_cons, List.length_append,
      List.cons_append, Nat.add_assoc]

theorem sparseFrom_concat (offset : ℕ) (blocks : List (List DirectoryBlockEntry))
    (block : List DirectoryBlockEntry) :
    sparseFrom offset (blocks ++ [block]) = sparseFrom offset blocks ++
      sparseFrom (offset + (blocks.flatMap directoryBlockBytes).length) [block] := by
  induction blocks generalizing offset with
  | nil => simp [sparseFrom]
  | cons first blocks ih =>
    have hsum : offset + (directoryBlockBytes first ++ blocks.flatMap directoryBlockBytes).length =
        offset + (directoryBlockBytes first).length +
          (blocks.flatMap directoryBlockBytes).length := by
      rw [List.length_append, Nat.add_assoc]
    rw [List.cons_append, List.flatMap_cons, hsum]
    simp only [sparseFrom, ih, List.cons_append]

private theorem postingBytes_concat (previous : Option ℕ) (groups : GameGroups) (group : ℕ × List ℕ) :
    postingBytes previous (groups ++ [group]) = postingBytes previous groups ++
      gameGroupBytes ((groups.getLast?.map Prod.fst).or previous) group := by
  induction groups generalizing previous with
  | nil => simp [postingBytes]
  | cons first groups ih =>
    rw [List.cons_append, postingBytes, ih, postingBytes, List.append_assoc]
    cases hlast : groups.getLast? with
    | none => simp [List.getLast?_eq_none_iff.mp hlast]
    | some last => simp [List.getLast?_cons, hlast]

end Layout

section Invariant

/-- The spool holds full blocks, and with the pending entries they list the whole directory. -/
def DirectoryOf (entries : List DirectoryBlockEntry) (s : MergeState) : Prop :=
  ∃ blocks : List (List DirectoryBlockEntry),
    (∀ block ∈ blocks, block.length = maxDirectoryBlockEntries) ∧
    blocks.flatten ++ s.pending = entries ∧ s.pending.length < maxDirectoryBlockEntries ∧
    s.dirspool = blocks.flatMap directoryBlockBytes ∧ s.sparse = sparseFrom 0 blocks

/-- What the merge has written when no position is active. -/
structure AtBoundary (groups : List HashGroup) (s : MergeState) : Prop where
  output : s.output = List.replicate fixedHeaderSize 0 ++ groups.flatMap groupBytes
  directory : DirectoryOf (entriesFrom fixedHeaderSize groups) s
  distinct : s.distinctHashCount = groups.length
  hash : s.activeHash = none
  game : s.activeGame = none
  flushed : s.previousFlushed = none
  plies : s.activePlies = []

/-- What the merge has written and accumulated while the position `hash` is active. -/
structure Active (groups : List HashGroup) (hash : ℕ) (occ : List (ℕ × ℕ)) (s : MergeState) :
    Prop where
  output : s.output = List.replicate fixedHeaderSize 0 ++ groups.flatMap groupBytes ++
    postingBytes none (grouping occ).closed
  directory : DirectoryOf (entriesFrom fixedHeaderSize groups) s
  distinct : s.distinctHashCount = groups.length
  hash : s.activeHash = some hash
  offset : s.activeHashOffset = fixedHeaderSize + (groups.flatMap groupBytes).length
  occurrences : s.activeOccurrenceCount = occ.length
  games : s.activeDistinctGameCount = (groupRuns occ).length
  minPly : occ ≠ [] → s.activeMinPly = (occ.map Prod.snd).foldl min uint16Max
  maxPly : occ ≠ [] → s.activeMaxPly = (occ.map Prod.snd).foldl max 0
  game : s.activeGame = (grouping occ).current.map Prod.fst
  plies : s.activePlies = ((grouping occ).current.map Prod.snd).getD []
  flushed : s.previousFlushed = (grouping occ).closed.getLast?.map Prod.fst

variable {groups : List HashGroup} {hash : ℕ} {occ : List (ℕ × ℕ)} {s : MergeState}

theorem Active.flushGameGroup (h : Active groups hash occ s) :
    s.flushGameGroup =
      { s with
        output := List.replicate fixedHeaderSize 0 ++ groups.flatMap groupBytes ++
          postingBytes none (groupRuns occ)
        previousFlushed := (groupRuns occ).getLast?.map Prod.fst
        activeGame := none
        activePlies := [] } := by
  have houtput := h.output
  have hgame := h.game
  have hplies := h.plies
  have hflushed := h.flushed
  unfold MergeState.flushGameGroup groupRuns Grouping.finish
  cases hcurrent : (grouping occ).current with
  | none =>
    rw [hcurrent] at hgame hplies
    rw [Option.map_none] at hgame
    simp only [hgame, Option.toList_none, List.append_nil, ← houtput, ← hflushed]
    rw [Option.map_none, Option.getD_none] at hplies
    rw [← hgame, ← hplies]
  | some group =>
    obtain ⟨id, plies⟩ := group
    rw [hcurrent] at hgame hplies
    rw [Option.map_some] at hgame
    rw [Option.map_some, Option.getD_some] at hplies
    simp only [hgame, Option.toList_some, postingBytes_concat, Option.or_none, hplies, hflushed,
      houtput, List.append_assoc, List.getLast?_concat, Option.map_some]

theorem flushDirectoryBlock_eq (h : s.pending ≠ []) :
    s.flushDirectoryBlock =
      { s with
        dirspool := s.dirspool ++ directoryBlockBytes s.pending
        sparse := s.sparse ++ sparseFrom s.dirspool.length [s.pending]
        pending := [] } := by
  unfold MergeState.flushDirectoryBlock
  split
  · next hnil => exact absurd hnil h
  · next first rest hcons => simp [hcons, sparseFrom]

theorem DirectoryOf.push {entries : List DirectoryBlockEntry} {entry : DirectoryBlockEntry}
    (h : DirectoryOf entries s) {t : MergeState} (hpending : t.pending = s.pending ++ [entry])
    (hspool : t.dirspool = s.dirspool) (hsparse : t.sparse = s.sparse) :
    DirectoryOf (entries ++ [entry])
      (if t.pending.length = maxDirectoryBlockEntries then t.flushDirectoryBlock else t) := by
  obtain ⟨blocks, hfull, rfl, hroom, hdirspool, hentries⟩ := h
  split
  · next hlen =>
    have hne : t.pending ≠ [] := by simp [hpending]
    rw [flushDirectoryBlock_eq hne]
    refine ⟨blocks ++ [t.pending], ?_, ?_, ?_, ?_, ?_⟩
    · intro block hblock
      rcases List.mem_append.mp hblock with hblock | hblock
      · exact hfull block hblock
      · rw [List.mem_singleton.mp hblock, hlen]
    · simp [hpending]
    · simp [maxDirectoryBlockEntries]
    · simp [hspool, hdirspool]
    · simp only [hsparse, hentries, hspool, hdirspool, sparseFrom_concat, Nat.zero_add]
  · next hlen =>
    refine ⟨blocks, hfull, by simp [hpending], ?_, by rw [hspool, hdirspool],
      by rw [hsparse, hentries]⟩
    rw [hpending, List.length_append, List.length_singleton] at hlen ⊢
    omega

private theorem exists_settled (t : MergeState) :
    ∃ dirspool sparse pending,
      (if t.pending.length = maxDirectoryBlockEntries then t.flushDirectoryBlock else t) =
        { t with dirspool := dirspool, sparse := sparse, pending := pending } := by
  split
  · unfold MergeState.flushDirectoryBlock
    split
    · exact ⟨_, _, _, rfl⟩
    · exact ⟨_, _, _, rfl⟩
  · exact ⟨t.dirspool, t.sparse, t.pending, rfl⟩

private theorem Active.entry (h : Active groups hash occ s) (hocc : occ ≠ []) :
    (⟨hash, s.activeHashOffset, s.flushGameGroup.output.length - s.activeHashOffset,
      s.activeOccurrenceCount, s.activeDistinctGameCount, s.activeMinPly, s.activeMaxPly⟩ :
      DirectoryBlockEntry) =
      entryOf (fixedHeaderSize + (groups.flatMap groupBytes).length) (hash, occ) := by
  have hlen : s.flushGameGroup.output.length - s.activeHashOffset =
      (groupBytes (hash, occ)).length := by
    rw [h.flushGameGroup, h.offset]
    simp only [List.length_append, List.length_replicate, groupBytes]
    omega
  rw [hlen, h.offset, h.occurrences, h.games, h.minPly hocc, h.maxPly hocc, entryOf]

theorem Active.flushHash (h : Active groups hash occ s) (hocc : occ ≠ []) :
    AtBoundary (groups ++ [(hash, occ)]) s.flushHash ∧
      s.flushHash.totalOccurrences = s.totalOccurrences ∧ s.flushHash.previous = s.previous := by
  have hentry := h.entry hocc
  have hgroup := h.flushGameGroup
  set t : MergeState := { s.flushGameGroup with
    pending := s.pending ++ [entryOf (fixedHeaderSize + (groups.flatMap groupBytes).length)
      (hash, occ)]
    distinctHashCount := s.distinctHashCount + 1
    activeHash := none
    previousFlushed := none } with ht
  have hflush : s.flushHash =
      if t.pending.length = maxDirectoryBlockEntries then t.flushDirectoryBlock else t := by
    unfold MergeState.flushHash
    rw [h.hash]
    simp only [ht, ← hentry]
    simp only [hgroup]
  obtain ⟨dirspool, sparse, pending, hsettled⟩ := exists_settled t
  rw [hflush]
  refine ⟨⟨?_, ?_, ?_, ?_, ?_, ?_, ?_⟩, ?_, ?_⟩
  · rw [hsettled]
    simp [ht, hgroup, groupBytes]
  · rw [entriesFrom_concat]
    exact h.directory.push (by simp [ht]) (by simp [ht, hgroup]) (by simp [ht, hgroup])
  all_goals rw [hsettled] <;> simp [ht, hgroup, h.distinct]

theorem Active.visit (h : Active groups hash occ s) {r : Record}
    (hply : r.ply ≤ uint16Max)
    (hfresh : occ = [] → s.activeMinPly = r.ply ∧ s.activeMaxPly = r.ply) :
    Active groups hash (occ ++ [(r.gameKey, r.ply)]) ((s.enterGame r).addPly r) := by
  have hmin : min s.activeMinPly r.ply =
      ((occ ++ [(r.gameKey, r.ply)]).map Prod.snd).foldl min uint16Max := by
    rw [List.map_append, List.foldl_append]
    by_cases hocc : occ = []
    · rw [(hfresh hocc).1, hocc]
      simp [hply]
    · rw [h.minPly hocc]
      rfl
  have hmax : max s.activeMaxPly r.ply =
      ((occ ++ [(r.gameKey, r.ply)]).map Prod.snd).foldl max 0 := by
    rw [List.map_append, List.foldl_append]
    by_cases hocc : occ = []
    · rw [(hfresh hocc).2, hocc]
      simp
    · rw [h.maxPly hocc]
      rfl
  have hgames := h.games
  by_cases hsame : (grouping occ).current.map Prod.fst = some r.gameKey
  · obtain ⟨⟨id, plies⟩, hcurrent, rfl⟩ := Option.map_eq_some_iff.mp hsame
    have hpush : (grouping occ).push (r.gameKey, r.ply) =
        ⟨(grouping occ).closed, some (r.gameKey, plies ++ [r.ply])⟩ := push_of_current hcurrent
    have henter : s.enterGame r = s := by rw [MergeState.enterGame, h.game, if_pos hsame]
    have hplies : s.activePlies = plies := by rw [h.plies, hcurrent, Option.map_some, Option.getD_some]
    rw [henter]
    exact
      { output := by simp [MergeState.addPly, hpush, h.output]
        directory := h.directory
        distinct := h.distinct
        hash := h.hash
        offset := h.offset
        occurrences := by simp [MergeState.addPly, h.occurrences]
        games := by
          simp [MergeState.addPly, groupRuns, hpush, Grouping.finish, hgames, hcurrent]
        minPly := fun _ => hmin
        maxPly := fun _ => hmax
        game := by simp [MergeState.addPly, hpush, h.game, hcurrent]
        plies := by simp [MergeState.addPly, hpush, hplies]
        flushed := by simp [MergeState.addPly, hpush, h.flushed] }
  · have hpush : (grouping occ).push (r.gameKey, r.ply) =
        ⟨groupRuns occ, some (r.gameKey, [r.ply])⟩ := push_of_ne hsame
    have henter : s.enterGame r = { s.flushGameGroup with
        activeGame := some r.gameKey
        activeDistinctGameCount := s.flushGameGroup.activeDistinctGameCount + 1 } := by
      rw [MergeState.enterGame, h.game, if_neg hsame]
    rw [henter, h.flushGameGroup]
    exact
      { output := by simp [MergeState.addPly, hpush]
        directory := h.directory
        distinct := h.distinct
        hash := h.hash
        offset := h.offset
        occurrences := by simp [MergeState.addPly, h.occurrences]
        games := by
          simp [MergeState.addPly, groupRuns, hpush, Grouping.finish, hgames, Nat.add_assoc]
        minPly := fun _ => hmin
        maxPly := fun _ => hmax
        game := by simp [MergeState.addPly, hpush]
        plies := by simp [MergeState.addPly, hpush]
        flushed := by simp [MergeState.addPly, hpush] }

/-- The state in which a new position has just become active. -/
private def startHash (s : MergeState) (r : Record) : MergeState :=
  { s with
    activeHash := some r.hash
    activeHashOffset := s.output.length
    activeOccurrenceCount := 0
    activeDistinctGameCount := 0
    activeMinPly := r.ply
    activeMaxPly := r.ply }

private theorem AtBoundary.startHash (h : AtBoundary groups s) (r : Record) :
    Active groups r.hash [] (startHash s r) where
  output := by simp [PositionPostings.startHash, h.output, Grouping.empty, postingBytes]
  directory := h.directory
  distinct := h.distinct
  hash := rfl
  offset := by simp [PositionPostings.startHash, h.output]
  occurrences := rfl
  games := rfl
  minPly hne := absurd rfl hne
  maxPly hne := absurd rfl hne
  game := h.game
  plies := h.plies
  flushed := h.flushed

/-- What holds of the merge after it has kept the records `kept`. -/
structure MergeInv (kept : List Record) (s : MergeState) : Prop where
  total : s.totalOccurrences = kept.length
  previous : s.previous = kept.getLast?
  atBoundary : (grouping (kept.map Record.pair)).current = none →
    AtBoundary (grouping (kept.map Record.pair)).closed s
  active : ∀ {hash occ}, (grouping (kept.map Record.pair)).current = some (hash, occ) →
    occ ≠ [] ∧ Active (grouping (kept.map Record.pair)).closed hash occ s

theorem MergeInv.nil : MergeInv [] MergeState.init where
  total := rfl
  previous := rfl
  atBoundary _ :=
    { output := by simp [MergeState.init, Grouping.empty]
      directory := ⟨[], by simp, rfl, by simp [MergeState.init, maxDirectoryBlockEntries], rfl, rfl⟩
      distinct := rfl
      hash := rfl
      game := rfl
      flushed := rfl
      plies := rfl }
  active h := by cases h

theorem MergeInv.flushHash {kept : List Record} (h : MergeInv kept s) :
    AtBoundary (groupRuns (kept.map Record.pair)) s.flushHash ∧
      s.flushHash.totalOccurrences = s.totalOccurrences ∧ s.flushHash.previous = s.previous := by
  unfold groupRuns Grouping.finish
  cases hcurrent : (grouping (kept.map Record.pair)).current with
  | none =>
    have hboundary := h.atBoundary hcurrent
    have hflush : s.flushHash = s := by rw [MergeState.flushHash, hboundary.hash]
    rw [hflush]
    exact ⟨by simpa using hboundary, rfl, rfl⟩
  | some group =>
    obtain ⟨hne, hactive⟩ := h.active hcurrent
    exact hactive.flushHash hne

private theorem MergeInv.concat {kept : List Record} {r : Record} {t : MergeState}
    {occ : List (ℕ × ℕ)}
    (htotal : t.totalOccurrences = kept.length) {closed : List HashGroup}
    (hpush : (grouping (kept.map Record.pair)).push r.pair =
      ⟨closed, some (r.hash, occ ++ [(r.gameKey, r.ply)])⟩)
    (hactive : Active closed r.hash (occ ++ [(r.gameKey, r.ply)]) ((t.enterGame r).addPly r)) :
    MergeInv (kept ++ [r]) ((t.enterGame r).addPly r) := by
  have hgame : (t.enterGame r).totalOccurrences = t.totalOccurrences := by
    unfold MergeState.enterGame MergeState.flushGameGroup
    split
    · rfl
    · split <;> rfl
  refine ⟨by simp [MergeState.addPly, hgame, htotal], by simp [MergeState.addPly], ?_, ?_⟩
  · intro hnone
    simp [hpush] at hnone
  · intro hash occ' hcurrent
    rw [List.map_append, List.map_singleton, grouping_concat, hpush] at hcurrent ⊢
    obtain ⟨rfl, rfl⟩ := Prod.mk.inj (Option.some.inj hcurrent)
    exact ⟨by simp, hactive⟩

theorem MergeInv.visit {kept : List Record} (h : MergeInv kept s) {r : Record}
    (hnew : s.previous ≠ some r) (hply : r.ply ≤ uint16Max) :
    MergeInv (kept ++ [r]) (s.visit r) := by
  rw [MergeState.visit, if_neg hnew]
  by_cases hsame : (grouping (kept.map Record.pair)).current.map Prod.fst = some r.hash
  · obtain ⟨⟨hash, occ⟩, hcurrent, rfl⟩ := Option.map_eq_some_iff.mp hsame
    obtain ⟨hne, hactive⟩ := h.active hcurrent
    have henter : s.enterHash r = s := by
      rw [MergeState.enterHash, if_pos hactive.hash]
    rw [henter]
    exact MergeInv.concat h.total (push_of_current hcurrent)
      (hactive.visit hply fun hnil => absurd hnil hne)
  · obtain ⟨hboundary, htotal, _⟩ := h.flushHash
    have hhash : s.activeHash ≠ some r.hash := by
      intro heq
      apply hsame
      cases hcurrent : (grouping (kept.map Record.pair)).current with
      | none => simp [(h.atBoundary hcurrent).hash] at heq
      | some group => simpa [(h.active hcurrent).2.hash] using heq
    have henter : s.enterHash r = startHash s.flushHash r := by
      rw [MergeState.enterHash, if_neg hhash]
      rfl
    have hpush : (grouping (kept.map Record.pair)).push r.pair =
        ⟨groupRuns (kept.map Record.pair), some (r.hash, [] ++ [(r.gameKey, r.ply)])⟩ :=
      push_of_ne hsame
    rw [henter]
    exact MergeInv.concat (htotal.trans h.total) hpush
      ((hboundary.startHash r).visit hply fun _ => ⟨rfl, rfl⟩)

theorem exists_mergeInv {merged : List Record} (hsorted : merged.Pairwise (· ≤ ·))
    (hply : ∀ r ∈ merged, r.ply ≤ uint16Max) :
    ∃ kept : List Record, kept.Pairwise (· < ·) ∧ (∀ r, r ∈ kept ↔ r ∈ merged) ∧
      MergeInv kept (merged.foldl MergeState.visit MergeState.init) := by
  induction merged using List.reverseRecOn with
  | nil => exact ⟨[], List.Pairwise.nil, by simp, MergeInv.nil⟩
  | append_singleton merged r ih =>
    obtain ⟨hfront, _, hle⟩ := List.pairwise_append.mp hsorted
    obtain ⟨kept, hkept, hmem, hinv⟩ := ih hfront fun x hx => hply x (List.mem_append_left _ hx)
    rw [List.foldl_append, List.foldl_cons, List.foldl_nil]
    by_cases hprevious : kept.getLast? = some r
    · refine ⟨kept, hkept, fun x => ?_, ?_⟩
      · have hr : r ∈ merged := (hmem r).mp (List.mem_of_getLast? hprevious)
        rw [hmem, List.mem_append, List.mem_singleton]
        constructor
        · exact Or.inl
        · rintro (hx | rfl)
          · exact hx
          · exact hr
      · rw [MergeState.visit, if_pos (hinv.previous.trans hprevious)]
        exact hinv
    · refine ⟨kept ++ [r], ?_, fun x => by simp [hmem], ?_⟩
      · refine List.pairwise_append.mpr ⟨hkept, by simp, fun x hx y hy => ?_⟩
        obtain rfl := List.mem_singleton.mp hy
        refine lt_of_le_of_ne (hle x ((hmem x).mp hx) y (by simp)) ?_
        rintro rfl
        obtain ⟨front, last, rfl⟩ := (List.eq_nil_or_concat' kept).resolve_left
          (List.ne_nil_of_mem hx)
        have hlast : last ≤ x := hle last ((hmem last).mp (by simp)) x (by simp)
        rcases List.mem_append.mp hx with hx | hx
        · have hlt := (List.pairwise_append.mp hkept).2.2 x hx last (by simp)
          exact absurd hlt (not_lt_of_ge hlast)
        · obtain rfl := List.mem_singleton.mp hx
          exact hprevious (by simp)
      · refine hinv.visit ?_ (hply r (by simp))
        rw [hinv.previous]
        exact hprevious

end Invariant

end MotifChess.Db.PositionPostings
