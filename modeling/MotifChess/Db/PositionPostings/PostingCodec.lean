/- GID: MotifChess/Db/PositionPostings/PostingCodec
   generality: implementation
   digest: Posting blocks have one spelling, and their three decoders read the same groups. -/

import MotifChess.Db.PositionPostings.Answers
import MotifChess.Db.PositionPostings.Assemble

set_option autoImplicit false
set_option relaxedAutoImplicit false

namespace MotifChess.Db.PositionPostings

open Codec Order.Runs

section Spelling

variable {σ : Type} (visitor : PostingVisitor σ)

private theorem decodePlies_spelling {id count ply : ℕ} {scan scan' : PostingScan σ}
    {input rest : List UInt8} (hply : ply < 2 ^ 16)
    (h : decodePlies visitor id count ply scan input = some (scan', rest)) :
    ∃ plies : List ℕ, plies.length = count ∧ (ply :: plies).IsChain (· ≠ ·) ∧
      (∀ p ∈ plies, p < 2 ^ 16) ∧ input = plyDeltaBytes (ply :: plies) ++ rest ∧
      scan' = plies.foldl (fun scan ply => scan.visit visitor.later id ply) scan := by
  induction count generalizing ply scan input with
  | zero =>
    obtain ⟨rfl, rfl⟩ := Prod.mk.inj (Option.some.inj h)
    exact ⟨[], rfl, by simp, by simp, by simp, rfl⟩
  | succ count ih =>
    simp only [decodePlies, Option.bind_eq_bind, Option.bind_eq_some_iff, Option.guard_eq_some',
      Prod.exists, exists_const] at h
    obtain ⟨delta, input', hread, ⟨hne, hle⟩, hrest⟩ := h
    obtain ⟨rfl, hdelta⟩ := readUleb128_eq_some.mp hread
    have hply64 : ply < 2 ^ 64 := by omega
    have hback := wrappingSub_wrappingAdd hply64 hdelta
    generalize wrappingAdd 64 ply delta = next at *
    have hnext : next < 2 ^ 16 := by
      unfold uint16Max at hle
      omega
    obtain ⟨plies, hlength, hchain, hbound, rfl, rfl⟩ := ih hnext hrest
    refine ⟨next :: plies, by simp [hlength], ?_, ?_, ?_, rfl⟩
    · refine List.isChain_cons_cons.mpr ⟨?_, hchain⟩
      rintro rfl
      rw [wrappingSub_eq le_rfl hply64, Nat.sub_self] at hback
      exact hne hback.symm
    · exact List.forall_mem_cons.mpr ⟨hnext, hbound⟩
    · rw [plyDeltaBytes_cons, hback, writeUleb128_eq, List.append_assoc]

private theorem decodeGameGroups_spelling {count : ℕ} {previous : Option ℕ} {scan scan' : PostingScan σ}
    {input rest : List UInt8}
    (h : decodeGameGroups visitor count previous.isNone (previous.getD 0) scan input =
      some (scan', rest)) :
    ∃ groups : GameGroups, groups.length = count ∧ GroupsSpelled groups ∧
      (∀ p ∈ previous, ∀ g ∈ groups, p < g.1) ∧ input = postingBytes previous groups ++ rest ∧
      groups.foldlM (visitGame visitor) scan = some scan' := by
  induction count generalizing previous scan input with
  | zero =>
    obtain ⟨rfl, rfl⟩ := Prod.mk.inj (Option.some.inj h)
    refine ⟨[], rfl, ?_, by simp, by simp [postingBytes], rfl⟩
    constructor <;> simp
  | succ count ih =>
    simp only [decodeGameGroups, Option.bind_eq_bind, Option.bind_eq_some_iff,
      Option.guard_eq_some', Prod.exists, exists_const] at h
    obtain ⟨idDelta, _, hid, ⟨hfresh, -⟩, ⟨hidNe, hidLe⟩, plyCount, _, hcount, hcountNe, first, _,
      hfirst, hfirstLe, scan₁, input₁, hplies, output, hend, hrest⟩ := h
    have hfirstLt : first < 2 ^ 16 := by
      unfold uint16Max at hfirstLe
      omega
    have hidLt : previous.getD 0 + idDelta < 2 ^ 32 := by
      unfold uint32Max at hidLe
      omega
    obtain ⟨plies, hlength, hchain, hbound, rfl, rfl⟩ :=
      decodePlies_spelling visitor hfirstLt hplies
    obtain ⟨groups, rfl, hgroups, hlater, rfl, hfold⟩ :=
      @ih (some (previous.getD 0 + idDelta)) _ _ hrest
    obtain ⟨rfl, -⟩ := readUleb128_eq_some.mp hid
    obtain ⟨rfl, hcountLt⟩ := readUleb128_eq_some.mp hcount
    obtain ⟨rfl, -⟩ := readUleb128_eq_some.mp hfirst
    have hnew : ∀ p ∈ previous, p < previous.getD 0 + idDelta := by
      intro p hp
      obtain rfl : previous = some p := hp
      have hne : idDelta ≠ 0 := by simpa using hfresh
      rw [Option.getD_some]
      omega
    have hplyCount : (first :: plies).length = plyCount := by
      rw [List.length_cons, hlength]
      omega
    refine ⟨(previous.getD 0 + idDelta, first :: plies) :: groups, rfl, ?_, ?_, ?_, ?_⟩
    · constructor
      · refine List.pairwise_cons.mpr ⟨?_, hgroups.ascending⟩
        intro id hmem
        obtain ⟨g, hg, rfl⟩ := List.mem_map.mp hmem
        exact hlater _ rfl g hg
      · exact List.forall_mem_cons.mpr ⟨Nat.pos_of_ne_zero hidNe, hgroups.id_pos⟩
      · exact List.forall_mem_cons.mpr ⟨hidLt, hgroups.id_lt⟩
      · exact List.forall_mem_cons.mpr ⟨List.cons_ne_nil _ _, hgroups.plies_ne⟩
      · exact List.forall_mem_cons.mpr ⟨hchain, hgroups.plies_chain⟩
      · exact List.forall_mem_cons.mpr
          ⟨List.forall_mem_cons.mpr ⟨hfirstLt, hbound⟩, hgroups.ply_lt⟩
      · exact List.forall_mem_cons.mpr ⟨hplyCount ▸ hcountLt, hgroups.length_lt⟩
    · intro p hp g hg
      rcases List.mem_cons.mp hg with rfl | hg
      · exact hnew p hp
      · exact (hnew p hp).trans (hlater _ rfl g hg)
    · have hdelta : previous.elim (previous.getD 0 + idDelta)
          (wrappingSub 32 (previous.getD 0 + idDelta)) = idDelta := by
        cases previous with
        | none => simp
        | some p =>
          have hlt : p + idDelta < 2 ^ 32 := hidLt
          rw [Option.elim_some, Option.getD_some, wrappingSub_eq (by omega) hlt]
          omega
      rw [postingBytes, gameGroupBytes, hdelta, hplyCount]
      simp only [writeUleb128_eq, List.headD_cons, List.append_assoc]
    · have hgame : visitGame visitor scan (previous.getD 0 + idDelta, first :: plies) =
          some { plies.foldl (fun scan ply => scan.visit visitor.later (previous.getD 0 + idDelta) ply)
            (scan.visit visitor.first (previous.getD 0 + idDelta) first) with output } := by
        rw [visitGame, visitPlies]
        simp only [List.tail_cons, List.headD_cons, hplyCount, hend, Option.bind_eq_bind,
          Option.bind_some, Option.pure_def]
      rw [List.foldlM_cons, hgame]
      exact hfold

private theorem decodePostingBlock_spelling {init output : σ} {bytes : List UInt8}
    {entry : DirectoryBlockEntry} (h : decodePostingBlock visitor init bytes entry = .ok output) :
    ∃ groups : GameGroups, GroupsSpelled groups ∧ bytes = postingBytes none groups ∧
      groups.foldlM (visitOutput visitor) init = some output ∧
      visitor.total output = entry.occurrenceCount ∧ entry.distinctGameCount = groups.length ∧
      entry.minPly = (groupPlies groups).foldl min uint16Max ∧
      entry.maxPly = (groupPlies groups).foldl max 0 := by
  unfold decodePostingBlock at h
  split at h
  next scan hscan =>
    split_ifs at h with hcounts
    obtain ⟨htotal, hmin, hmax⟩ := hcounts
    obtain ⟨groups, hlength, hgroups, -, hbytes, hfold⟩ :=
      @decodeGameGroups_spelling _ visitor _ none _ _ _ _ hscan
    rw [foldlM_visitGame visitor hgroups.plies_ne] at hfold
    obtain ⟨output', houtput, rfl⟩ := Option.map_eq_some_iff.mp hfold
    obtain rfl := Except.ok.inj h
    exact ⟨groups, hgroups, by simpa using hbytes, houtput, htotal, hlength.symm, hmin.symm,
      hmax.symm⟩
  next => cases h

end Spelling

section Decoders

/-- The bytes spell groups of games, and the entry has their counts. -/
structure Spells (bytes : List UInt8) (entry : DirectoryBlockEntry) (groups : GameGroups) :
    Prop where
  groupsSpelled : GroupsSpelled groups
  bytes_eq : bytes = postingBytes none groups
  describes : Describes entry groups

variable {bytes : List UInt8} {entry : DirectoryBlockEntry}

/-- The visitor counts each ply of a game. -/
def PostingVisitor.CountsPlies {σ : Type} (visitor : PostingVisitor σ) : Prop :=
  ∀ output group output', group.2 ≠ [] → visitOutput visitor output group = some output' →
    visitor.total output' = visitor.total output + group.2.length

private theorem total_of_foldlM {σ : Type} {visitor : PostingVisitor σ}
    (hcounts : visitor.CountsPlies) {groups : GameGroups} (hne : ∀ g ∈ groups, g.2 ≠ [])
    {output output' : σ} (h : groups.foldlM (visitOutput visitor) output = some output') :
    visitor.total output' = visitor.total output + (groupPlies groups).length := by
  induction groups generalizing output with
  | nil =>
    obtain rfl := Option.some.inj h
    rfl
  | cons group groups ih =>
    rw [List.foldlM_cons] at h
    obtain ⟨next, hnext, hrest⟩ := Option.bind_eq_some_iff.mp h
    rw [ih (fun g hg => hne g (List.mem_cons_of_mem _ hg)) hrest,
      hcounts _ _ _ (hne group List.mem_cons_self) hnext, groupPlies, groupPlies,
      List.flatMap_cons, List.length_append]
    omega

private theorem spells_of_decodePostingBlock {σ : Type} {visitor : PostingVisitor σ}
    (hcounts : visitor.CountsPlies) {init output : σ} (hinit : visitor.total init = 0)
    (h : decodePostingBlock visitor init bytes entry = .ok output) :
    ∃ groups, Spells bytes entry groups := by
  obtain ⟨groups, hgroups, hbytes, hfold, htotal, hdistinct, hmin, hmax⟩ :=
    decodePostingBlock_spelling visitor h
  have hlength := total_of_foldlM hcounts hgroups.plies_ne hfold
  refine ⟨groups, hgroups, hbytes, hdistinct, ?_, hmin, hmax⟩
  omega

private theorem windowVisitor_counts (begin' count : ℕ) :
    (windowVisitor begin' count).CountsPlies := by
  intro output group output' hne h
  obtain ⟨id, plies⟩ := group
  have hstep : ∀ s o, (appendIfRequested begin' count s o).occurrenceIndex =
      s.occurrenceIndex + 1 := by
    intro s o
    unfold appendIfRequested
    split <;> rfl
  have hfold : ∀ (s : WindowState) (plies : List ℕ), (plies.foldl (fun s ply =>
      appendIfRequested begin' count s ⟨UInt32.ofNat id, UInt16.ofNat ply⟩) s).occurrenceIndex =
        s.occurrenceIndex + plies.length := by
    intro s plies
    induction plies generalizing s with
    | nil => rfl
    | cons ply plies ih =>
      rw [List.foldl_cons, ih, hstep, List.length_cons]
      omega
  obtain ⟨ply, plies, rfl⟩ := List.exists_cons_of_ne_nil hne
  obtain rfl := Option.some.inj h
  have hrest := hfold (appendIfRequested begin' count output ⟨UInt32.ofNat id, UInt16.ofNat ply⟩)
    plies
  rw [hstep] at hrest
  show WindowState.occurrenceIndex _ = output.occurrenceIndex + (plies.length + 1)
  exact hrest.trans (by omega)

private theorem gameIdsVisitor_counts : gameIdsVisitor.CountsPlies := by
  intro output group output' hne h
  have hkeep : ∀ (s : GameIdsState) (plies : List ℕ), plies.foldl (fun s ply =>
      gameIdsVisitor.later s ⟨UInt32.ofNat group.1, UInt16.ofNat ply⟩) s = s :=
    fun s plies => List.foldl_fixed' (fun _ => rfl) plies
  rw [visitOutput, hkeep] at h
  obtain ⟨total, htotal, h⟩ := Option.bind_eq_some_iff.mp h
  obtain rfl := Option.some.inj h
  exact (checkedAdd_eq_some.mp htotal).1

private theorem firstOccurrencesVisitor_counts (requested : List UInt32) :
    (firstOccurrencesVisitor requested).CountsPlies := by
  intro output group output' hne h
  have hkeep : ∀ (s : FirstOccurrencesState) (plies : List ℕ), plies.foldl (fun s ply =>
      (firstOccurrencesVisitor requested).later s ⟨UInt32.ofNat group.1, UInt16.ofNat ply⟩) s = s :=
    fun s plies => List.foldl_fixed' (fun _ => rfl) plies
  rw [visitOutput, hkeep] at h
  obtain ⟨total, htotal, h⟩ := Option.bind_eq_some_iff.mp h
  obtain rfl := Option.some.inj h
  have hfirst : ∀ o, ((firstOccurrencesVisitor requested).first output o).totalOccurrences =
      output.totalOccurrences := by
    intro o
    simp only [firstOccurrencesVisitor]
    split <;> rfl
  rw [hfirst] at htotal
  exact (checkedAdd_eq_some.mp htotal).1

end Decoders

section Agreement

/-- The rows of a page; no limit is a limit of zero. -/
def page {α : Type} (limit skip : ℕ) (rows : List α) : List α :=
  if limit = 0 then rows.drop skip else (rows.drop skip).take limit

/-- What the other decoders answer when the full one answers `full`. -/
structure Accept (bytes : List UInt8) (entry : DirectoryBlockEntry) (full : List Occurrence) :
    Prop where
  window : ∀ limit skip,
    decodePostingBlockWindow bytes entry limit skip = .ok (page limit skip full)
  gameIds : ∃ ids, decodePostingBlockGameIds bytes entry = .ok ids ∧ ids.Pairwise (· < ·) ∧
    ∀ id, id ∈ ids ↔ ∃ o ∈ full, o.id = id
  firstOccurrences : ∀ requested, ∃ firsts,
    decodePostingBlockFirstOccurrences bytes entry requested = .ok firsts ∧
      (firsts.map Occurrence.id).Pairwise (· < ·) ∧ firsts ⊆ full ∧
      ∀ id, (∃ o ∈ firsts, o.id = id) ↔ id ∈ requested ∧ ∃ o ∈ full, o.id = id

/-- The decoders accept, and each first occurrence is the lowest ply of its game. -/
structure Agree (bytes : List UInt8) (entry : DirectoryBlockEntry) (full : List Occurrence) : Prop
    extends Accept bytes entry full where
  lowest : ∀ requested firsts, decodePostingBlockFirstOccurrences bytes entry requested = .ok firsts →
    ∀ o ∈ firsts, ∀ o' ∈ full, o'.id = o.id → o.ply ≤ o'.ply

/-- Every decoder rejects the block. -/
structure Reject (bytes : List UInt8) (entry : DirectoryBlockEntry) : Prop where
  window : ∀ limit skip,
    decodePostingBlockWindow bytes entry limit skip = .error .schemaMismatch
  gameIds : decodePostingBlockGameIds bytes entry = .error .schemaMismatch
  firstOccurrences : ∀ requested,
    decodePostingBlockFirstOccurrences bytes entry requested = .error .schemaMismatch

private theorem ofNat_id_inj {id id' : ℕ} (hid : id < 2 ^ 32) (hid' : id' < 2 ^ 32)
    (h : UInt32.ofNat id = UInt32.ofNat id') : id = id' := by
  have hnat := congrArg UInt32.toNat h
  simp only [UInt32.toNat_ofNat'] at hnat
  omega

private theorem ofNat_ply_le {ply ply' : ℕ} (hply' : ply' < 2 ^ 16) (h : ply ≤ ply') :
    UInt16.ofNat ply ≤ UInt16.ofNat ply' := by
  rw [UInt16.le_iff_toNat_le, UInt16.toNat_ofNat', UInt16.toNat_ofNat']
  omega

private theorem GroupsSpelled.pairwise_ids {groups : GameGroups} (h : GroupsSpelled groups) :
    (groups.map fun g => UInt32.ofNat g.1).Pairwise (· < ·) := by
  rw [List.pairwise_map]
  refine (List.pairwise_map.mp h.ascending).imp_of_mem ?_
  intro g g' hg hg' hlt
  have hid := h.id_lt g hg
  have hid' := h.id_lt g' hg'
  rw [UInt32.lt_iff_toNat_lt, UInt32.toNat_ofNat', UInt32.toNat_ofNat']
  omega

private theorem GroupsSpelled.mem_ids {groups : GameGroups} (h : GroupsSpelled groups) {id : UInt32} :
    (∃ o ∈ occurrencesOf groups, o.id = id) ↔ ∃ g ∈ groups, UInt32.ofNat g.1 = id := by
  constructor
  · intro ⟨o, ho, hid⟩
    obtain ⟨g, hg, ho⟩ := List.mem_flatMap.mp ho
    obtain ⟨ply, -, rfl⟩ := List.mem_map.mp ho
    exact ⟨g, hg, hid⟩
  · intro ⟨g, hg, hid⟩
    obtain ⟨ply, plies, hplies⟩ := List.exists_cons_of_ne_nil (h.plies_ne g hg)
    refine ⟨⟨UInt32.ofNat g.1, UInt16.ofNat ply⟩, ?_, hid⟩
    refine List.mem_flatMap.mpr ⟨g, hg, List.mem_map.mpr ⟨ply, ?_, rfl⟩⟩
    rw [hplies]
    exact List.mem_cons_self

private theorem GroupsSpelled.first_mem {groups : GameGroups} (h : GroupsSpelled groups) {g : ℕ × List ℕ}
    (hg : g ∈ groups) :
    (⟨UInt32.ofNat g.1, UInt16.ofNat (g.2.headD 0)⟩ : Occurrence) ∈ occurrencesOf groups := by
  obtain ⟨ply, plies, hplies⟩ := List.exists_cons_of_ne_nil (h.plies_ne g hg)
  refine List.mem_flatMap.mpr ⟨g, hg, List.mem_map.mpr ⟨ply, ?_, by rw [hplies, List.headD_cons]⟩⟩
  rw [hplies]
  exact List.mem_cons_self

private theorem GroupsSpelled.ply_mem {groups : GameGroups} (h : GroupsSpelled groups) {g : ℕ × List ℕ}
    (hg : g ∈ groups) {o : Occurrence} (ho : o ∈ occurrencesOf groups)
    (hid : o.id = UInt32.ofNat g.1) : ∃ ply ∈ g.2, o.ply = UInt16.ofNat ply := by
  obtain ⟨g', hg', ho⟩ := List.mem_flatMap.mp ho
  obtain ⟨ply, hply, rfl⟩ := List.mem_map.mp ho
  have hnodup : (groups.map Prod.fst).Nodup := h.ascending.imp fun hlt => hlt.ne
  have hsame : g' = g :=
    List.inj_on_of_nodup_map hnodup hg' hg (ofNat_id_inj (h.id_lt g' hg') (h.id_lt g hg) hid)
  exact ⟨ply, hsame ▸ hply, rfl⟩

theorem Spells.accept {bytes : List UInt8} {entry : DirectoryBlockEntry} {groups : GameGroups}
    (h : Spells bytes entry groups) (hcount : entry.occurrenceCount < 2 ^ 32) :
    Accept bytes entry (occurrencesOf groups) ∧
      ∀ requested, decodePostingBlockFirstOccurrences bytes entry requested =
        .ok (firstOccurrencesOf requested groups) := by
  obtain ⟨hgroups, rfl, hentry⟩ := h
  have hfit : (groupPlies groups).length ≤ uint64Max := by
    rw [← hentry.occurrence, uint64Max]
    omega
  have hfirsts := decodePostingBlockFirstOccurrences_bytes hgroups hentry hfit
  refine ⟨?_, hfirsts⟩
  constructor
  · intro limit skip
    rw [decodePostingBlockWindow_bytes hgroups hentry, page]
  · refine ⟨_, decodePostingBlockGameIds_bytes hgroups hentry hfit, hgroups.pairwise_ids, ?_⟩
    intro id
    rw [hgroups.mem_ids, List.mem_map]
  · intro requested
    refine ⟨_, hfirsts requested, ?_, ?_, ?_⟩
    · rw [firstOccurrencesOf, List.map_map]
      exact hgroups.pairwise_ids.sublist (List.filter_sublist.map _)
    · intro o ho
      obtain ⟨g, hg, rfl⟩ := List.mem_map.mp ho
      exact hgroups.first_mem (List.mem_filter.mp hg).1
    · intro id
      rw [hgroups.mem_ids]
      simp only [firstOccurrencesOf, List.mem_map, List.mem_filter, decide_eq_true_eq]
      constructor
      · rintro ⟨o, ⟨g, ⟨hg, hmem⟩, rfl⟩, rfl⟩
        exact ⟨hmem, g, hg, rfl⟩
      · rintro ⟨hmem, g, hg, rfl⟩
        exact ⟨_, ⟨g, ⟨hg, hmem⟩, rfl⟩, rfl⟩

private theorem decodePostingBlock_cases {σ : Type} (visitor : PostingVisitor σ) (init : σ)
    (bytes : List UInt8) (entry : DirectoryBlockEntry) :
    (∃ output, decodePostingBlock visitor init bytes entry = .ok output) ∨
      decodePostingBlock visitor init bytes entry = .error .schemaMismatch := by
  unfold decodePostingBlock
  split
  · split_ifs
    · exact Or.inl ⟨_, rfl⟩
    · exact Or.inr rfl
  · exact Or.inr rfl

private theorem reject_of_not_spells {bytes : List UInt8} {entry : DirectoryBlockEntry}
    (h : ¬∃ groups, Spells bytes entry groups) : Reject bytes entry := by
  constructor
  · intro limit skip
    rcases decodePostingBlock_cases (windowVisitor _ _) ⟨[], 0⟩ bytes entry with ⟨output, hok⟩ | herror
    · exact absurd (spells_of_decodePostingBlock (windowVisitor_counts _ _) rfl hok) h
    · rw [decodePostingBlockWindow, herror]
      rfl
  · rcases decodePostingBlock_cases gameIdsVisitor ⟨[], 0⟩ bytes entry with ⟨output, hok⟩ | herror
    · exact absurd (spells_of_decodePostingBlock gameIdsVisitor_counts rfl hok) h
    · rw [decodePostingBlockGameIds, herror]
      rfl
  · intro requested
    rcases decodePostingBlock_cases (firstOccurrencesVisitor _) ⟨[], 0⟩ bytes entry with
      ⟨output, hok⟩ | herror
    · exact absurd (spells_of_decodePostingBlock (firstOccurrencesVisitor_counts _) rfl hok) h
    · rw [decodePostingBlockFirstOccurrences, herror]
      rfl

end Agreement

section Written

/-- Game ids and plies of one position, ascending and inside the widths of their fields. -/
structure PositionsOk (occurrences : List (ℕ × ℕ)) : Prop where
  ascending : occurrences.Pairwise (Prod.Lex (· < ·) (· < ·))
  game_pos : ∀ o ∈ occurrences, 0 < o.1
  game_lt : ∀ o ∈ occurrences, o.1 < 2 ^ 32
  ply_lt : ∀ o ∈ occurrences, o.2 < 2 ^ 16

def positionRecords (hash : ℕ) (occurrences : List (ℕ × ℕ)) : List Record :=
  occurrences.map fun o => ⟨hash, o.1, o.2⟩

/-- The state of the merge after it has written the postings of one position. -/
def writePosition (hash : ℕ) (occurrences : List (ℕ × ℕ)) : MergeState :=
  ((positionRecords hash occurrences).foldl MergeState.visit .init).flushHash

/-- What the merge has written of the postings of one position. -/
def writtenPostings (hash : ℕ) (occurrences : List (ℕ × ℕ)) : List UInt8 :=
  (writePosition hash occurrences).output.drop fixedHeaderSize

variable {hash : ℕ} {occurrences : List (ℕ × ℕ)}

theorem PositionsOk.groupsOk (h : PositionsOk occurrences) : GroupsOk (groupRuns occurrences) := by
  by_cases hne : occurrences = []
  · subst hne
    constructor <;> simp [groupRuns, Grouping.finish, Grouping.empty]
  · have hgroup : GroupOk (0, occurrences) :=
      ⟨by norm_num, hne, h.ascending, h.game_pos, h.game_lt, h.ply_lt⟩
    exact hgroup.groupsOk

private theorem grouping_position (hne : occurrences ≠ []) :
    grouping ((positionRecords hash occurrences).map Record.pair) = ⟨[], some (hash, occurrences)⟩ := by
  induction occurrences using List.reverseRecOn with
  | nil => exact absurd rfl hne
  | append_singleton occurrences o ih =>
    simp only [positionRecords, List.map_append, List.map_singleton] at ih ⊢
    rw [grouping_concat]
    by_cases hnil : occurrences = []
    · subst hnil
      rfl
    · rw [ih hnil]
      exact if_pos rfl

theorem PositionsOk.merged (hash : ℕ) (h : PositionsOk occurrences) :
    MergeInv (positionRecords hash occurrences)
      ((positionRecords hash occurrences).foldl MergeState.visit .init) := by
  have hsorted : (positionRecords hash occurrences).Pairwise (· < ·) := by
    rw [positionRecords, List.pairwise_map]
    refine h.ascending.imp ?_
    intro o o' hlt
    show Record.key _ < Record.key _
    rw [Record.key, Record.key, Prod.Lex.toLex_lt_toLex, Prod.Lex.toLex_lt_toLex]
    exact Or.inr ⟨rfl, Prod.lex_def.mp hlt⟩
  have hply : ∀ r ∈ positionRecords hash occurrences, r.ply ≤ uint16Max := by
    intro r hr
    obtain ⟨o, ho, rfl⟩ := List.mem_map.mp hr
    have hlt := h.ply_lt o ho
    show o.2 ≤ uint16Max
    unfold uint16Max
    omega
  obtain ⟨kept, hkept, hmem, hinv⟩ := exists_mergeInv (hsorted.imp fun hlt => hlt.le) hply
  obtain rfl : kept = positionRecords hash occurrences := eq_of_pairwise_lt hkept hsorted hmem
  exact hinv

theorem PositionsOk.written (h : PositionsOk occurrences) :
    writtenPostings hash occurrences = postingBytes none (groupRuns occurrences) ∧
      (occurrences ≠ [] → ∃ entry, (writePosition hash occurrences).pending = [entry] ∧
        Describes entry (groupRuns occurrences)) := by
  obtain ⟨hboundary, -, -⟩ := (h.merged hash).flushHash
  by_cases hne : occurrences = []
  · subst hne
    exact ⟨rfl, fun hnot => absurd rfl hnot⟩
  have hgroups : groupRuns ((positionRecords hash occurrences).map Record.pair) =
      [(hash, occurrences)] := by
    rw [groupRuns, grouping_position hne]
    rfl
  rw [hgroups] at hboundary
  constructor
  · rw [writtenPostings, writePosition, hboundary.output, List.drop_left' (by simp)]
    simp [groupBytes]
  · intro _
    obtain ⟨blocks, hfull, hlist, -⟩ := hboundary.directory
    refine ⟨entryOf fixedHeaderSize (hash, occurrences), ?_, describes_entryOf _ _⟩
    have hblocks : blocks = [] := by
      by_contra hsome
      obtain ⟨block, rest, rfl⟩ := List.exists_cons_of_ne_nil hsome
      have hlength := congrArg List.length hlist
      have hblock := hfull block List.mem_cons_self
      simp only [List.flatten_cons, List.length_append, hblock, entriesFrom, List.length_cons,
        List.length_nil, maxDirectoryBlockEntries] at hlength
      omega
    rw [hblocks] at hlist
    exact hlist

end Written

section FallingBack

/-- The ply deltas of a block as they stand in its bytes: added to the first ply of their game one
after another, they never pass `2 ^ 64` (so that the 64-bit sum of the decoders would fall below the
first ply). -/
def NeverFallsBack (bytes : List UInt8) (entry : DirectoryBlockEntry) : Prop :=
  ∀ groups, Spells bytes entry groups → ∀ g ∈ groups, ∀ count,
    g.2.headD 0 + ((plyDeltas g.2).take count).sum % 2 ^ 64 < 2 ^ 64

private theorem below_iff {first ply sum : ℕ} (hfirst : first < 2 ^ 16)
    (hply : (first + sum) % 2 ^ 64 = ply) : first + sum % 2 ^ 64 < 2 ^ 64 ↔ first ≤ ply := by
  omega

/-- A ply that is reached lies below the first one exactly when the sum of the deltas before it has
come round. -/
private theorem fallsBack_iff {first sum ply : ℕ} {plies : List ℕ} (hfirst : first < 2 ^ 16)
    (hply : (first + sum) % 2 ^ 64 = ply) (hlt : ∀ p ∈ ply :: plies, p < 2 ^ 16) :
    (∀ count, first + (sum + ((plyDeltas (ply :: plies)).take count).sum) % 2 ^ 64 < 2 ^ 64) ↔
      ∀ p ∈ ply :: plies, first ≤ p := by
  induction plies generalizing sum ply with
  | nil =>
    have hbelow := below_iff hfirst hply
    simpa [plyDeltas] using hbelow
  | cons next plies ih =>
    have hnext : (first + (sum + wrappingSub 64 next ply)) % 2 ^ 64 = next := by
      have hply16 := hlt ply List.mem_cons_self
      have hnext16 := hlt next (by simp)
      have hply64 : ply < 2 ^ 64 := by omega
      have hnext64 : next < 2 ^ 64 := by omega
      rw [← Nat.add_assoc, ← Nat.mod_add_mod, hply]
      exact wrappingAdd_wrappingSub hnext64 hply64
    have htail := ih hnext fun p hp => hlt p (List.mem_cons_of_mem _ hp)
    rw [List.forall_mem_cons, ← htail, ← below_iff hfirst hply]
    constructor
    · intro h
      refine ⟨by simpa using h 0, fun count => ?_⟩
      simpa [plyDeltas, Nat.add_assoc] using h (count + 1)
    · rintro ⟨hzero, hsucc⟩ count
      cases count with
      | zero => simpa using hzero
      | succ count => simpa [plyDeltas, Nat.add_assoc] using hsucc count

variable {bytes : List UInt8} {entry : DirectoryBlockEntry} {groups : GameGroups}

private theorem toNat_ply {ply : ℕ} (h : ply < 2 ^ 16) : (UInt16.ofNat ply).toNat = ply := by
  rw [UInt16.toNat_ofNat', Nat.mod_eq_of_lt h]

private theorem GroupsSpelled.advances_iff (h : GroupsSpelled groups) {g : ℕ × List ℕ} (hg : g ∈ groups) :
    (∀ count, g.2.headD 0 + ((plyDeltas g.2).take count).sum % 2 ^ 64 < 2 ^ 64) ↔
      ∀ ply ∈ g.2, g.2.headD 0 ≤ ply := by
  obtain ⟨first, plies, hplies⟩ := List.exists_cons_of_ne_nil (h.plies_ne g hg)
  have hlt := h.ply_lt g hg
  rw [hplies] at hlt ⊢
  have hfirst : first < 2 ^ 16 := hlt first List.mem_cons_self
  have hstart : (first + 0) % 2 ^ 64 = first := by
    rw [Nat.add_zero, Nat.mod_eq_of_lt (by omega)]
  simpa only [List.headD_cons, Nat.zero_add] using fallsBack_iff hfirst hstart hlt

private theorem Spells.agree (h : Spells bytes entry groups) (hcount : entry.occurrenceCount < 2 ^ 32)
    (hadvance : ∀ g ∈ groups, ∀ ply ∈ g.2, g.2.headD 0 ≤ ply) :
    Agree bytes entry (occurrencesOf groups) := by
  obtain ⟨haccept, hfirsts⟩ := h.accept hcount
  refine ⟨haccept, ?_⟩
  intro requested firsts hread o ho o' ho' hid
  obtain rfl := Except.ok.inj ((hfirsts requested).symm.trans hread)
  obtain ⟨g, hg, rfl⟩ := List.mem_map.mp ho
  have hgroup := (List.mem_filter.mp hg).1
  obtain ⟨ply, hply, hread'⟩ := h.groupsSpelled.ply_mem hgroup ho' hid
  have hbound := h.groupsSpelled.ply_lt g hgroup ply hply
  rw [hread']
  exact ofNat_ply_le hbound (hadvance g hgroup ply hply)

private theorem Agree.advances {full : List Occurrence} (h : Agree bytes entry full)
    (hspells : Spells bytes entry groups) (hcount : entry.occurrenceCount < 2 ^ 32)
    {g : ℕ × List ℕ} (hg : g ∈ groups) : ∀ ply ∈ g.2, g.2.headD 0 ≤ ply := by
  intro ply hply
  obtain ⟨haccept, hfirsts⟩ := hspells.accept hcount
  have hfull : occurrencesOf groups = full :=
    Except.ok.inj ((haccept.window 0 0).symm.trans (h.window 0 0))
  have hfirst : (⟨UInt32.ofNat g.1, UInt16.ofNat (g.2.headD 0)⟩ : Occurrence) ∈
      firstOccurrencesOf [UInt32.ofNat g.1] groups :=
    List.mem_map.mpr ⟨g, List.mem_filter.mpr ⟨hg, by simp⟩, rfl⟩
  have hlater : (⟨UInt32.ofNat g.1, UInt16.ofNat ply⟩ : Occurrence) ∈ full := by
    rw [← hfull]
    exact List.mem_flatMap.mpr ⟨g, hg, List.mem_map.mpr ⟨ply, hply, rfl⟩⟩
  have hle := h.lowest _ _ (hfirsts _) _ hfirst _ hlater rfl
  obtain ⟨first, plies, hplies⟩ := List.exists_cons_of_ne_nil (hspells.groupsSpelled.plies_ne g hg)
  have hbound := hspells.groupsSpelled.ply_lt g hg
  have hheadBound : g.2.headD 0 < 2 ^ 16 := by
    rw [hplies, List.headD_cons]
    exact hbound first (by rw [hplies]; exact List.mem_cons_self)
  rw [UInt16.le_iff_toNat_le, toNat_ply hheadBound, toNat_ply (hbound ply hply)] at hle
  exact hle

end FallingBack

/-- Whatever the bytes are, the three decoders reject them together or answer from the same
occurrences. -/
private theorem accept_or_reject {bytes : List UInt8} {entry : DirectoryBlockEntry}
    (hcount : entry.occurrenceCount < 2 ^ 32) :
    Reject bytes entry ∨ ∃ full, Accept bytes entry full := by
  by_cases hspells : ∃ groups, Spells bytes entry groups
  · obtain ⟨groups, hspells⟩ := hspells
    exact Or.inr ⟨_, (hspells.accept hcount).1⟩
  · exact Or.inl (reject_of_not_spells hspells)

private theorem not_reject {bytes : List UInt8} {entry : DirectoryBlockEntry} {groups : GameGroups}
    (hspells : Spells bytes entry groups) (hcount : entry.occurrenceCount < 2 ^ 32) :
    ¬Reject bytes entry := by
  intro hreject
  have hok := (hspells.accept hcount).1.window 0 0
  rw [hreject.window 0 0] at hok
  cases hok

/-- What the merge writes for a position decodes to it. Any other bytes the three decoders reject
together or answer alike, and the first occurrences are the lowest exactly when no ply delta makes
the 64-bit sum of a ply come round. -/
theorem postingBlock_decoders (hash : ℕ) (occurrences : List (ℕ × ℕ)) (bytes : List UInt8)
    (entry : DirectoryBlockEntry) :
    (PositionsOk occurrences → Describes entry (groupRuns occurrences) →
      decodePostingBlockWindow (writtenPostings hash occurrences) entry 0 0 =
        .ok (occurrences.map fun o => ⟨UInt32.ofNat o.1, UInt16.ofNat o.2⟩)) ∧
    (PositionsOk occurrences → occurrences ≠ [] →
      ∃ written, (writePosition hash occurrences).pending = [written] ∧
        Describes written (groupRuns occurrences)) ∧
    (entry.occurrenceCount < 2 ^ 32 →
      (Reject bytes entry ∨ ∃ full, Accept bytes entry full) ∧
        ((Reject bytes entry ∨ ∃ full, Agree bytes entry full) ↔ NeverFallsBack bytes entry)) := by
  refine ⟨?_, ?_, ?_⟩
  · intro h hentry
    rw [h.written.1, decodePostingBlockWindow_bytes h.groupsOk.spelled hentry, if_pos rfl,
      List.drop_zero, occurrencesOf_groupRuns]
  · intro h hne
    exact h.written.2 hne
  · intro hcount
    refine ⟨accept_or_reject hcount, ?_, ?_⟩
    · rintro (hreject | ⟨full, hagree⟩) groups hspells g hg
      · exact absurd hreject (not_reject hspells hcount)
      · exact (hspells.groupsSpelled.advances_iff hg).mpr (hagree.advances hspells hcount hg)
    · intro hnever
      by_cases hspells : ∃ groups, Spells bytes entry groups
      · obtain ⟨groups, hspells⟩ := hspells
        refine Or.inr ⟨_, hspells.agree hcount fun g hg => ?_⟩
        exact (hspells.groupsSpelled.advances_iff hg).mp (hnever groups hspells g hg)
      · exact Or.inl (reject_of_not_spells hspells)

/-- Two games at one position, one of them twice. -/
theorem postingBlock_decoders_sample :
    let entry : DirectoryBlockEntry := ⟨7, 88, 7, 3, 2, 0, 8⟩
    let bytes := writtenPostings 7 [(3, 4), (3, 8), (5, 0)]
    decodePostingBlockWindow bytes entry 0 0 = .ok [⟨3, 4⟩, ⟨3, 8⟩, ⟨5, 0⟩] ∧
      NeverFallsBack bytes entry := by
  intro entry bytes
  have hok : PositionsOk [(3, 4), (3, 8), (5, 0)] :=
    ⟨by decide, by decide, by decide, by decide⟩
  have hentry : Describes entry (groupRuns [(3, 4), (3, 8), (5, 0)]) := ⟨rfl, rfl, rfl, rfl⟩
  have hspells : Spells bytes entry (groupRuns [(3, 4), (3, 8), (5, 0)]) :=
    ⟨hok.groupsOk.spelled, hok.written.1, hentry⟩
  have hdecoders := postingBlock_decoders 7 [(3, 4), (3, 8), (5, 0)] bytes entry
  refine ⟨hdecoders.1 hok hentry, ?_⟩
  exact (hdecoders.2.2 (by decide)).2.mp
    (Or.inr ⟨_, hspells.agree (by decide) (by decide)⟩)

/-- One game at ply 5, and after a delta of `2 ^ 64 - 3` at ply 2: every decoder accepts the block,
and the first occurrence is not the lowest. -/
theorem not_postingBlock_decoders :
    let entry : DirectoryBlockEntry := ⟨7, 88, 13, 2, 1, 2, 5⟩
    let bytes : List UInt8 := [1, 2, 5, 253, 255, 255, 255, 255, 255, 255, 255, 255, 1]
    decodePostingBlockWindow bytes entry 0 0 = .ok [⟨1, 5⟩, ⟨1, 2⟩] ∧
      decodePostingBlockFirstOccurrences bytes entry [1] = .ok [⟨1, 5⟩] ∧
      ¬(Reject bytes entry ∨ ∃ full, Agree bytes entry full) := by
  intro entry bytes
  have hwindow : decodePostingBlockWindow bytes entry 0 0 = .ok [⟨1, 5⟩, ⟨1, 2⟩] := by
    decide +kernel
  have hfirsts : decodePostingBlockFirstOccurrences bytes entry [1] = .ok [⟨1, 5⟩] := by
    decide +kernel
  refine ⟨hwindow, hfirsts, ?_⟩
  rintro (hreject | ⟨full, hagree⟩)
  · have herror := (hreject.window 0 0).symm.trans hwindow
    cases herror
  · obtain rfl : full = [⟨1, 5⟩, ⟨1, 2⟩] :=
      Except.ok.inj ((hagree.window 0 0).symm.trans hwindow)
    have hle := hagree.lowest [1] _ hfirsts ⟨1, 5⟩ (by simp) ⟨1, 2⟩ (by simp) rfl
    exact absurd hle (by decide)

end MotifChess.Db.PositionPostings
