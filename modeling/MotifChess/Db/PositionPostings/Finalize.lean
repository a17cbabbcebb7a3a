/- GID: MotifChess/Db/PositionPostings/Finalize
   generality: implementation
   digest: From append calls to answers: finalize publishes a file that answers as the rows prescribe. -/

import MotifChess.Db.PositionPostings.RoundTrip

set_option autoImplicit false
set_option relaxedAutoImplicit false

namespace MotifChess.Db.PositionPostings

open MotifChess.Order.Runs

/-- No file of the build outgrows the offsets of a stream, where a write fails. -/
structure StreamsFit (b : Builder) : Prop where
  spills : ∀ file ∈ b.spillCurrentBuffer.spillFiles, file.length < 2 ^ 63
  staged : ∀ file, stageArtifact b.spillCurrentBuffer = .ok file → file.length < 2 ^ 63

/-- Every position occurs fewer than 2^32 times. -/
def OccurrencesFit (rows : List PositionRow) : Prop :=
  ∀ hash, (occurrenceSet rows hash).card < 2 ^ 32

variable {rows : List PositionRow} {b : Builder}

theorem card_occurrenceSet_le (rows : List PositionRow) (hash : UInt64) :
    (occurrenceSet rows hash).card ≤ rows.length := by
  refine (List.toFinset_card_le _).trans ?_
  rw [List.length_map]
  exact List.length_filter_le _ _

theorem countsFit_iff {groups : List HashGroup} (h : GroupsOf rows groups) (offset : ℕ) :
    CountsFit (entriesFrom offset groups) ↔ OccurrencesFit rows := by
  have hcard : ∀ {hash : UInt64} {occ}, (hash.toNat, occ) ∈ groups →
      (occurrenceSet rows hash).card = occ.length := by
    intro hash occ hgroup
    have hlength := congrArg List.length (h.occurrencesAt_eq hgroup)
    rwa [occurrencesAt, Finset.length_sort, List.length_map] at hlength
  constructor
  · intro hfit hash
    by_cases hgroup : ∃ occ, (hash.toNat, occ) ∈ groups
    · obtain ⟨occ, hgroup⟩ := hgroup
      obtain ⟨front, back, hsplit⟩ := List.mem_iff_append.mp hgroup
      have hentry := hfit _ (mem_entriesFrom hsplit)
      rwa [hcard hgroup]
    · have hnil := h.occurrencesAt_eq_nil fun occ hocc => hgroup ⟨occ, hocc⟩
      have hlength := congrArg List.length hnil
      rw [occurrencesAt, Finset.length_sort] at hlength
      rw [hlength]
      simp
  · intro hfit e he
    obtain ⟨front, ⟨hash, occ⟩, back, hsplit, rfl⟩ := exists_split_of_mem_entriesFrom he
    have hgroup : (hash, occ) ∈ groups := by simp [hsplit]
    have hlt : hash < 2 ^ 64 := (h.ok _ hgroup).hash_lt
    have hhash : (UInt64.ofNat hash).toNat = hash := by
      rw [UInt64.toNat_ofNat', Nat.mod_eq_of_lt hlt]
    have hcount := hfit (UInt64.ofNat hash)
    rwa [hcard (by rwa [hhash])] at hcount

private theorem length_flatMap_groupRuns (kept : List Record) :
    ((groupRuns (kept.map Record.pair)).flatMap Prod.snd).length = kept.length := by
  have hungroup := congrArg List.length (ungroup_groupRuns (kept.map Record.pair))
  rw [List.length_map, ungroup, List.length_flatMap] at hungroup
  simpa [List.length_flatMap] using hungroup

theorem metadataOk_of_metadataOf {metadata : List (ℕ × GameMetadata)} (h : MetadataOf rows metadata)
    (hacc : Acceptable rows) : ∀ item ∈ metadata, MetadataOk item := by
  intro item hitem
  obtain ⟨row, hrow, rfl⟩ := h.mem_row item hitem
  exact ⟨Nat.pos_of_ne_zero fun hzero => hacc.id_ne row hrow (UInt32.toNat_inj.mp hzero),
    row.gameId.toNat_lt, hacc.result_range row hrow⟩

/-- What the merge leaves behind after visiting the records of `rows` in ascending order. -/
private abbrev finishedMerge (merged : List Record) : MergeState :=
  (merged.foldl MergeState.visit MergeState.init).flushHash.flushDirectoryBlock

/-- Records visited in ascending order leave the groups of their rows behind, with each occurrence
once. -/
theorem exists_finished {merged : List Record} (hperm : merged.Perm (rows.map Record.ofRow))
    (hsorted : merged.Pairwise (· ≤ ·)) (hids : ∀ row ∈ rows, row.gameId ≠ 0) :
    ∃ groups blocks, GroupsOf rows groups ∧ Finished groups blocks (finishedMerge merged) ∧
      (finishedMerge merged).totalOccurrences = (groups.flatMap Prod.snd).length ∧
      (groups.flatMap Prod.snd).length ≤ rows.length := by
  have hply : ∀ r ∈ merged, r.ply ≤ uint16Max := by
    intro r hr
    obtain ⟨row, _, rfl⟩ := List.mem_map.mp (hperm.mem_iff.mp hr)
    exact Nat.le_pred_of_lt row.ply.toNat_lt
  obtain ⟨kept, hkept, hmem, hmerge⟩ := exists_mergeInv hsorted hply
  obtain ⟨hboundary, htotal, _⟩ := hmerge.flushHash
  obtain ⟨blocks, hfinished, htotal'⟩ := hboundary.finished
  have hgroups : GroupsOf rows (groupRuns (kept.map Record.pair)) :=
    groupsOf_records hids hkept fun r => by rw [hmem, hperm.mem_iff]
  have hnodup : kept.Nodup := hkept.imp fun hlt => hlt.ne
  have hlength := (hnodup.subperm fun r hr => (hmem r).mp hr).length_le
  rw [hperm.length_eq, List.length_map] at hlength
  refine ⟨_, blocks, hgroups, hfinished, ?_, ?_⟩
  · rw [htotal', htotal, hmerge.total, length_flatMap_groupRuns]
  · rwa [length_flatMap_groupRuns]

theorem exists_assembled {merged : List Record} (hperm : merged.Perm (rows.map Record.ofRow))
    (hsorted : merged.Pairwise (· ≤ ·)) (hids : ∀ row ∈ rows, row.gameId ≠ 0)
    (hcount : b.indexedGameCount = b.gameMetadata.length)
    (hnodup : (b.gameMetadata.map Prod.fst).Nodup) (hmetadata : ∀ item ∈ b.gameMetadata, MetadataOk item)
    (hsize : (assembleArtifact b (finishedMerge merged)).length < 2 ^ 63) :
    ∃ groups blocks, GroupsOf rows groups ∧ Assembled groups blocks b (finishedMerge merged) := by
  obtain ⟨groups, blocks, hgroups, hfinished, htotal, -⟩ := exists_finished hperm hsorted hids
  exact ⟨groups, blocks, hgroups,
    { finished := hfinished
      total := htotal
      ascending := hgroups.ascending
      groupOk := hgroups.ok
      gameCount := hcount
      metadataNodup := hnodup
      metadataOk := hmetadata
      size := hsize }⟩

theorem BuildInv.finalize_eq (h : BuildInv rows b) (hacc : Acceptable rows) (hio : StreamsFit b) :
    (OccurrencesFit rows → ∃ file reader, b.finalize = .ok file ∧ openArtifact file = .ok reader ∧
      Answers reader file rows) ∧
    (¬OccurrencesFit rows → b.finalize = .error .schemaMismatch) := by
  obtain ⟨runs, hinv⟩ := h.inv
  obtain ⟨runs', hspilled, hempty, hthreshold, hcount, hmetadata⟩ := hinv.spill
  obtain ⟨merged, hperm, hsorted, hstage⟩ := stageArtifact_eq hspilled hempty hacc.id_ne hio.spills
  obtain ⟨groups, blocks, hgroups, hassembled⟩ := exists_assembled hperm hsorted hacc.id_ne
    (by rw [hcount, h.count, hmetadata]) hspilled.metadata.nodup
    (metadataOk_of_metadataOf hspilled.metadata hacc) (hio.staged _ hstage)
  have hopen := hassembled.openArtifact_eq
  have hpos := h.threshold
  have hfit := countsFit_iff hgroups fixedHeaderSize
  rw [Builder.finalize, if_neg (by omega), mergeRuns, hstage]
  constructor
  · intro hoccurrences
    rw [if_pos (hfit.mpr hoccurrences)] at hopen
    refine ⟨_, _, ?_, hopen, Published.answers (b := b.spillCurrentBuffer)
      ⟨hassembled, hgroups, hspilled.metadata, hacc, hfit.mpr hoccurrences⟩⟩
    rw [ok_bind, hopen]
    rfl
  · intro hoccurrences
    rw [if_neg fun hcounts => hoccurrences (hfit.mp hcounts)] at hopen
    rw [ok_bind, hopen]
    rfl

private theorem foldlM_append_ok {calls : List (List PositionRow)} (h : BuildInv rows b)
    (hacc : Acceptable (rows ++ calls.flatten)) :
    ∃ b', calls.foldlM Builder.append b = .ok b' ∧ BuildInv (rows ++ calls.flatten) b' := by
  induction calls generalizing rows b with
  | nil => exact ⟨b, rfl, by simpa using h⟩
  | cons call calls ih =>
    rw [List.flatten_cons, ← List.append_assoc] at hacc
    obtain ⟨middle, hcall, hmiddle⟩ := h.append (hacc.mono (List.subset_append_left _ _))
    obtain ⟨b', hcalls, hinv⟩ := ih hmiddle hacc
    refine ⟨b', ?_, by simpa using hinv⟩
    rw [List.foldlM_cons, hcall]
    exact hcalls

/-- Any split of acceptable rows under any threshold yields a file that opens and answers every
query as the set of the rows prescribes. -/
theorem build_answers {threshold : ℕ} {calls : List (List PositionRow)}
    (hthreshold : 1 ≤ threshold) (hacc : Acceptable calls.flatten)
    (hcounts : OccurrencesFit calls.flatten)
    (hio : ∀ b, calls.foldlM Builder.append (Builder.new threshold) = .ok b → StreamsFit b) :
    ∃ b file reader, calls.foldlM Builder.append (Builder.new threshold) = .ok b ∧
      b.finalize = .ok file ∧ openArtifact file = .ok reader ∧
      ∀ rows, (∀ row, row ∈ rows ↔ row ∈ calls.flatten) → Answers reader file rows := by
  obtain ⟨b, happend, hinv⟩ := foldlM_append_ok (BuildInv.new hthreshold) (by simpa using hacc)
  rw [List.nil_append] at hinv
  obtain ⟨file, reader, hfinalize, hopen, hanswers⟩ :=
    (hinv.finalize_eq hacc (hio b happend)).1 hcounts
  exact ⟨b, file, reader, happend, hfinalize, hopen, fun rows hmem => hanswers.congr hacc hmem⟩

/-- Two games, one of which is appended twice. -/
def sampleCalls : List (List PositionRow) :=
  [[⟨7, 1, 0, 0, 1, some 2000, none⟩, ⟨9, 1, 1, 0, 1, some 2000, none⟩],
    [⟨7, 2, 0, 0, 0, none, none⟩, ⟨7, 1, 0, 0, 1, some 2000, none⟩]]

theorem build_answers_sample :
    ∃ b file reader, sampleCalls.foldlM Builder.append (Builder.new 2) = .ok b ∧
      b.finalize = .ok file ∧ openArtifact file = .ok reader ∧
      Answers reader file sampleCalls.flatten := by
  have hcounts : OccurrencesFit sampleCalls.flatten := fun hash =>
    (card_occurrenceSet_le _ hash).trans_lt (by decide)
  have hsizes : ∀ b ∈ (sampleCalls.foldlM Builder.append (Builder.new 2)).toOption,
      (∀ file ∈ b.spillCurrentBuffer.spillFiles, file.length < 2 ^ 63) ∧
        ∀ file ∈ (stageArtifact b.spillCurrentBuffer).toOption, file.length < 2 ^ 63 := by
    decide +kernel
  have hio : ∀ b, sampleCalls.foldlM Builder.append (Builder.new 2) = .ok b → StreamsFit b := by
    intro b hb
    obtain ⟨hspills, hstaged⟩ := hsizes b (by rw [hb]; rfl)
    exact ⟨hspills, fun file hfile => hstaged file (by rw [hfile]; rfl)⟩
  obtain ⟨b, file, reader, happend, hfinalize, hopen, hanswers⟩ :=
    build_answers (by decide) ⟨by decide, by decide, by decide⟩ hcounts hio
  exact ⟨b, file, reader, happend, hfinalize, hopen, hanswers _ fun _ => Iff.rfl⟩

end MotifChess.Db.PositionPostings
