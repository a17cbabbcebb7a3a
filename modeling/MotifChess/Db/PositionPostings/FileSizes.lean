/- GID: MotifChess/Db/PositionPostings/FileSizes
   generality: implementation
   digest: Over fewer than 2^54 positions no file of a build outgrows the offsets of a stream. -/

import MotifChess.Db.PositionPostings.Finalize

set_option autoImplicit false
set_option relaxedAutoImplicit false

namespace MotifChess.Db.PositionPostings

open Codec
open MotifChess.Order.Runs

section Postings

private theorem length_plyDeltaBytes_le (plies : List ℕ) :
    (plyDeltaBytes plies).length ≤ plies.length * 10 := by
  induction plies with
  | nil => exact Nat.zero_le _
  | cons first plies ih =>
    cases plies with
    | nil => exact Nat.zero_le _
    | cons second plies =>
      have hdelta := length_encode_le (wrappingSub_lt 64 second first)
      rw [plyDeltaBytes_cons, List.length_append, writeUleb128_eq, List.length_cons]
      omega

private theorem length_gameGroupBytes_le (previous : Option ℕ) {group : ℕ × List ℕ}
    (hid : group.1 < 2 ^ 32) (hne : group.2 ≠ []) (hlength : group.2.length < 2 ^ 64)
    (hply : ∀ ply ∈ group.2, ply < 2 ^ 16) :
    (gameGroupBytes previous group).length ≤ group.2.length * 40 := by
  have hdelta : previous.elim group.1 (wrappingSub 32 group.1) < 2 ^ 64 := by
    cases previous with
    | none =>
      rw [Option.elim_none]
      omega
    | some id =>
      have hlt := wrappingSub_lt 32 group.1 id
      rw [Option.elim_some]
      omega
  have hfirst : group.2.headD 0 < 2 ^ 64 := by
    obtain ⟨first, plies, hplies⟩ := List.exists_cons_of_ne_nil hne
    have hlt := hply first (by rw [hplies]; exact List.mem_cons_self)
    rw [hplies, List.headD_cons]
    omega
  have hdeltaLength := length_encode_le hdelta
  have hcountLength := length_encode_le hlength
  have hfirstLength := length_encode_le hfirst
  have hdeltas := length_plyDeltaBytes_le group.2
  have hpos := List.length_pos_iff.mpr hne
  rw [gameGroupBytes]
  simp only [List.length_append, writeUleb128_eq]
  omega

private theorem length_postingBytes_le {groups : GameGroups} (h : GroupsSpelled groups)
    (previous : Option ℕ) :
    (postingBytes previous groups).length ≤ (groupPlies groups).length * 40 := by
  induction groups generalizing previous with
  | nil => exact Nat.zero_le _
  | cons group groups ih =>
    have hmem : group ∈ group :: groups := List.mem_cons_self
    have hhead := length_gameGroupBytes_le previous (h.id_lt group hmem) (h.plies_ne group hmem)
      (h.length_lt group hmem) (h.ply_lt group hmem)
    have htail := ih h.tail (some group.1)
    rw [groupPlies] at htail ⊢
    rw [postingBytes, List.flatMap_cons, List.length_append, List.length_append]
    omega

private theorem length_flatMap_groupBytes_le {groups : List HashGroup} (h : ∀ g ∈ groups, GroupOk g) :
    (groups.flatMap groupBytes).length ≤ (groups.flatMap Prod.snd).length * 40 := by
  induction groups with
  | nil => exact Nat.zero_le _
  | cons group groups ih =>
    have hhead := length_postingBytes_le (h group List.mem_cons_self).groupsOk.spelled none
    have htail := ih fun g hg => h g (List.mem_cons_of_mem group hg)
    rw [groupPlies_groupRuns, List.length_map] at hhead
    rw [List.flatMap_cons, List.flatMap_cons, List.length_append, List.length_append, groupBytes]
    omega

end Postings

section Artifact

variable {rows : List PositionRow} {groups : List HashGroup} {blocks : List (List DirectoryBlockEntry)}
  {b : Builder} {s : MergeState}

private theorem length_directory_le {blocks : List (List DirectoryBlockEntry)}
    (h : ∀ block ∈ blocks, BlockOk block) :
    (blocks.flatMap directoryBlockBytes).length ≤ blocks.flatten.length * 85 ∧
      blocks.length ≤ blocks.flatten.length := by
  induction blocks with
  | nil => exact ⟨Nat.zero_le _, Nat.zero_le _⟩
  | cons block blocks ih =>
    have hblock := h block List.mem_cons_self
    have hhead := hblock.length_bytes_le
    have hpos := List.length_pos_iff.mpr hblock.ne_nil
    obtain ⟨hbytes, hlength⟩ := ih fun other hother => h other (List.mem_cons_of_mem block hother)
    rw [List.flatMap_cons, List.flatten_cons, List.length_append, List.length_append, List.length_cons]
    omega

private theorem Finished.length_assembleArtifact_lt (h : Finished groups blocks s)
    (hgroups : GroupsOf rows groups) (hoccurrences : (groups.flatMap Prod.snd).length < 2 ^ 54)
    (hgames : b.gameMetadata.length < 2 ^ 54) : (assembleArtifact b s).length < 2 ^ 63 := by
  obtain ⟨hstart, hmetadata, hdirectory, hend⟩ := h.length_assembleArtifact (b := b)
  have hpostings := length_flatMap_groupBytes_le hgroups.ok
  have hpositions := length_groups_le hgroups.ok
  have hrep : Representable (entriesFrom fixedHeaderSize groups) :=
    representable_entriesFrom hgroups.ascending hgroups.ok (by rw [fixedHeaderSize]; omega)
  have hblocks : ∀ block ∈ blocks, BlockOk block := by
    intro block hblock
    obtain ⟨hne, hlength⟩ := h.size block hblock
    rw [← h.entries] at hrep
    exact ⟨hne, hlength, hrep.sublist (List.infix_of_mem_flatten hblock)⟩
  obtain ⟨hspool, hcount⟩ := length_directory_le hblocks
  rw [h.entries, length_entriesFrom] at hspool hcount
  have hdirectoryLength : (assembledHeader b s).directoryByteLength =
      (blocks.flatMap directoryBlockBytes).length := by
    rw [assembledHeader, h.dirspool]
  have hsparseCount : (assembledHeader b s).sparseCount = blocks.length := by
    rw [assembledHeader, h.sparse, length_sparseFrom]
  have hmetadataCount : (assembledHeader b s).metadataCount = b.gameMetadata.length := by
    rw [assembledHeader, sortMetadata, Order.length_sortBy]
  rw [fixedHeaderSize] at hstart
  rw [metadataRecordSize] at hmetadata
  rw [sparseRecordSize] at hend
  omega

private theorem gameCountOf_le (rows : List PositionRow) : gameCountOf rows ≤ rows.length := by
  rw [gameCountOf]
  calc (rows.map PositionRow.gameId).dedup.length
      ≤ (rows.map PositionRow.gameId).length := (List.dedup_sublist _).length_le
    _ = rows.length := List.length_map _

theorem BuildInv.streamsFit (h : BuildInv rows b) (hacc : Acceptable rows)
    (hlength : rows.length < 2 ^ 54) : StreamsFit b := by
  obtain ⟨runs, hinv⟩ := h.inv
  obtain ⟨runs', hspilled, hempty, -, -, hmetadata⟩ := hinv.spill
  have hspills : ∀ file ∈ b.spillCurrentBuffer.spillFiles, file.length < 2 ^ 63 := by
    intro file hfile
    rw [hspilled.files] at hfile
    obtain ⟨run, hrun, rfl⟩ := List.mem_map.mp hfile
    have hrecords := (hspilled.perm_of_spilled hempty).length_eq
    have hle : run.length ≤ runs'.flatten.length := (List.sublist_flatten_of_mem hrun).length_le
    rw [List.length_map] at hrecords
    rw [Builder.spillBytes, List.length_append, length_flatMap_recordBytes, spillRecordSize,
      LittleEndian.length_leBytes]
    omega
  refine ⟨hspills, fun file hfile => ?_⟩
  obtain ⟨merged, hperm, hsorted, hstage⟩ := stageArtifact_eq hspilled hempty hacc.id_ne hspills
  obtain ⟨groups, blocks, hgroups, hfinished, -, htotal⟩ := exists_finished hperm hsorted hacc.id_ne
  obtain rfl := Except.ok.inj (hstage.symm.trans hfile)
  have hgames := hspilled.metadata.length_eq
  have hcount := gameCountOf_le rows
  exact hfinished.length_assembleArtifact_lt hgroups (by omega) (by omega)

end Artifact

end MotifChess.Db.PositionPostings
