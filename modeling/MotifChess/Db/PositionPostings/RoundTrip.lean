/- GID: MotifChess/Db/PositionPostings/RoundTrip
   generality: implementation
   digest: A finished build opens and answers every query as the set of appended rows prescribes. -/

import MotifChess.Db.PositionPostings.Answers
import MotifChess.Db.PositionPostings.Assemble

set_option autoImplicit false
set_option relaxedAutoImplicit false

namespace MotifChess.Db.PositionPostings

open MotifChess.Order.Runs

section Lookup

private theorem forall₂_mem_right {α β : Type} {R : α → β → Prop} {l : List α} {m : List β}
    (h : List.Forall₂ R l m) : List.Forall₂ (fun a b => R a b ∧ b ∈ m) l m := by
  induction h with
  | nil => exact List.Forall₂.nil
  | cons hhead _ ih =>
    exact List.Forall₂.cons ⟨hhead, List.mem_cons_self⟩
      (ih.imp fun a b hab => ⟨hab.1, List.mem_cons_of_mem _ hab.2⟩)

variable {groups : List HashGroup} {blocks : List (List DirectoryBlockEntry)} {b : Builder}
  {s : MergeState}

theorem Assembled.findDirectoryBlockEntry_eq (h : Assembled groups blocks b s)
    (hfit : CountsFit (entriesFrom fixedHeaderSize groups)) (hash : ℕ) :
    findDirectoryBlockEntry (assembleArtifact b s) (assembledReader b s blocks).sparseDirectory
      hash =
      .ok ((entriesFrom fixedHeaderSize groups).find? fun entry => decide (entry.hash = hash)) := by
  have hopen := h.openArtifact_eq
  rw [if_pos hfit] at hopen
  obtain ⟨_, _, hsparse, _⟩ := openArtifact_sound hopen
  have hascending : (blocks.flatten.map DirectoryBlockEntry.hash).Pairwise (· < ·) := by
    rw [h.finished.entries, map_hash_entriesFrom]
    exact h.ascending
  rw [← h.finished.entries] at hfit ⊢
  have hblocks : List.Forall₂ (BlockOf (assembleArtifact b s))
      (assembledReader b s blocks).sparseDirectory blocks :=
    (forall₂_mem_right h.finished.storedAt).imp fun sparse block hblock =>
      hblock.1.blockOf (h.blockOk block hblock.2) fun e he =>
        hfit e (List.mem_flatten.mpr ⟨block, hblock.2, he⟩)
  exact PositionPostings.findDirectoryBlockEntry_eq hblocks hsparse hascending hash

theorem Assembled.lookup (h : Assembled groups blocks b s)
    (hfit : CountsFit (entriesFrom fixedHeaderSize groups)) (hash : ℕ) :
    (findDirectoryBlockEntry (assembleArtifact b s) (assembledReader b s blocks).sparseDirectory
        hash = .ok none ∧ ∀ occ, (hash, occ) ∉ groups) ∨
    ∃ occ offset, (hash, occ) ∈ groups ∧
      findDirectoryBlockEntry (assembleArtifact b s) (assembledReader b s blocks).sparseDirectory
        hash = .ok (some (entryOf offset (hash, occ))) ∧
      readAt (assembleArtifact b s) offset (groupBytes (hash, occ)).length =
        .ok (groupBytes (hash, occ)) := by
  have hfind := h.findDirectoryBlockEntry_eq hfit hash
  cases hentry : (entriesFrom fixedHeaderSize groups).find?
      fun entry => decide (entry.hash = hash) with
  | none =>
    refine Or.inl ⟨by rw [hfind, hentry], fun occ hmem => ?_⟩
    have hhash : hash ∈ (entriesFrom fixedHeaderSize groups).map DirectoryBlockEntry.hash := by
      rw [map_hash_entriesFrom]
      exact List.mem_map_of_mem hmem
    obtain ⟨e, he, heq⟩ := List.mem_map.mp hhash
    simpa [heq] using List.find?_eq_none.mp hentry e he
  | some e =>
    obtain ⟨front, group, back, hgroups, rfl⟩ :=
      exists_split_of_mem_entriesFrom (List.mem_of_find?_eq_some hentry)
    obtain ⟨hash', occ⟩ := group
    obtain rfl : hash' = hash := by simpa using List.find?_some hentry
    have hfinished := h.finished
    rw [hgroups] at hfinished
    exact Or.inr ⟨occ, _, by simp [hgroups], by rw [hfind, hentry], hfinished.readAt_groupBytes⟩

private theorem Assembled.findMetadata_eq (h : Assembled groups blocks b s) {item : ℕ × GameMetadata}
    (hitem : item ∈ b.gameMetadata) {id : UInt32} (hid : id.toNat = item.1) :
    findMetadata (assembledReader b s blocks).metadata id = .ok (metadataRecord item) := by
  have hkeys : ∀ x ∈ sortMetadata b.gameMetadata, (metadataRecord x).id.toNat = x.1 := by
    intro x hx
    have hlt := (h.metadataOk x (mem_sortMetadata.mp hx)).id_lt
    rw [metadataRecord, UInt32.toNat_ofNat', Nat.mod_eq_of_lt hlt]
  have hsorted : ((assembledReader b s blocks).metadata.map
      fun record => record.id.toNat).SortedLT := by
    have hmap : ((sortMetadata b.gameMetadata).map metadataRecord).map
        (fun record => record.id.toNat) = (sortMetadata b.gameMetadata).map Prod.fst := by
      rw [List.map_map]
      exact List.map_congr_left hkeys
    rw [assembledReader, hmap]
    exact (Order.pairwise_lt_map_sortBy h.metadataNodup).sortedLT
  have hmem := mem_sortMetadata.mpr hitem
  rw [findMetadata, orSchemaMismatch_eq_ok, Order.Bisection.findKey_eq_some hsorted]
  exact ⟨List.mem_map_of_mem hmem, by rw [hkeys item hmem, hid]⟩

end Lookup

section Groups

/-- The groups hold exactly the occurrences of the rows. -/
structure GroupsOf (rows : List PositionRow) (groups : List HashGroup) : Prop where
  ascending : (groups.map Prod.fst).Pairwise (· < ·)
  ok : ∀ g ∈ groups, GroupOk g
  mem_occ : ∀ {hash occ}, (hash, occ) ∈ groups → ∀ o : ℕ × ℕ, o ∈ occ ↔
    ∃ row ∈ rows, row.zobristHash.toNat = hash ∧ (row.gameId.toNat, row.ply.toNat) = o
  covers : ∀ row ∈ rows, ∃ occ, (row.zobristHash.toNat, occ) ∈ groups

theorem groupsOf_records {rows : List PositionRow} {kept : List Record}
    (hids : ∀ row ∈ rows, row.gameId ≠ 0) (hascending : kept.Pairwise (· < ·))
    (hmem : ∀ r, r ∈ kept ↔ r ∈ rows.map Record.ofRow) :
    GroupsOf rows (groupRuns (kept.map Record.pair)) := by
  have hrow : ∀ r ∈ kept, ∃ row ∈ rows, Record.ofRow row = r := fun r hr =>
    List.mem_map.mp ((hmem r).mp hr)
  have hfits : ∀ r ∈ kept, r.Fits := by
    intro r hr
    obtain ⟨row, _, rfl⟩ := hrow r hr
    exact Record.ofRow_fits row
  obtain ⟨hkeys, hok⟩ := groupRuns_records hascending (fun r hr => (hfits r hr).hash_lt)
    (by
      intro r hr
      obtain ⟨row, hmem, rfl⟩ := hrow r hr
      exact Nat.pos_of_ne_zero fun hzero => hids row hmem (UInt32.toNat_inj.mp hzero))
    (fun r hr => (hfits r hr).game_lt) (fun r hr => (hfits r hr).ply_lt)
  have hpairs : ∀ hash (o : ℕ × ℕ), (hash, o) ∈ kept.map Record.pair ↔
      ∃ row ∈ rows, row.zobristHash.toNat = hash ∧ (row.gameId.toNat, row.ply.toNat) = o := by
    rintro hash ⟨game, ply⟩
    simp only [List.mem_map, hmem, exists_exists_and_eq_and, Record.pair, Record.ofRow,
      Prod.mk.injEq]
  have hsorted : ((kept.map Record.pair).map Prod.fst).Pairwise (· ≤ ·) := by
    rw [List.map_map, List.pairwise_map]
    exact hascending.imp fun {a b} hlt => Record.hash_le hlt
  refine ⟨hkeys, hok, fun {hash occ} hgroup o => ?_, fun row hrow => ?_⟩
  · rw [← hpairs, mem_values_iff hsorted hgroup]
  · obtain ⟨⟨hash', occ⟩, hgroup, rfl, _⟩ := exists_mem_groupRuns
      ((hpairs row.zobristHash.toNat (row.gameId.toNat, row.ply.toNat)).mpr ⟨row, hrow, rfl, rfl⟩)
    exact ⟨occ, hgroup⟩

variable {rows : List PositionRow} {groups : List HashGroup} {hash : UInt64}
  {occ : List (ℕ × ℕ)}

def toOccurrence (o : ℕ × ℕ) : Occurrence := ⟨UInt32.ofNat o.1, UInt16.ofNat o.2⟩

private theorem toNat_toOccurrence {group : HashGroup} (h : GroupOk group) {o : ℕ × ℕ} (ho : o ∈ group.2) :
    (toOccurrence o).id.toNat = o.1 ∧ (toOccurrence o).ply.toNat = o.2 := by
  have hgame := h.game_lt o ho
  have hply := h.ply_lt o ho
  rw [toOccurrence, UInt32.toNat_ofNat', UInt16.toNat_ofNat', Nat.mod_eq_of_lt hgame,
    Nat.mod_eq_of_lt hply]
  exact ⟨rfl, rfl⟩

theorem GroupsOf.occurrencesAt_eq (h : GroupsOf rows groups)
    (hgroup : (hash.toNat, occ) ∈ groups) : occurrencesAt rows hash = occ.map toOccurrence := by
  have hok := h.ok _ hgroup
  refine PositionPostings.occurrencesAt_eq ?_ fun o => ?_
  · rw [List.pairwise_map]
    refine hok.ascending.imp_of_mem fun {a b} ha hb hlt => ?_
    obtain ⟨haid, haply⟩ := toNat_toOccurrence hok ha
    obtain ⟨hbid, hbply⟩ := toNat_toOccurrence hok hb
    rw [Occurrence.lt_iff, ← UInt32.toNat_inj, haid, hbid, haply, hbply]
    exact Prod.lex_def.mp hlt
  · simp only [List.mem_map, h.mem_occ hgroup]
    constructor
    · rintro ⟨_, ⟨row, hrow, hhash, rfl⟩, rfl⟩
      refine ⟨row, hrow, UInt64.toNat_inj.mp hhash, ?_⟩
      rw [toOccurrence, UInt32.ofNat_toNat, UInt16.ofNat_toNat, occurrenceOf]
    · rintro ⟨row, hrow, rfl, rfl⟩
      refine ⟨_, ⟨row, hrow, rfl, rfl⟩, ?_⟩
      rw [toOccurrence, UInt32.ofNat_toNat, UInt16.ofNat_toNat, occurrenceOf]

theorem GroupsOf.occurrencesAt_eq_nil (h : GroupsOf rows groups)
    (hnone : ∀ occ, (hash.toNat, occ) ∉ groups) : occurrencesAt rows hash = [] := by
  refine PositionPostings.occurrencesAt_eq List.Pairwise.nil fun o => ?_
  simp only [List.not_mem_nil, false_iff, not_exists, not_and]
  rintro row hrow rfl
  obtain ⟨occ, hocc⟩ := h.covers row hrow
  exact absurd hocc (hnone occ)

private theorem GroupsOf.gameIdsAt_eq (h : GroupsOf rows groups) (hgroup : (hash.toNat, occ) ∈ groups) :
    gameIdsAt rows hash = (groupRuns occ).map fun g => UInt32.ofNat g.1 := by
  have hok := h.ok _ hgroup
  have hinjective : Function.Injective UInt32.toNat := fun a b => UInt32.toNat_inj.mp
  have hids : ((occ.map toOccurrence).map Occurrence.id).map UInt32.toNat = occ.map Prod.fst := by
    simp only [List.map_map]
    exact List.map_congr_left fun o ho => (toNat_toOccurrence hok ho).1
  have hkeys : ((groupRuns occ).map fun g => UInt32.ofNat g.1).map UInt32.toNat =
      (groupRuns occ).map Prod.fst := by
    rw [List.map_map]
    refine List.map_congr_left fun g hg => ?_
    have hlt := hok.groupsOk.id_lt g hg
    rw [Function.comp_apply, UInt32.toNat_ofNat', Nat.mod_eq_of_lt hlt]
  apply List.map_injective_iff.mpr hinjective
  rw [gameIdsAt, h.occurrencesAt_eq hgroup, ← List.dedup_map_of_injective hinjective, hids, hkeys]
  refine eq_of_pairwise_lt ?_ hok.groupsOk.ascending fun key => ?_
  · exact List.Pairwise.imp₂ (fun a b hle hne => lt_of_le_of_ne hle hne)
      ((pairwise_keys hok.ascending).sublist (List.dedup_sublist _)) (List.nodup_dedup _)
  · constructor
    · intro hkey
      obtain ⟨o, ho, rfl⟩ := List.mem_map.mp (List.mem_dedup.mp hkey)
      rw [← ungroup_groupRuns occ] at ho
      obtain ⟨g, hg, ho⟩ := List.mem_flatMap.mp ho
      obtain ⟨_, _, rfl⟩ := List.mem_map.mp ho
      exact List.mem_map_of_mem hg
    · intro hkey
      obtain ⟨g, hg, rfl⟩ := List.mem_map.mp hkey
      obtain ⟨p, hp⟩ := List.exists_mem_of_ne_nil _ (ne_nil_of_mem_groupRuns g hg)
      exact List.mem_dedup.mpr (List.mem_map.mpr ⟨_, mem_of_mem_groupRuns hg hp, rfl⟩)

private theorem GroupsOf.firstOccurrencesAt_eq (h : GroupsOf rows groups)
    (hgroup : (hash.toNat, occ) ∈ groups) (requested : List UInt32) :
    firstOccurrencesAt rows hash requested = firstOccurrencesOf requested (groupRuns occ) := by
  have hok := h.ok _ hgroup
  have hgroups := hok.groupsOk
  have hid : ∀ g ∈ groupRuns occ, (UInt32.ofNat g.1).toNat = g.1 := by
    intro g hg
    rw [UInt32.toNat_ofNat', Nat.mod_eq_of_lt (hgroups.id_lt g hg)]
  refine eq_of_pairwise_lt (pairwise_occurrencesAt.filter _) ?_ fun o => ?_
  · rw [firstOccurrencesOf, List.pairwise_map]
    have hkeys := hgroups.ascending
    rw [List.pairwise_map] at hkeys
    refine (hkeys.filter _).imp_of_mem fun {a b} ha hb hlt => ?_
    rw [Occurrence.lt_iff, hid a (List.mem_filter.mp ha).1, hid b (List.mem_filter.mp hb).1]
    exact Or.inl hlt
  · rw [firstOccurrencesOf, firstOccurrencesAt, h.occurrencesAt_eq hgroup]
    simp only [List.mem_filter, List.mem_map, decide_eq_true_eq]
    constructor
    · rintro ⟨⟨x, hx, rfl⟩, hrequested, hleast⟩
      obtain ⟨g, hg, hkey, hply⟩ := exists_mem_groupRuns hx
      obtain ⟨first, plies, hplies⟩ :=
        List.exists_cons_of_ne_nil (ne_nil_of_mem_groupRuns g hg)
      have hmem : (g.1, first) ∈ occ := mem_of_mem_groupRuns hg (by simp [hplies])
      have hle := hleast _ ⟨_, hmem, rfl⟩ (by rw [toOccurrence, toOccurrence, hkey])
      rw [UInt16.le_iff_toNat_le, (toNat_toOccurrence hok hx).2,
        (toNat_toOccurrence hok hmem).2] at hle
      have hascending := hgroups.plies_ascending g hg
      rw [hplies, List.pairwise_cons] at hascending
      have hfirst : first = x.2 := by
        rw [hplies] at hply
        rcases List.mem_cons.mp hply with heq | htail
        · exact heq.symm
        · have hlt := hascending.1 _ htail
          omega
      refine ⟨g, ⟨hg, by rwa [hkey]⟩, ?_⟩
      rw [hplies, List.headD_cons, hfirst, hkey, toOccurrence]
    · rintro ⟨g, ⟨hg, hrequested⟩, rfl⟩
      obtain ⟨first, plies, hplies⟩ :=
        List.exists_cons_of_ne_nil (ne_nil_of_mem_groupRuns g hg)
      have hmem : (g.1, first) ∈ occ := mem_of_mem_groupRuns hg (by simp [hplies])
      rw [hplies, List.headD_cons]
      refine ⟨⟨_, hmem, rfl⟩, hrequested, ?_⟩
      rintro _ ⟨x, hx, rfl⟩ heq
      have hkey : x.1 = g.1 := by
        rw [← (toNat_toOccurrence hok hx).1, heq, hid g hg]
      have hply : x.2 ∈ g.2 := by
        rw [mem_values_iff (pairwise_keys hok.ascending) hg, ← hkey]
        exact hx
      have hascending := hgroups.plies_ascending g hg
      rw [hplies, List.pairwise_cons] at hascending
      have hnat := (toNat_toOccurrence hok hmem).2
      rw [toOccurrence] at hnat
      rw [UInt16.le_iff_toNat_le, (toNat_toOccurrence hok hx).2, hnat]
      rw [hplies] at hply
      rcases List.mem_cons.mp hply with heq | htail
      · exact heq.ge
      · exact (hascending.1 _ htail).le

private theorem GroupsOf.summaryAt_eq (h : GroupsOf rows groups) (hgroup : (hash.toNat, occ) ∈ groups)
    (offset : ℕ) :
    summaryAt rows hash = some (entryOf offset (hash.toNat, occ)).summary := by
  have hok := h.ok _ hgroup
  have hplies : (occ.map toOccurrence).map (fun o => o.ply.toNat) = occ.map Prod.snd := by
    rw [List.map_map]
    exact List.map_congr_left fun o ho => (toNat_toOccurrence hok ho).2
  have hne : occ.map Prod.snd ≠ [] := by simpa using hok.ne_nil
  have hbound : ∀ p ∈ occ.map Prod.snd, p ≤ uint16Max := by
    intro p hp
    obtain ⟨o, ho, rfl⟩ := List.mem_map.mp hp
    exact Nat.le_pred_of_lt (hok.ply_lt o ho)
  rw [summaryAt, h.occurrencesAt_eq hgroup, hplies, min?_eq_foldl hne hbound, max?_eq_foldl hne,
    h.gameIdsAt_eq hgroup]
  simp only [Option.bind_eq_bind, Option.bind_some, Option.pure_def, List.length_map]
  rfl

theorem GroupsOf.summaryAt_eq_none (h : GroupsOf rows groups)
    (hnone : ∀ occ, (hash.toNat, occ) ∉ groups) : summaryAt rows hash = none := by
  rw [summaryAt, h.occurrencesAt_eq_nil hnone]
  rfl

end Groups

section Answer

private theorem forM_eq_ok {α : Type} {f : α → Result Unit} {l : List α}
    (h : ∀ a ∈ l, f a = .ok ()) : l.forM f = .ok () := by
  induction l with
  | nil => rfl
  | cons a l ih =>
    have hstep : (a :: l).forM f = f a >>= fun _ => l.forM f := rfl
    rw [hstep, h a List.mem_cons_self, ok_bind]
    exact ih fun x hx => h x (List.mem_cons_of_mem _ hx)

private theorem mem_window {α : Type} {limit offset : ℕ} {l : List α} {a : α}
    (h : a ∈ window limit offset l) : a ∈ l := by
  unfold window at h
  split at h
  · exact List.mem_of_mem_drop h
  · exact List.mem_of_mem_drop (List.mem_of_mem_take h)

variable {rows : List PositionRow} {groups : List HashGroup}
  {blocks : List (List DirectoryBlockEntry)} {b : Builder} {s : MergeState}

/-- An assembled file, read back, that holds the occurrences and metadata of the rows. -/
structure Published (rows : List PositionRow) (groups : List HashGroup)
    (blocks : List (List DirectoryBlockEntry)) (b : Builder) (s : MergeState) : Prop where
  assembled : Assembled groups blocks b s
  groupsOf : GroupsOf rows groups
  metadataOf : MetadataOf rows b.gameMetadata
  acceptable : Acceptable rows
  countsFit : CountsFit (entriesFrom fixedHeaderSize groups)

private theorem Published.length_plies_le (h : Published rows groups blocks b s) {group : HashGroup}
    (hgroup : group ∈ groups) : (groupPlies (groupRuns group.2)).length ≤ uint64Max := by
  obtain ⟨front, back, rfl⟩ := List.mem_iff_append.mp hgroup
  have hread := (readAt_eq_ok.mp (h.assembled.finished.readAt_groupBytes (b := b))).1
  have hsize := h.assembled.size
  have hplies := length_groupPlies_le none (groupRuns group.2)
  rw [groupBytes] at hread
  unfold uint64Max
  omega

private theorem Published.findMetadata_eq (h : Published rows groups blocks b s) {row : PositionRow}
    (hrow : row ∈ rows) :
    findMetadata (assembledReader b s blocks).metadata row.gameId =
      .ok (metadataRecord (row.gameId.toNat, GameMetadata.ofRow row)) :=
  h.assembled.findMetadata_eq (mem_of_lookup (h.metadataOf.lookup_row row hrow)) rfl

private theorem Published.matchOccurrence_eq (h : Published rows groups blocks b s) {hash : UInt64}
    {o : Occurrence} (ho : o ∈ occurrencesAt rows hash) :
    matchOccurrence (assembledReader b s blocks).metadata o = .ok (matchAt rows o) := by
  obtain ⟨row, hrow, _, rfl⟩ := mem_occurrencesAt.mp ho
  rw [matchOccurrence, occurrenceOf, h.findMetadata_eq hrow, matchAt,
    h.acceptable.metadataAt_eq hrow]
  rfl

private theorem Published.occurrences_eq (h : Published rows groups blocks b s) (hash : UInt64)
    (limit offset : ℕ) :
    (assembledReader b s blocks).occurrences (assembleArtifact b s) hash.toNat limit offset =
      .ok ((window limit offset (occurrencesAt rows hash)).map (matchAt rows)) := by
  rw [Reader.occurrences]
  rcases h.assembled.lookup h.countsFit hash.toNat with ⟨hnone, hempty⟩ |
    ⟨occ, start, hgroup, hfind, hread⟩
  · rw [hnone, h.groupsOf.occurrencesAt_eq_nil hempty]
    simp [window]
    rfl
  · have hwindow : decodePostingBlockWindow (groupBytes (hash.toNat, occ))
        (entryOf start (hash.toNat, occ)) limit offset =
        .ok (window limit offset (occurrencesAt rows hash)) := by
      rw [groupBytes, decodePostingBlockWindow_bytes (h.groupsOf.ok _ hgroup).groupsOk.spelled
        (describes_entryOf start (hash.toNat, occ)), occurrencesOf_groupRuns,
        h.groupsOf.occurrencesAt_eq hgroup]
      rfl
    have hmatches := mapM_eq_map fun o ho =>
      @Published.matchOccurrence_eq _ _ _ _ _ h hash o (@mem_window _ limit offset _ o ho)
    rw [hfind]
    simp only [ok_bind, entryOf_postingOffset, entryOf_postingByteLength, hread, hwindow, hmatches]

private theorem Published.distinctGameIds_eq (h : Published rows groups blocks b s) (hash : UInt64) :
    (assembledReader b s blocks).distinctGameIds (assembleArtifact b s) hash.toNat =
      .ok (gameIdsAt rows hash) := by
  rw [Reader.distinctGameIds]
  rcases h.assembled.lookup h.countsFit hash.toNat with ⟨hnone, hempty⟩ |
    ⟨occ, start, hgroup, hfind, hread⟩
  · rw [hnone, gameIdsAt, h.groupsOf.occurrencesAt_eq_nil hempty]
    rfl
  · have hok := h.groupsOf.ok _ hgroup
    have hdecode : decodePostingBlockGameIds (groupBytes (hash.toNat, occ))
        (entryOf start (hash.toNat, occ)) = .ok (gameIdsAt rows hash) := by
      rw [groupBytes, decodePostingBlockGameIds_bytes hok.groupsOk.spelled
        (describes_entryOf start (hash.toNat, occ)) (h.length_plies_le hgroup),
        h.groupsOf.gameIdsAt_eq hgroup]
    have hknown : (gameIdsAt rows hash).forM (fun id => do
        let _ ← findMetadata (assembledReader b s blocks).metadata id) = .ok () := by
      refine forM_eq_ok fun id hid => ?_
      obtain ⟨o, ho, rfl⟩ := List.mem_map.mp (List.mem_dedup.mp hid)
      obtain ⟨row, hrow, _, rfl⟩ := mem_occurrencesAt.mp ho
      rw [occurrenceOf, h.findMetadata_eq hrow]
      rfl
    rw [hfind]
    simp only [ok_bind, entryOf_postingOffset, entryOf_postingByteLength, hread, hdecode]
    rw [hknown]
    rfl

private theorem Published.firstOccurrences_eq (h : Published rows groups blocks b s) (hash : UInt64)
    (requested : List UInt32) :
    (assembledReader b s blocks).firstOccurrences (assembleArtifact b s) hash.toNat requested =
      .ok ((firstOccurrencesAt rows hash requested).map (matchAt rows)) := by
  rw [Reader.firstOccurrences]
  cases requested with
  | nil =>
    have hnil : firstOccurrencesAt rows hash [] = [] := by simp [firstOccurrencesAt]
    rw [hnil]
    rfl
  | cons id requested =>
    rw [List.isEmpty_cons, if_neg Bool.false_ne_true]
    rcases h.assembled.lookup h.countsFit hash.toNat with ⟨hnone, hempty⟩ |
      ⟨occ, start, hgroup, hfind, hread⟩
    · rw [hnone, firstOccurrencesAt, h.groupsOf.occurrencesAt_eq_nil hempty]
      rfl
    · have hok := h.groupsOf.ok _ hgroup
      have hdecode : decodePostingBlockFirstOccurrences (groupBytes (hash.toNat, occ))
          (entryOf start (hash.toNat, occ)) (id :: requested) =
          .ok (firstOccurrencesAt rows hash (id :: requested)) := by
        rw [groupBytes, decodePostingBlockFirstOccurrences_bytes hok.groupsOk.spelled
          (describes_entryOf start (hash.toNat, occ)) (h.length_plies_le hgroup),
          h.groupsOf.firstOccurrencesAt_eq hgroup]
      have hmatches := mapM_eq_map fun o ho => @Published.matchOccurrence_eq _ _ _ _ _ h hash o
        (List.mem_filter.mp (show o ∈ firstOccurrencesAt rows hash (id :: requested) from ho)).1
      rw [hfind]
      simp only [ok_bind, entryOf_postingOffset, entryOf_postingByteLength, hread, hdecode,
        hmatches]

private theorem Published.summary_eq (h : Published rows groups blocks b s) (hash : UInt64) :
    (assembledReader b s blocks).summary (assembleArtifact b s) hash.toNat =
      .ok (summaryAt rows hash) := by
  rw [Reader.summary]
  rcases h.assembled.lookup h.countsFit hash.toNat with ⟨hnone, hempty⟩ |
    ⟨occ, start, hgroup, hfind, _⟩
  · rw [hnone, h.groupsOf.summaryAt_eq_none hempty]
    rfl
  · rw [hfind, h.groupsOf.summaryAt_eq hgroup start]
    rfl

theorem MetadataOf.length_eq {metadata : List (ℕ × GameMetadata)} (h : MetadataOf rows metadata) :
    metadata.length = gameCountOf rows := by
  have hinjective : Function.Injective UInt32.toNat := fun a b => UInt32.toNat_inj.mp
  have hperm : (metadata.map Prod.fst).Perm
      (((rows.map PositionRow.gameId).dedup).map UInt32.toNat) := by
    refine (List.perm_ext_iff_of_nodup h.nodup
      ((List.nodup_dedup _).map hinjective)).mpr fun key => ?_
    simp only [List.mem_map, List.mem_dedup]
    constructor
    · rintro ⟨item, hitem, rfl⟩
      obtain ⟨row, hrow, rfl⟩ := h.mem_row item hitem
      exact ⟨row.gameId, ⟨row, hrow, rfl⟩, rfl⟩
    · rintro ⟨_, ⟨row, hrow, rfl⟩, rfl⟩
      exact ⟨_, mem_of_lookup (h.lookup_row row hrow), rfl⟩
  simpa [gameCountOf] using hperm.length_eq

theorem Published.answers (h : Published rows groups blocks b s) :
    Answers (assembledReader b s blocks) (assembleArtifact b s) rows where
  occurrences := h.occurrences_eq
  distinctGameIds := h.distinctGameIds_eq
  firstOccurrences := h.firstOccurrences_eq
  summary := h.summary_eq
  gameCount := h.assembled.gameCount.trans h.metadataOf.length_eq

end Answer

end MotifChess.Db.PositionPostings
