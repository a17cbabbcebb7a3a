/- GID: MotifChess/Db/PositionPostings/Groups
   generality: implementation
   digest: The groups of ascending records are what the posting and directory decoders accept. -/

import MotifChess.Db.PositionPostings.MergeRuns

set_option autoImplicit false
set_option relaxedAutoImplicit false

namespace MotifChess.Db.PositionPostings

open MotifChess.Order.Runs

/-- The occurrences of one position: nonempty, ascending, and inside the widths of their fields. -/
structure GroupOk (group : HashGroup) : Prop where
  hash_lt : group.1 < 2 ^ 64
  ne_nil : group.2 ≠ []
  ascending : group.2.Pairwise (Prod.Lex (· < ·) (· < ·))
  game_pos : ∀ o ∈ group.2, 0 < o.1
  game_lt : ∀ o ∈ group.2, o.1 < 2 ^ 32
  ply_lt : ∀ o ∈ group.2, o.2 < 2 ^ 16

section Plies

theorem min?_eq_foldl {plies : List ℕ} (hne : plies ≠ []) (hle : ∀ p ∈ plies, p ≤ uint16Max) :
    plies.min? = some (plies.foldl min uint16Max) := by
  obtain ⟨first, rest, rfl⟩ := List.exists_cons_of_ne_nil hne
  rw [List.min?_cons', List.foldl_cons, Nat.min_eq_right (hle first List.mem_cons_self)]

theorem max?_eq_foldl {plies : List ℕ} (hne : plies ≠ []) :
    plies.max? = some (plies.foldl max 0) := by
  obtain ⟨first, rest, rfl⟩ := List.exists_cons_of_ne_nil hne
  rw [List.max?_cons', List.foldl_cons, Nat.zero_max]

private theorem length_plyDeltaBytes (plies : List ℕ) :
    plies.length ≤ (plyDeltaBytes plies).length + 1 := by
  induction plies with
  | nil => simp
  | cons first plies ih =>
    cases plies with
    | nil => simp
    | cons second plies =>
      have hpos := Codec.Leb128.length_encode_pos (wrappingSub 64 second first)
      rw [plyDeltaBytes_cons, List.length_append, List.length_cons, writeUleb128_eq]
      omega

theorem length_groupPlies_le (previous : Option ℕ) (groups : GameGroups) :
    (groupPlies groups).length ≤ (postingBytes previous groups).length := by
  induction groups generalizing previous with
  | nil => simp [groupPlies]
  | cons group groups ih =>
    have htail := ih (some group.1)
    have hplies := length_plyDeltaBytes group.2
    have hpos := Codec.Leb128.length_encode_pos group.2.length
    rw [groupPlies] at htail ⊢
    rw [List.flatMap_cons, List.length_append, postingBytes, gameGroupBytes]
    simp only [List.length_append, writeUleb128_eq]
    omega

end Plies

section Group

variable {group : HashGroup}

theorem groupPlies_groupRuns (occ : List (ℕ × ℕ)) :
    groupPlies (groupRuns occ) = occ.map Prod.snd := by
  have h : groupPlies (groupRuns occ) = (ungroup (groupRuns occ)).map Prod.snd := by
    rw [groupPlies, ungroup, List.map_flatMap]
    simp [Function.comp_def]
  rw [h, ungroup_groupRuns]

theorem occurrencesOf_groupRuns (occ : List (ℕ × ℕ)) :
    occurrencesOf (groupRuns occ) =
      occ.map fun o => ⟨UInt32.ofNat o.1, UInt16.ofNat o.2⟩ := by
  have h : occurrencesOf (groupRuns occ) =
      (ungroup (groupRuns occ)).map fun o => ⟨UInt32.ofNat o.1, UInt16.ofNat o.2⟩ := by
    rw [occurrencesOf, ungroup, List.map_flatMap]
    simp [Function.comp_def]
  rw [h, ungroup_groupRuns]

theorem GroupOk.groupsOk (h : GroupOk group) : GroupsOk (groupRuns group.2) where
  ascending := pairwise_groupRuns (pairwise_keys h.ascending)
  id_pos g hg := by
    obtain ⟨v, hv⟩ := List.exists_mem_of_ne_nil _ (ne_nil_of_mem_groupRuns g hg)
    exact h.game_pos _ (mem_of_mem_groupRuns hg hv)
  id_lt g hg := by
    obtain ⟨v, hv⟩ := List.exists_mem_of_ne_nil _ (ne_nil_of_mem_groupRuns g hg)
    exact h.game_lt _ (mem_of_mem_groupRuns hg hv)
  plies_ne := ne_nil_of_mem_groupRuns
  plies_ascending _ hg := pairwise_values h.ascending hg
  ply_lt _ hg _ hp := h.ply_lt _ (mem_of_mem_groupRuns hg hp)

theorem describes_entryOf (offset : ℕ) (group : HashGroup) :
    Describes (entryOf offset group) (groupRuns group.2) where
  distinct := rfl
  occurrence := by rw [groupPlies_groupRuns, List.length_map, entryOf]
  min := by rw [groupPlies_groupRuns, entryOf]
  max := by rw [groupPlies_groupRuns, entryOf]

private theorem length_groupRuns_le (occ : List (ℕ × ℕ)) : (groupRuns occ).length ≤ occ.length := by
  have hsum : ∀ groups : GameGroups, (∀ g ∈ groups, g.2 ≠ []) →
      groups.length ≤ (groupPlies groups).length := by
    intro groups hne
    induction groups with
    | nil => simp
    | cons g groups ih =>
      have hpos := List.length_pos_iff.mpr (hne g List.mem_cons_self)
      have htail := ih fun x hx => hne x (List.mem_cons_of_mem _ hx)
      rw [groupPlies] at htail ⊢
      rw [List.flatMap_cons, List.length_append, List.length_cons]
      omega
  have h := hsum (groupRuns occ) ne_nil_of_mem_groupRuns
  rwa [groupPlies_groupRuns, List.length_map] at h

theorem length_occurrences_le (group : HashGroup) :
    group.2.length ≤ (groupBytes group).length := by
  have h := length_groupPlies_le none (groupRuns group.2)
  rwa [groupPlies_groupRuns, List.length_map] at h

theorem GroupOk.written (h : GroupOk group) {offset : ℕ}
    (hlength : (groupBytes group).length < 2 ^ 64) : (entryOf offset group).Written := by
  have hplies : group.2.map Prod.snd ≠ [] := by simpa using h.ne_nil
  have hbound : ∀ p ∈ group.2.map Prod.snd, p ≤ uint16Max := by
    intro p hp
    obtain ⟨o, ho, rfl⟩ := List.mem_map.mp hp
    have := h.ply_lt o ho
    unfold uint16Max
    omega
  obtain ⟨hlow, hle⟩ := List.min?_eq_some_iff.mp (min?_eq_foldl hplies hbound)
  obtain ⟨hhigh, hge⟩ := List.max?_eq_some_iff.mp (max?_eq_foldl hplies)
  have hmax := hbound _ hhigh
  refine ⟨hlength, ?_, length_groupRuns_le group.2, length_occurrences_le group, hge _ hlow, ?_⟩
  · refine List.length_pos_iff.mpr fun hnil => h.ne_nil ?_
    rw [← ungroup_groupRuns group.2, hnil]
    rfl
  · exact hmax.trans_lt (by decide)

end Group

section Entries

variable {offset : ℕ} {groups : List HashGroup} {e : DirectoryBlockEntry}

theorem exists_split_of_mem_entriesFrom (he : e ∈ entriesFrom offset groups) :
    ∃ front group back, groups = front ++ group :: back ∧
      e = entryOf (offset + (front.flatMap groupBytes).length) group := by
  induction groups generalizing offset with
  | nil => cases he
  | cons first groups ih =>
    rw [entriesFrom] at he
    rcases List.mem_cons.mp he with rfl | he
    · exact ⟨[], first, groups, rfl, by simp⟩
    · obtain ⟨front, group, back, rfl, rfl⟩ := ih he
      refine ⟨first :: front, group, back, rfl, ?_⟩
      rw [List.flatMap_cons, List.length_append, Nat.add_assoc]

theorem mem_entriesFrom {front back : List HashGroup} {group : HashGroup}
    (h : groups = front ++ group :: back) :
    entryOf (offset + (front.flatMap groupBytes).length) group ∈ entriesFrom offset groups := by
  subst h
  induction front generalizing offset with
  | nil => simp [entriesFrom]
  | cons first front ih =>
    rw [List.flatMap_cons, List.length_append, ← Nat.add_assoc, List.cons_append, entriesFrom]
    exact List.mem_cons_of_mem _ ih

@[simp] theorem map_hash_entriesFrom (offset : ℕ) (groups : List HashGroup) :
    (entriesFrom offset groups).map DirectoryBlockEntry.hash = groups.map Prod.fst := by
  induction groups generalizing offset with
  | nil => rfl
  | cons group groups ih =>
    rw [entriesFrom, List.map_cons, ih]
    rfl

@[simp] theorem length_entriesFrom (offset : ℕ) (groups : List HashGroup) :
    (entriesFrom offset groups).length = groups.length := by
  rw [← List.length_map DirectoryBlockEntry.hash, map_hash_entriesFrom, List.length_map]

private theorem isChain_entriesFrom (hascending : (groups.map Prod.fst).Pairwise (· < ·)) :
    (entriesFrom offset groups).IsChain Follows := by
  induction groups generalizing offset with
  | nil => exact List.IsChain.nil
  | cons first groups ih =>
    rw [List.map_cons, List.pairwise_cons] at hascending
    cases groups with
    | nil => exact List.IsChain.singleton _
    | cons second groups =>
      have htail := @ih (offset + (groupBytes first).length) hascending.2
      rw [entriesFrom] at htail
      exact List.IsChain.cons_cons ⟨hascending.1 second.1 (by simp), rfl⟩ htail

theorem representable_entriesFrom (hascending : (groups.map Prod.fst).Pairwise (· < ·))
    (hok : ∀ g ∈ groups, GroupOk g)
    (hfit : offset + (groups.flatMap groupBytes).length < 2 ^ 64) :
    Representable (entriesFrom offset groups) := by
  have hend : ∀ {front back : List HashGroup} {group : HashGroup},
      groups = front ++ group :: back →
      offset + (front.flatMap groupBytes).length + (groupBytes group).length < 2 ^ 64 := by
    rintro front back group rfl
    rw [List.flatMap_append, List.flatMap_cons, List.length_append, List.length_append] at hfit
    omega
  refine ⟨isChain_entriesFrom hascending, fun e he => ?_, fun e he => ?_, fun e he => ?_⟩
  · obtain ⟨front, group, back, hgroups, rfl⟩ := exists_split_of_mem_entriesFrom he
    have := hend hgroups
    exact (hok group (by simp [hgroups])).written (by omega)
  · obtain ⟨front, group, back, hgroups, rfl⟩ := exists_split_of_mem_entriesFrom he
    exact (hok group (by simp [hgroups])).hash_lt
  · obtain ⟨front, group, back, hgroups, rfl⟩ := exists_split_of_mem_entriesFrom he
    exact hend hgroups

theorem Representable.sublist {entries block : List DirectoryBlockEntry} (h : Representable entries)
    (hblock : block <:+: entries) : Representable block where
  chain := List.IsChain.infix h.chain hblock
  written e he := h.written e (hblock.subset he)
  hash_lt e he := h.hash_lt e (hblock.subset he)
  end_lt e he := h.end_lt e (hblock.subset he)

end Entries

section Records

theorem groupRuns_records {kept : List Record} (hascending : kept.Pairwise (· < ·))
    (hash_lt : ∀ r ∈ kept, r.hash < 2 ^ 64) (game_pos : ∀ r ∈ kept, 0 < r.gameKey)
    (game_lt : ∀ r ∈ kept, r.gameKey < 2 ^ 32) (ply_lt : ∀ r ∈ kept, r.ply < 2 ^ 16) :
    ((groupRuns (kept.map Record.pair)).map Prod.fst).Pairwise (· < ·) ∧
      ∀ g ∈ groupRuns (kept.map Record.pair), GroupOk g := by
  have hlex : (kept.map Record.pair).Pairwise
      (Prod.Lex (· < ·) (Prod.Lex (· < ·) (· < ·))) := by
    rw [List.pairwise_map]
    refine hascending.imp fun {a b} hlt => ?_
    have hkey : a.key < b.key := hlt
    rw [Record.key, Record.key, Prod.Lex.toLex_lt_toLex, Prod.Lex.toLex_lt_toLex] at hkey
    rw [Record.pair, Record.pair, Prod.lex_def, Prod.lex_def]
    exact hkey
  refine ⟨pairwise_groupRuns (pairwise_keys hlex), fun g hg => ?_⟩
  have hrecord : ∀ o ∈ g.2, ∃ r ∈ kept, r.hash = g.1 ∧ r.gameKey = o.1 ∧ r.ply = o.2 := by
    intro o ho
    obtain ⟨r, hr, heq⟩ := List.mem_map.mp (mem_of_mem_groupRuns hg ho)
    obtain ⟨hhash, hrest⟩ := Prod.mk.inj heq
    exact ⟨r, hr, hhash, congrArg Prod.fst hrest, congrArg Prod.snd hrest⟩
  obtain ⟨first, hfirst⟩ := List.exists_mem_of_ne_nil _ (ne_nil_of_mem_groupRuns g hg)
  refine ⟨?_, ne_nil_of_mem_groupRuns g hg, pairwise_values hlex hg, fun o ho => ?_,
    fun o ho => ?_, fun o ho => ?_⟩
  · obtain ⟨r, hr, hhash, _⟩ := hrecord first hfirst
    exact hhash ▸ hash_lt r hr
  · obtain ⟨r, hr, _, hgame, _⟩ := hrecord o ho
    exact hgame ▸ game_pos r hr
  · obtain ⟨r, hr, _, hgame, _⟩ := hrecord o ho
    exact hgame ▸ game_lt r hr
  · obtain ⟨r, hr, _, _, hply⟩ := hrecord o ho
    exact hply ▸ ply_lt r hr

end Records

end MotifChess.Db.PositionPostings
