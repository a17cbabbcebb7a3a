/- GID: MotifChess/Import/SourceReads
   generality: implementation
   digest: The reads of a source with the offsets at which they end, and how a reader goes along them. -/

import MotifChess.Import.PgnReader

set_option autoImplicit false
set_option relaxedAutoImplicit false

namespace MotifChess.Import

/-- What a reader finds, and the offset that it reports behind it. -/
abbrev SourceRead := Except ReadError PgnGame × ℕ

/-- Reads with the offsets at which they begin, turned into reads with those at which they end. -/
def withEnds (eofOffset : ℕ) : List (ℕ × Except ReadError PgnGame) → List SourceRead
  | [] => []
  | (_, found) :: rest => (found, (rest.head?.map Prod.fst).getD eofOffset) :: withEnds eofOffset rest

/-- All that a first reader of a file finds. -/
def sourceReads (importStream : List Char → List StreamItem) (text : List Char) : List SourceRead :=
  withEnds text.length (PgnReader.new importStream (some text)).yields

section Ends

variable {eofOffset : ℕ} {before after reads : List (ℕ × Except ReadError PgnGame)} {read : SourceRead}

theorem withEnds_append : withEnds eofOffset (before ++ after) =
    withEnds ((after.head?.map Prod.fst).getD eofOffset) before ++ withEnds eofOffset after := by
  induction before with
  | nil => rfl
  | cons first rest ih =>
    rw [List.cons_append, withEnds, withEnds, ih, List.cons_append]
    cases rest <;> rfl

theorem mem_withEnds (h : read ∈ withEnds eofOffset reads) : ∃ before offset after,
    reads = before ++ (offset, read.1) :: after ∧
      read.2 = (after.head?.map Prod.fst).getD eofOffset := by
  induction reads with
  | nil => cases h
  | cons first rest ih =>
    rcases List.mem_cons.mp h with rfl | hrest
    · exact ⟨[], first.1, rest, rfl, rfl⟩
    · obtain ⟨before, offset, after, rfl, hend⟩ := ih hrest
      exact ⟨first :: before, offset, after, rfl, hend⟩

theorem lt_of_mem_withEnds {first : ℕ × Except ReadError PgnGame}
    (hordered : ((first :: reads).map Prod.fst).Pairwise (· < ·))
    (hwithin : ∀ other ∈ first :: reads, other.1 < eofOffset)
    (h : read ∈ withEnds eofOffset (first :: reads)) : first.1 < read.2 := by
  induction reads generalizing first with
  | nil =>
    obtain rfl := List.mem_singleton.mp h
    exact hwithin first List.mem_cons_self
  | cons second rest ih =>
    have hlt : first.1 < second.1 := (List.pairwise_cons.mp hordered).1 _ List.mem_cons_self
    rcases List.mem_cons.mp h with rfl | hrest
    · exact hlt
    · have hsecond := ih (List.pairwise_cons.mp hordered).2
        (fun other hother => hwithin other (List.mem_cons_of_mem _ hother)) hrest
      omega

private theorem pairwise_withEnds (hordered : (reads.map Prod.fst).Pairwise (· < ·))
    (hwithin : ∀ other ∈ reads, other.1 < eofOffset) :
    (withEnds eofOffset reads).Pairwise fun a b => a.2 < b.2 := by
  induction reads with
  | nil => exact List.Pairwise.nil
  | cons first rest ih =>
    have htail := ih (List.pairwise_cons.mp hordered).2 fun other hother =>
      hwithin other (List.mem_cons_of_mem _ hother)
    refine List.pairwise_cons.mpr ⟨fun read hread => ?_, htail⟩
    cases rest with
    | nil => cases hread
    | cons second rest =>
      exact lt_of_mem_withEnds (List.pairwise_cons.mp hordered).2
        (fun other hother => hwithin other (List.mem_cons_of_mem _ hother)) hread

end Ends

namespace PgnReader

/-- What a reader with an open file has still to find. -/
def Leaves (text : List Char) (left : List (ℕ × Except ReadError PgnGame)) (r : PgnReader) : Prop :=
  ∃ base items, Holds text base items r ∧ left = items.map fun item => (base + item.1, readItem item.2)

variable {importStream : List Char → List StreamItem} {text : List Char}
  {left : List (ℕ × Except ReadError PgnGame)} {found : ℕ × Except ReadError PgnGame} {r : PgnReader}

section Reading

theorem leaves_new : Leaves text (new importStream (some text)).yields (new importStream (some text)) := by
  obtain ⟨items, -, hnew⟩ := holds_new importStream text
  exact ⟨_, items, hnew, hnew.yields⟩

theorem Leaves.next_nil (h : Leaves text [] r) : r.next = (.error .eof, r) := by
  obtain ⟨base, items, hholds, hleft⟩ := h
  obtain rfl := List.map_eq_nil_iff.mp hleft.symm
  exact hholds.next_nil

theorem Leaves.next_cons (h : Leaves text (found :: left) r) :
    r.next.1 = found.2 ∧ Leaves text left r.next.2 := by
  obtain ⟨base, items, hholds, hleft⟩ := h
  obtain ⟨item, rest, rfl, rfl, rfl⟩ := List.map_eq_cons_iff.mp hleft.symm
  exact ⟨hholds.next_cons.1, base, rest, hholds.next_cons.2, rfl⟩

theorem Leaves.ne_eof (h : Leaves text (found :: left) r) : found.2 ≠ .error .eof := by
  obtain ⟨base, items, -, hleft⟩ := h
  obtain ⟨item, rest, -, rfl, -⟩ := List.map_eq_cons_iff.mp hleft.symm
  exact readItem_ne_eof item.2

theorem Leaves.byteOffset (h : Leaves text left r) :
    r.byteOffset = (left.head?.map Prod.fst).getD text.length := by
  obtain ⟨base, items, hholds, rfl⟩ := h
  cases items with
  | nil => exact hholds.byteOffset_nil
  | cons item items => exact hholds.byteOffset_cons

theorem Leaves.after (h : Leaves text left r) (reads : ℕ) :
    Leaves text (left.drop reads) (r.after reads) := by
  obtain ⟨base, items, hholds, rfl⟩ := h
  exact ⟨base, items.drop reads, hholds.after reads, List.map_drop.symm⟩

theorem Leaves.yields (h : Leaves text left r) : r.yields = left := by
  obtain ⟨base, items, hholds, rfl⟩ := h
  exact hholds.yields

private theorem leaves_seek (importStream : List Char → List StreamItem) (text : List Char) (byteOffset : ℕ)
    (r : PgnReader) : Leaves text (r.seekToOffset importStream (some text) byteOffset).2.yields
      (r.seekToOffset importStream (some text) byteOffset).2 := by
  cases hscan : scanLines byteOffset 0 false (Codec.RawLines.rawLines '\n' text) with
  | none =>
    have hholds := (seek_of_none importStream r hscan).2
    exact ⟨_, _, hholds, hholds.yields⟩
  | some start =>
    have hholds := (seek_of_found importStream r hscan).2
    exact ⟨_, _, hholds, hholds.yields⟩

end Reading

end PgnReader

section Order

open PgnReader

variable {importStream : List Char → List StreamItem} {text : List Char}

private theorem yields_new : ∃ items,
    (items = importStream (text.drop (new importStream (some text)).baseOffset) ∨ items = []) ∧
      (new importStream (some text)).yields = items.map fun item =>
        ((new importStream (some text)).baseOffset + item.1, readItem item.2) := by
  obtain ⟨items, hitems, hnew⟩ := holds_new importStream text
  exact ⟨items, hitems, hnew.yields⟩

variable (h : ReadsInOrder importStream (text.drop (new importStream (some text)).baseOffset))
include h

theorem ordered_yields : ((new importStream (some text)).yields.map Prod.fst).Pairwise (· < ·) := by
  obtain ⟨items, hitems, hyields⟩ := @yields_new importStream text
  rw [hyields, List.map_map]
  rcases hitems with rfl | rfl
  · have hordered := h.ordered
    rw [List.pairwise_map] at hordered ⊢
    exact hordered.imp fun hlt => Nat.add_lt_add_left hlt _
  · exact List.Pairwise.nil

theorem within_yields : ∀ found ∈ (new importStream (some text)).yields, found.1 < text.length := by
  obtain ⟨items, hitems, hyields⟩ := @yields_new importStream text
  intro found hfound
  rw [hyields] at hfound
  obtain ⟨item, hitem, rfl⟩ := List.mem_map.mp hfound
  rcases hitems with rfl | rfl
  · have hlt := h.within item hitem
    rw [List.length_drop] at hlt
    dsimp only
    omega
  · cases hitem

theorem pairwise_sourceReads : (sourceReads importStream text).Pairwise fun a b => a.2 < b.2 :=
  pairwise_withEnds (ordered_yields h) (within_yields h)

theorem leaves_of_seek (before : List (ℕ × Except ReadError PgnGame))
    {after : List (ℕ × Except ReadError PgnGame)} {byteOffset : ℕ} {r r' : PgnReader}
    (hyields : (new importStream (some text)).yields = before ++ after)
    (hoffset : byteOffset = (after.head?.map Prod.fst).getD text.length)
    (hseek : seekToOffset importStream (some text) byteOffset r = (.ok (), r'))
    (hstands : r'.byteOffset = byteOffset) : Leaves text after r' := by
  obtain ⟨items, hitems, hall⟩ := @yields_new importStream text
  rw [hall] at hyields
  obtain ⟨first, rest, hsplit, rfl, rfl⟩ := List.map_eq_append_iff.mp hyields
  set base := (new importStream (some text)).baseOffset
  have hr' : r' = (seekToOffset importStream (some text) byteOffset r).2 := by rw [hseek]
  cases rest with
  | nil =>
    have hnone : scanLines byteOffset 0 false (Codec.RawLines.rawLines '\n' text) = none := by
      rw [Option.eq_none_iff_forall_ne_some]
      intro position hscan
      have hle := (le_of_scanLines hscan).1
      have hlt := lt_of_scanLines hscan
      rw [Codec.RawLines.flatten_rawLines] at hlt
      change byteOffset = text.length at hoffset
      omega
    rw [hr']
    exact ⟨0, [], (seek_of_none importStream r hnone).2, rfl⟩
  | cons item rest =>
    change byteOffset = base + item.1 at hoffset
    obtain rfl : items = importStream (text.drop base) := by
      rcases hitems with hitems | rfl
      · exact hitems
      · simp at hsplit
    have hlt : first.length < (importStream (text.drop base)).length := by
      rw [hsplit, List.length_append, List.length_cons]
      omega
    have hitem : (importStream (text.drop base))[first.length] = item := by
      simp only [hsplit, List.getElem_append_right (Nat.le_refl _), Nat.sub_self,
        List.getElem_cons_zero]
    have hinside : byteOffset < text.length := by
      have hwithin := h.within item (hitem ▸ List.getElem_mem hlt)
      rw [List.length_drop] at hwithin
      omega
    have hordered : ∀ other ∈ item :: rest, item.1 ≤ other.1 := by
      have hpairwise := h.ordered
      rw [hsplit, List.map_append, List.pairwise_append] at hpairwise
      intro other hother
      rcases List.mem_cons.mp hother with rfl | hmem
      · exact le_rfl
      · exact le_of_lt ((List.pairwise_cons.mp hpairwise.2.1).1 _ (List.mem_map_of_mem hmem))
    have hresumes := h.resumes first.length hlt
    rw [hitem, List.drop_drop, ← hoffset] at hresumes
    have hdrop : (importStream (text.drop base)).drop first.length = item :: rest := by
      rw [hsplit, List.drop_left]
    rw [hdrop] at hresumes
    cases hscan : scanLines byteOffset 0 false (Codec.RawLines.rawLines '\n' text) with
    | none =>
      have hholds := (seek_of_none importStream r hscan).2
      rw [← hr'] at hholds
      have heof := hholds.byteOffset_nil
      omega
    | some start =>
      have hle := (le_of_scanLines hscan).1
      have hholds := (seek_of_found importStream r hscan).2
      rw [← hr'] at hholds
      cases hstream : importStream (text.drop start) with
      | nil =>
        rw [hstream] at hholds
        have heof := hholds.byteOffset_nil
        omega
      | cons found others =>
        rw [hstream] at hholds
        have hfound := hholds.byteOffset_cons
        obtain rfl : start = byteOffset := by omega
        rw [← hstream, hresumes] at hholds
        refine ⟨start, _, hholds, ?_⟩
        rw [List.map_map]
        apply List.map_congr_left
        intro other hother
        have hother' := hordered other hother
        have hsame : start + (other.1 - item.1) = base + other.1 := by omega
        simp only [Function.comp_apply, hsame]

omit h in
theorem byteOffset_of_resumesAt {read : SourceRead} {r r' : PgnReader}
    (hresumes : ∀ reads r, ResumesAt importStream text reads r)
    (hread : read ∈ sourceReads importStream text)
    (hseek : seekToOffset importStream (some text) read.2 r = (.ok (), r')) :
    r'.byteOffset = read.2 := by
  obtain ⟨before, offset, after, hyields, hend⟩ := mem_withEnds hread
  have hfirst := (@leaves_new importStream text).after (before.length + 1)
  have hafter : (new importStream (some text)).yields.drop (before.length + 1) = after := by
    rw [hyields, List.drop_length_add_append, List.drop_succ_cons, List.drop_zero]
  rw [hafter] at hfirst
  have hresumed := (hresumes (before.length + 1) r).2
  rw [hfirst.byteOffset, ← hend, hfirst.yields, hseek] at hresumed
  have hleaves := leaves_seek importStream text read.2 r
  rw [hseek, hresumed] at hleaves
  rw [hleaves.byteOffset, hend]

end Order

end MotifChess.Import
