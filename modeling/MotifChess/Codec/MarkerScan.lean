/- GID: MotifChess/Codec/MarkerScan
   generality: general
   digest: How often a marker stands in a text, counted by searching from match to match. -/

import Mathlib.Data.List.Infix

/-! A text that is read in parts is scanned part by part, each with the end of what was read before
it in front.  As many characters as a marker has but one are enough of that end: a marker that
stands across parts starts in them, and none stands in them alone. -/

set_option autoImplicit false
set_option relaxedAutoImplicit false

namespace MotifChess.Codec.MarkerScan

universe u

variable {α : Type u} [DecidableEq α]

section Occurrences

/-- The number of places of a text at which a marker stands. -/
def occurrences (marker text : List α) : ℕ :=
  text.tails.countP fun suffix => marker.isPrefixOf suffix

variable {marker : List α}

theorem stands_iff {text : List α} : marker.isPrefixOf text = true ↔ marker <+: text :=
  List.isPrefixOf_iff_prefix

theorem occurrences_nil (hmarker : marker ≠ []) : occurrences marker [] = 0 := by
  cases marker with
  | nil => exact absurd rfl hmarker
  | cons first others => rfl

theorem occurrences_cons (marker : List α) (a : α) (text : List α) :
    occurrences marker (a :: text) =
      occurrences marker text + if marker.isPrefixOf (a :: text) then 1 else 0 := by
  rw [occurrences, List.tails_cons, List.countP_cons]
  rfl

theorem isPrefixOf_eq_false {text : List α} (h : text.length < marker.length) :
    marker.isPrefixOf text = false := by
  apply eq_false_of_ne_true
  intro hstands
  have hle := (stands_iff.mp hstands).length_le
  omega

theorem occurrences_of_length_lt {text : List α} (h : text.length < marker.length) :
    occurrences marker text = 0 := by
  rw [occurrences, List.countP_eq_zero]
  intro suffix hsuffix
  have hle := ((List.mem_tails _ _).mp hsuffix).length_le
  rw [isPrefixOf_eq_false (hle.trans_lt h)]
  exact Bool.false_ne_true

/-- Whether a marker stands at the front of a text that has room for it does not depend on what
follows the text. -/
theorem isPrefixOf_append {text : List α} (h : marker.length ≤ text.length) (rest : List α) :
    marker.isPrefixOf (text ++ rest) = marker.isPrefixOf text := by
  rw [Bool.eq_iff_iff, stands_iff, stands_iff]
  constructor
  · intro hstands
    exact List.prefix_of_prefix_length_le hstands (List.prefix_append text rest) h
  · intro hstands
    exact List.prefix_append_of_prefix hstands

/-- Text that is read later adds the places at which a marker starts within the last characters
read before. -/
theorem occurrences_append (hmarker : marker ≠ []) (read rest : List α) :
    occurrences marker (read ++ rest) = occurrences marker read +
      occurrences marker (read.drop (read.length - (marker.length - 1)) ++ rest) := by
  have hpos := List.length_pos_iff.mpr hmarker
  induction read with
  | nil =>
    rw [List.nil_append, List.drop_nil, List.nil_append, occurrences_nil hmarker, Nat.zero_add]
  | cons a read ih =>
    by_cases hshort : (a :: read).length < marker.length
    · have hkept : (a :: read).length - (marker.length - 1) = 0 := by omega
      rw [hkept, List.drop_zero, occurrences_of_length_lt hshort, Nat.zero_add]
    · have hlong : marker.length ≤ (a :: read).length := Nat.le_of_not_lt hshort
      have hkept : (a :: read).length - (marker.length - 1) =
          read.length - (marker.length - 1) + 1 := by
        rw [List.length_cons] at hlong ⊢
        omega
      have hfront := isPrefixOf_append hlong rest
      rw [List.cons_append] at hfront
      rw [hkept, List.drop_succ_cons, List.cons_append, occurrences_cons, occurrences_cons, hfront, ih]
      omega

end Occurrences

section Search

/-- `std::search`: the text from the first place at which a marker stands. -/
def search (marker : List α) : List α → Option (List α)
  | [] => none
  | a :: text => if marker.isPrefixOf (a :: text) then some (a :: text) else search marker text

variable {marker text found : List α}

theorem search_eq_some (h : search marker text = some found) :
    found.length ≤ text.length ∧ found ≠ [] ∧ marker <+: found ∧
      occurrences marker text = occurrences marker found := by
  induction text with
  | nil => cases h
  | cons a text ih =>
    rw [search] at h
    split at h
    next hstands =>
      obtain rfl := Option.some.inj h
      exact ⟨le_rfl, List.cons_ne_nil _ _, stands_iff.mp hstands, rfl⟩
    next hnot =>
      obtain ⟨hle, hne, hstands, hsame⟩ := ih h
      refine ⟨hle.trans (Nat.le_succ _), hne, hstands, ?_⟩
      rw [occurrences_cons, if_neg hnot]
      exact hsame

theorem search_eq_none (hmarker : marker ≠ []) (h : search marker text = none) :
    occurrences marker text = 0 := by
  induction text with
  | nil => exact occurrences_nil hmarker
  | cons a text ih =>
    rw [search] at h
    split at h
    · cases h
    next hnot =>
      rw [occurrences_cons, if_neg hnot]
      exact ih h

end Search

section Counting

variable (first : α) (others : List α)

/-- Search for a marker, go on behind it, and count the searches that find one. -/
def countFound (text : List α) : ℕ :=
  match hsearch : search (first :: others) text with
  | none => 0
  | some found => countFound (found.drop (others.length + 1)) + 1
termination_by text.length
decreasing_by
  obtain ⟨hle, hne, -⟩ := search_eq_some hsearch
  have hpos := List.length_pos_iff.mpr hne
  rw [List.length_drop]
  omega

variable {first others}

/-- No marker starts in a text without its first character. -/
theorem occurrences_skip {skipped : List α} (h : first ∉ skipped) (text : List α) :
    occurrences (first :: others) (skipped ++ text) = occurrences (first :: others) text := by
  induction skipped with
  | nil => rfl
  | cons a skipped ih =>
    obtain ⟨hne, hrest⟩ := not_or.mp (mt List.mem_cons.mpr h)
    have hnot : ¬(first :: others).isPrefixOf (a :: (skipped ++ text)) = true := by
      intro hstands
      have hsame := stands_iff.mp hstands
      exact hne (List.cons_prefix_cons.mp hsame).1
    rw [List.cons_append, occurrences_cons, if_neg hnot]
    exact ih hrest

/-- A marker whose first character does not come back in it never overlaps itself, so that the
search from match to match counts every place at which it stands. -/
theorem countFound_eq (h : first ∉ others) (text : List α) :
    countFound first others text = occurrences (first :: others) text := by
  induction hlength : text.length using Nat.strong_induction_on generalizing text with
  | h n ih =>
    subst hlength
    rw [countFound]
    split
    next hnone => exact (search_eq_none (List.cons_ne_nil _ _) hnone).symm
    next found hsome =>
      obtain ⟨hle, hne, ⟨rest, rfl⟩, hsame⟩ := search_eq_some hsome
      have hrest : ((first :: others) ++ rest).drop (others.length + 1) = rest :=
        List.drop_left' (List.length_cons ..)
      have hstands : (first :: others).isPrefixOf (first :: (others ++ rest)) = true :=
        stands_iff.mpr (List.prefix_append _ _)
      have hshorter : rest.length < text.length := by
        rw [List.length_append, List.length_cons] at hle
        omega
      rw [hrest, ih _ hshorter rest rfl, hsame, List.cons_append, occurrences_cons, if_pos hstands,
        occurrences_skip h]

end Counting

end MotifChess.Codec.MarkerScan
