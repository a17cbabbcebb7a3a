/- GID: MotifChess/Codec/RawLines
   generality: general
   digest: The lines of a text with their line ends, and the positions at which they start. -/

import Mathlib.Data.Nat.Notation
import Mathlib.Data.List.Basic

set_option autoImplicit false
set_option relaxedAutoImplicit false

namespace MotifChess.Codec.RawLines

universe u

variable {α : Type u} [DecidableEq α] (newline : α)

/-- The lines of a text; each but the last ends with the line end. -/
def rawLines : List α → List (List α)
  | [] => []
  | c :: text =>
    if c = newline then [c] :: rawLines text
    else
      match rawLines text with
      | [] => [[c]]
      | line :: lines => (c :: line) :: lines

/-- A position at which a line starts. -/
def StartsLine (text : List α) (position : ℕ) : Prop :=
  position = 0 ∨ text[position - 1]? = some newline

instance (text : List α) (position : ℕ) : Decidable (StartsLine newline text position) :=
  inferInstanceAs (Decidable (_ ∨ _))

variable {newline} {text front : List α} {c : α}

@[simp] theorem rawLines_nil : rawLines newline [] = [] := rfl

theorem rawLines_newline : rawLines newline (newline :: text) = [newline] :: rawLines newline text :=
  if_pos rfl

theorem rawLines_cons_of_nil (hc : c ≠ newline) (h : rawLines newline text = []) :
    rawLines newline (c :: text) = [[c]] := by
  rw [rawLines, if_neg hc, h]

theorem rawLines_cons_of_cons {line : List α} {lines : List (List α)} (hc : c ≠ newline)
    (h : rawLines newline text = line :: lines) :
    rawLines newline (c :: text) = (c :: line) :: lines := by
  rw [rawLines, if_neg hc, h]

@[simp] theorem flatten_rawLines (text : List α) : (rawLines newline text).flatten = text := by
  induction text with
  | nil => rfl
  | cons c text ih =>
    by_cases hc : c = newline
    · subst hc
      rw [rawLines_newline, List.flatten_cons, ih, List.singleton_append]
    · cases hlines : rawLines newline text with
      | nil =>
        rw [hlines] at ih
        rw [rawLines_cons_of_nil hc hlines, ← ih]
        rfl
      | cons line lines =>
        rw [hlines] at ih
        rw [rawLines_cons_of_cons hc hlines, ← ih]
        rfl

theorem rawLines_ne_nil (h : text ≠ []) : rawLines newline text ≠ [] := by
  intro hnil
  have hflat : (rawLines newline text).flatten = text := flatten_rawLines text
  rw [hnil] at hflat
  exact h hflat.symm

theorem ne_nil_of_mem_rawLines {line : List α} (h : line ∈ rawLines newline text) : line ≠ [] := by
  induction text generalizing line with
  | nil => cases h
  | cons c text ih =>
    by_cases hc : c = newline
    · subst hc
      rw [rawLines_newline] at h
      rcases List.mem_cons.mp h with rfl | h
      · exact List.cons_ne_nil _ _
      · exact ih h
    · cases hlines : rawLines newline text with
      | nil =>
        rw [rawLines_cons_of_nil hc hlines, List.mem_singleton] at h
        subst h
        exact List.cons_ne_nil _ _
      | cons first lines =>
        rw [rawLines_cons_of_cons hc hlines] at h
        rcases List.mem_cons.mp h with rfl | h
        · exact List.cons_ne_nil _ _
        · exact ih (hlines ▸ List.mem_cons_of_mem first h)

/-- Behind a line end the lines go on as those of the rest. -/
theorem rawLines_append_newline (front : List α) :
    rawLines newline (front ++ newline :: text) =
      rawLines newline (front ++ [newline]) ++ rawLines newline text := by
  induction front with
  | nil => rw [List.nil_append, List.nil_append, rawLines_newline, rawLines_newline]; rfl
  | cons c front ih =>
    rw [List.cons_append, List.cons_append]
    by_cases hc : c = newline
    · subst hc
      rw [rawLines_newline, rawLines_newline, ih, List.cons_append]
    · cases hlines : rawLines newline (front ++ [newline]) with
      | nil => exact absurd hlines (rawLines_ne_nil (by simp))
      | cons line lines =>
        rw [hlines, List.cons_append] at ih
        rw [rawLines_cons_of_cons hc hlines, rawLines_cons_of_cons hc ih, List.cons_append]

/-- At the start of a line the lines of a text split. -/
theorem rawLines_of_startsLine {position : ℕ} (h : StartsLine newline text position) :
    rawLines newline text =
      rawLines newline (text.take position) ++ rawLines newline (text.drop position) := by
  cases position with
  | zero => simp
  | succ position =>
    have hend : text[position]? = some newline := by
      rcases h with h | h
      · omega
      · exact h
    obtain ⟨hlt, hget⟩ := List.getElem?_eq_some_iff.mp hend
    have hsplit : text = text.take position ++ newline :: text.drop (position + 1) := by
      rw [← hget, List.getElem_cons_drop, List.take_append_drop]
    have htake : text.take (position + 1) = text.take position ++ [newline] := by
      rw [List.take_add_one, hend]
      rfl
    rw [htake, ← rawLines_append_newline, ← hsplit]

/-- Lines with others behind them end with a line end. -/
theorem flatten_eq_of_append {first : List α} {before after : List (List α)}
    (h : rawLines newline text = first :: before ++ after) (hafter : after ≠ []) :
    ∃ front, (first :: before).flatten = front ++ [newline] := by
  induction text generalizing first before with
  | nil => cases h
  | cons c text ih =>
    by_cases hc : c = newline
    · subst hc
      rw [rawLines_newline, List.cons_append] at h
      obtain ⟨rfl, hrest⟩ := List.cons.inj h
      cases before with
      | nil => exact ⟨[], rfl⟩
      | cons second before =>
        obtain ⟨front, hfront⟩ := ih hrest
        refine ⟨c :: front, ?_⟩
        rw [List.flatten_cons, hfront]
        rfl
    · cases hlines : rawLines newline text with
      | nil =>
        rw [rawLines_cons_of_nil hc hlines, List.cons_append] at h
        exact absurd (List.append_eq_nil_iff.mp (List.cons.inj h).2.symm).2 hafter
      | cons line lines =>
        rw [rawLines_cons_of_cons hc hlines, List.cons_append] at h
        obtain ⟨rfl, hrest⟩ := List.cons.inj h
        have hshape : rawLines newline text = line :: before ++ after := by
          rw [hlines, hrest]
          rfl
        obtain ⟨front, hfront⟩ := ih hshape
        refine ⟨c :: front, ?_⟩
        rw [List.flatten_cons] at hfront ⊢
        rw [List.cons_append, hfront]
        rfl

/-- What stands before further lines ends at the start of a line. -/
theorem startsLine_of_append {before after : List (List α)}
    (h : rawLines newline text = before ++ after) (hafter : after ≠ []) :
    StartsLine newline text before.flatten.length := by
  cases before with
  | nil => exact Or.inl rfl
  | cons first before =>
    obtain ⟨front, hfront⟩ := flatten_eq_of_append h hafter
    have htext := congrArg List.flatten h
    rw [flatten_rawLines, List.flatten_append, hfront, List.append_assoc] at htext
    refine Or.inr ?_
    rw [hfront, htext, List.length_append, List.length_singleton, Nat.add_sub_cancel,
      List.getElem?_append_right (Nat.le_refl _), Nat.sub_self]
    rfl

/-- A text without line ends begins the first line exactly when it begins the text. -/
theorem prefix_head_iff {start : List α} (hstart : start ≠ []) (hplain : newline ∉ start) :
    (∃ line ∈ (rawLines newline text).head?, start <+: line) ↔ start <+: text := by
  constructor
  · intro h
    obtain ⟨line, hline, hprefix⟩ := h
    obtain ⟨lines, hlines⟩ := List.head?_eq_some_iff.mp hline
    refine hprefix.trans ⟨lines.flatten, ?_⟩
    rw [← List.flatten_cons, ← hlines, flatten_rawLines]
  · intro h
    induction start generalizing text with
    | nil => exact absurd rfl hstart
    | cons s start ih =>
      obtain ⟨hs, hrest⟩ := not_or.mp (mt List.mem_cons.mpr hplain)
      obtain ⟨rest, rfl⟩ := h
      rw [List.cons_append]
      cases hlines : rawLines newline (start ++ rest) with
      | nil =>
        have hempty : start = [] := by
          by_contra hne
          exact rawLines_ne_nil (by simp [hne]) hlines
        subst hempty
        refine ⟨[s], ?_, List.prefix_rfl⟩
        rw [rawLines_cons_of_nil (Ne.symm hs) hlines]
        rfl
      | cons line lines =>
        refine ⟨s :: line, by rw [rawLines_cons_of_cons (Ne.symm hs) hlines]; rfl, ?_⟩
        rw [List.cons_prefix_cons]
        refine ⟨rfl, ?_⟩
        by_cases hne : start = []
        · subst hne
          exact List.nil_prefix
        · obtain ⟨line', hline', hprefix⟩ := ih hne hrest (List.prefix_append start rest)
          rw [hlines] at hline'
          obtain rfl := Option.some.inj hline'
          exact hprefix

end MotifChess.Codec.RawLines
