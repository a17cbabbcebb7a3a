/- GID: MotifChess/Codec/Decimal
   generality: general
   digest: Numbers as decimal texts, and what a bounded reader of a whole text accepts. -/

import Mathlib.Data.List.TakeWhile

set_option autoImplicit false
set_option relaxedAutoImplicit false

namespace MotifChess.Codec.Decimal

variable {bound n m : ℕ} {text : List Char}

section Reading

/-- The number of the digits at the front of a text, unless there are none or it exceeds a bound, and
the text after them. -/
def fromChars (bound : ℕ) (text : List Char) : Option (ℕ × List Char) :=
  let digits := text.takeWhile Char.isDigit
  let value := Nat.ofDigitChars 10 digits 0
  if digits.isEmpty || bound < value then none else some (value, text.dropWhile Char.isDigit)

/-- The number of a text that is read to its end. -/
def readWhole (bound : ℕ) (text : List Char) : Option ℕ :=
  (fromChars bound text).bind fun found => if found.2.isEmpty then some found.1 else none

/-- A text that stands for a number; zeros may lead. -/
structure Stands (text : List Char) (n : ℕ) : Prop where
  nonempty : text ≠ []
  digits : ∀ c ∈ text, c.isDigit = true
  value : Nat.ofDigitChars 10 text 0 = n

theorem Stands.unique (h : Stands text n) (h' : Stands text m) : n = m := h.value.symm.trans h'.value

/-- The whole of a text is read exactly if it stands for a number within the bound. -/
theorem readWhole_eq_some : readWhole bound text = some n ↔ Stands text n ∧ n ≤ bound := by
  constructor
  · intro h
    obtain ⟨⟨value, rest⟩, hfound, hrest⟩ := Option.bind_eq_some_iff.mp h
    unfold fromChars at hfound
    dsimp only at hfound
    split at hfound
    · cases hfound
    next hread =>
      obtain ⟨rfl, rfl⟩ := Prod.mk.inj (Option.some.inj hfound)
      dsimp only at hrest
      split at hrest
      next hempty =>
        have hdigits : ∀ c ∈ text, c.isDigit = true :=
          List.dropWhile_eq_nil_iff.mp (List.isEmpty_iff.mp hempty)
        have hwhole : text.takeWhile Char.isDigit = text := List.takeWhile_eq_self_iff.mpr hdigits
        rw [hwhole] at hread hrest
        rw [Bool.or_eq_true, not_or, List.isEmpty_iff, decide_eq_true_iff, Nat.not_lt] at hread
        obtain rfl := Option.some.inj hrest
        exact ⟨⟨hread.1, hdigits, rfl⟩, hread.2⟩
      next => cases hrest
  · rintro ⟨h, hle⟩
    have hwhole : text.takeWhile Char.isDigit = text := List.takeWhile_eq_self_iff.mpr h.digits
    have hrest : text.dropWhile Char.isDigit = [] := List.dropWhile_eq_nil_iff.mpr h.digits
    have hread : ¬(text.isEmpty || decide (bound < n)) = true := by
      rw [Bool.or_eq_true, not_or, List.isEmpty_iff, decide_eq_true_iff, Nat.not_lt]
      exact ⟨h.nonempty, hle⟩
    simp only [readWhole, fromChars, hwhole, hrest, h.value]
    rw [if_neg hread]
    rfl

end Reading

section Writing

/-- The text that is written for a number stands for it. -/
theorem stands_repr (n : ℕ) : Stands (Nat.repr n).toList n where
  nonempty := by
    rw [Nat.toList_repr]
    exact Nat.toDigits_ne_nil
  digits c hc := by
    rw [Nat.toList_repr] at hc
    exact Nat.isDigit_of_mem_toDigits (by decide) (by decide) hc
  value := by
    rw [Nat.toList_repr]
    exact Nat.ofDigitChars_ten_toDigits

theorem readWhole_repr (h : n ≤ bound) : readWhole bound (Nat.repr n).toList = some n :=
  readWhole_eq_some.mpr ⟨stands_repr n, h⟩

end Writing

end MotifChess.Codec.Decimal
