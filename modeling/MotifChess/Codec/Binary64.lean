/- GID: MotifChess/Codec/Binary64
   generality: general
   digest: The bits of double precision numbers, exact on halves of integers of 53 bits. -/

import Mathlib.Algebra.Order.Field.Rat
import Mathlib.Algebra.Order.Ring.Abs
import Mathlib.Data.Rat.Lemmas
import Mathlib.Data.Nat.Log
import Mathlib.Tactic.FieldSimp
import Mathlib.Tactic.Ring

set_option autoImplicit false
set_option relaxedAutoImplicit false

namespace MotifChess.Codec.Binary64

section Words

/-- The word of a sign, a biased exponent and a fraction. -/
def word (negative : Bool) (exponent fraction : ℕ) : ℕ :=
  (negative.toNat * 2 ^ 11 + exponent) * 2 ^ 52 + fraction

def negativeOf (bits : ℕ) : Bool := decide (bits / 2 ^ 63 % 2 = 1)

def exponentOf (bits : ℕ) : ℕ := bits / 2 ^ 52 % 2 ^ 11

def fractionOf (bits : ℕ) : ℕ := bits % 2 ^ 52

/-- The value of a word that is neither infinite nor without a number. -/
def decode (bits : ℕ) : ℚ :=
  let magnitude : ℚ := if exponentOf bits = 0 then fractionOf bits / 2 ^ 1074
    else (2 ^ 52 + fractionOf bits) * 2 ^ exponentOf bits / 2 ^ 1075
  if negativeOf bits then -magnitude else magnitude

/-- The word of a half of an integer, which must have at most 53 bits. -/
def encode (q : ℚ) : ℕ :=
  let doubled := (2 * q).num.natAbs
  if doubled = 0 then 0
  else
    let log := Nat.log 2 doubled
    word (decide (q < 0)) (log + 1022) (doubled * 2 ^ (52 - log) - 2 ^ 52)

variable {negative : Bool} {exponent fraction : ℕ}

theorem word_lt (hexponent : exponent < 2 ^ 11) (hfraction : fraction < 2 ^ 52) :
    word negative exponent fraction < 2 ^ 64 := by
  have hsign := negative.toNat_le
  rw [word]
  omega

theorem fractionOf_word (hfraction : fraction < 2 ^ 52) :
    fractionOf (word negative exponent fraction) = fraction := by
  rw [fractionOf, word]
  omega

theorem exponentOf_word (hexponent : exponent < 2 ^ 11) (hfraction : fraction < 2 ^ 52) :
    exponentOf (word negative exponent fraction) = exponent := by
  rw [exponentOf, word]
  omega

theorem negativeOf_word (hexponent : exponent < 2 ^ 11) (hfraction : fraction < 2 ^ 52) :
    negativeOf (word negative exponent fraction) = negative := by
  rw [negativeOf, word]
  cases negative
  · rw [decide_eq_false_iff_not, Bool.toNat_false]
    omega
  · rw [decide_eq_true_eq, Bool.toNat_true]
    omega

end Words

section Halves

/-- A double is read back from its bits: every half of an integer of at most 53 bits is one. -/
def ExactHalves (encodeF64 : ℚ → ℕ) (decodeF64 : ℕ → ℚ) : Prop :=
  ∀ n : ℤ, |n| < 2 ^ 53 → decodeF64 (encodeF64 ((n : ℚ) / 2) % 2 ^ 64) = (n : ℚ) / 2

/-- Shifted to 53 bits, a number has its highest bit where a double leaves it out. -/
theorem significand_bounds {m : ℕ} (hne : m ≠ 0) (hlt : m < 2 ^ 53) :
    Nat.log 2 m ≤ 52 ∧ 2 ^ 52 ≤ m * 2 ^ (52 - Nat.log 2 m) ∧
      m * 2 ^ (52 - Nat.log 2 m) < 2 ^ 53 := by
  have hlow := Nat.pow_log_le_self 2 hne
  have hhigh : m < 2 ^ (Nat.log 2 m + 1) := Nat.lt_pow_succ_log_self Nat.one_lt_two m
  generalize Nat.log 2 m = log at hlow hhigh
  have hlog : log ≤ 52 := by
    by_contra hmore
    have hpow : (2 : ℕ) ^ 53 ≤ 2 ^ log := Nat.pow_le_pow_right (by decide) (by omega)
    omega
  have hsplit : (2 : ℕ) ^ log * 2 ^ (52 - log) = 2 ^ 52 := by
    rw [← pow_add, Nat.add_sub_cancel' hlog]
  have hsplit' : (2 : ℕ) ^ (log + 1) * 2 ^ (52 - log) = 2 ^ 53 := by
    rw [← pow_add, show log + 1 + (52 - log) = 53 by omega]
  have hpos : 0 < (2 : ℕ) ^ (52 - log) := Nat.pow_pos (by decide)
  rw [← hsplit, ← hsplit']
  exact ⟨hlog, Nat.mul_le_mul_right _ hlow, Nat.mul_lt_mul_of_pos_right hhigh hpos⟩

theorem scaled_half (m : ℚ) {shift exponent bias : ℕ} (h : shift + exponent + 1 = bias) :
    m * 2 ^ shift * 2 ^ exponent / 2 ^ bias = m / 2 := by
  subst h
  rw [pow_succ, pow_add]
  field_simp

/-- The word of a number below 2^53 and of a sign has half of the number for its value. -/
theorem decode_word (negative : Bool) {m : ℕ} (hne : m ≠ 0) (hlt : m < 2 ^ 53) :
    decode (word negative (Nat.log 2 m + 1022) (m * 2 ^ (52 - Nat.log 2 m) - 2 ^ 52) % 2 ^ 64) =
      if negative then -((m : ℚ) / 2) else (m : ℚ) / 2 := by
  obtain ⟨hlog, hlow, hhigh⟩ := significand_bounds hne hlt
  have hexponent : Nat.log 2 m + 1022 < 2 ^ 11 := by omega
  have hfraction : m * 2 ^ (52 - Nat.log 2 m) - 2 ^ 52 < 2 ^ 52 := by omega
  have hsignificand : (2 : ℚ) ^ 52 + ((m * 2 ^ (52 - Nat.log 2 m) - 2 ^ 52 : ℕ) : ℚ) =
      m * 2 ^ (52 - Nat.log 2 m) := by
    rw [Nat.cast_sub hlow]
    push_cast
    ring
  rw [Nat.mod_eq_of_lt (word_lt hexponent hfraction), decode, fractionOf_word hfraction,
    exponentOf_word hexponent hfraction, negativeOf_word hexponent hfraction,
    if_neg (Nat.succ_ne_zero _), hsignificand, scaled_half (m : ℚ) (by omega)]

/-- The halves of integers are stored without any error. -/
theorem exactHalves : ExactHalves encode decode := by
  intro n hn
  have hdoubled : (2 * ((n : ℚ) / 2)).num.natAbs = n.natAbs := by
    rw [mul_div_cancel₀ (n : ℚ) two_ne_zero]
    exact congrArg Int.natAbs (Rat.num_intCast n)
  rw [encode]
  dsimp only
  rw [hdoubled]
  by_cases hzero : n = 0
  · subst hzero
    simp [decode, negativeOf, exponentOf, fractionOf]
  · have hne : n.natAbs ≠ 0 := Int.natAbs_ne_zero.mpr hzero
    have hlt : n.natAbs < 2 ^ 53 := by
      have habs := Int.abs_eq_natAbs n
      omega
    rw [if_neg hne, decode_word _ hne hlt]
    by_cases hneg : n < 0
    · have hsign : (n : ℚ) / 2 < 0 := by
        rw [div_lt_iff₀ two_pos, zero_mul]
        exact Int.cast_lt_zero.mpr hneg
      have habs : (n.natAbs : ℚ) = -n := by
        rw [Nat.cast_natAbs, abs_of_neg hneg, Int.cast_neg]
      rw [if_pos (decide_eq_true hsign), habs, neg_div, neg_neg]
    · have hnonneg := not_lt.mp hneg
      have hsign : ¬(n : ℚ) / 2 < 0 := not_lt.mpr (div_nonneg (Int.cast_nonneg hnonneg) zero_le_two)
      have habs : (n.natAbs : ℚ) = n := by
        rw [Nat.cast_natAbs, abs_of_nonneg hnonneg]
      rw [if_neg (by simpa using hsign), habs]

example : encode (-5 / 2) = 0xc004000000000000 := by decide +kernel

end Halves

end MotifChess.Codec.Binary64
