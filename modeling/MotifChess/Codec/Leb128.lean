/- GID: MotifChess/Codec/Leb128
   generality: general
   digest: The minimal base-128 encoding of a natural number and its length. -/

import Mathlib.Data.Nat.Notation
import Mathlib.Tactic.Ring

set_option autoImplicit false
set_option relaxedAutoImplicit false

namespace MotifChess.Codec.Leb128

/-- Seven payload bits per byte, lowest first; every byte but the last has its top bit set. -/
def encode (v : ℕ) : List UInt8 :=
  if v < 128 then [UInt8.ofNat v]
  else UInt8.ofNat (v % 128 + 128) :: encode (v / 128)

theorem encode_of_lt {v : ℕ} (h : v < 128) : encode v = [UInt8.ofNat v] := by
  rw [encode, if_pos h]

theorem encode_of_le {v : ℕ} (h : 128 ≤ v) :
    encode v = UInt8.ofNat (v % 128 + 128) :: encode (v / 128) := by
  rw [encode, if_neg (by omega)]

theorem encode_ne_nil (v : ℕ) : encode v ≠ [] := by
  rw [encode]
  split <;> simp

theorem length_encode_pos (v : ℕ) : 0 < (encode v).length :=
  List.length_pos_iff.mpr (encode_ne_nil v)

/-- A continuation byte followed by the encoding of a nonzero rest is itself minimal. -/
theorem encode_cons {payload w : ℕ} (hp : payload < 128) (hw : 0 < w) :
    encode (payload + 128 * w) = UInt8.ofNat (payload + 128) :: encode w := by
  rw [encode_of_le (by omega)]
  have hmod : (payload + 128 * w) % 128 = payload := by omega
  have hdiv : (payload + 128 * w) / 128 = w := by omega
  rw [hmod, hdiv]

theorem length_encode_le_iff {n : ℕ} (hn : 0 < n) (v : ℕ) :
    (encode v).length ≤ n ↔ v < 128 ^ n := by
  induction n generalizing v with
  | zero => omega
  | succ n ih =>
    by_cases hv : v < 128
    · have hpow : 128 ≤ 128 ^ (n + 1) := Nat.le_self_pow (by omega) 128
      simp only [encode_of_lt hv, List.length_singleton]
      omega
    · rw [encode_of_le (by omega), List.length_cons, pow_succ]
      rcases Nat.eq_zero_or_pos n with rfl | hpos
      · have := length_encode_pos (v / 128)
        simp only [pow_zero, one_mul]
        omega
      · have := ih hpos (v / 128)
        rw [Nat.div_lt_iff_lt_mul (by omega)] at this
        omega

/-- Low-order payload digits lengthen the encoding of a nonzero number by one byte each. -/
theorem length_encode_shift {k low w : ℕ} (hlow : low < 128 ^ k) (hw : 0 < w) :
    (encode (low + 128 ^ k * w)).length = k + (encode w).length := by
  induction k generalizing low with
  | zero =>
    have : low = 0 := by simpa using hlow
    simp [this]
  | succ k ih =>
    have hquot : low / 128 < 128 ^ k := by
      rw [Nat.div_lt_iff_lt_mul (by omega)]
      rwa [pow_succ] at hlow
    have hpos : 0 < low / 128 + 128 ^ k * w := by
      have : 0 < 128 ^ k * w := Nat.mul_pos (Nat.pow_pos (by omega)) hw
      omega
    have hsplit : low + 128 ^ (k + 1) * w = low % 128 + 128 * (low / 128 + 128 ^ k * w) := by
      have := Nat.mod_add_div low 128
      have hring : 128 ^ (k + 1) * w = 128 * (128 ^ k * w) := by ring
      omega
    rw [hsplit, encode_cons (by omega) hpos, List.length_cons, ih hquot]
    omega

section Reading

/-- The number whose groups of seven bits these bytes carry, the lowest first. -/
def value : List UInt8 → ℕ
  | [] => 0
  | byte :: bytes => byte.toNat % 128 + 128 * value bytes

/-- The bytes end with the first of them whose top bit is clear. -/
def Terminated : List UInt8 → Prop
  | [] => False
  | byte :: bytes => if byte.toNat < 128 then bytes = [] else Terminated bytes

theorem value_encode (v : ℕ) : value (encode v) = v := by
  induction v using Nat.strong_induction_on with
  | h v ih =>
    by_cases hv : v < 128
    · rw [encode_of_lt hv, value, value, UInt8.toNat_ofNat']
      omega
    · rw [encode_of_le (Nat.le_of_not_lt hv), value, ih (v / 128) (by omega), UInt8.toNat_ofNat']
      omega

theorem terminated_encode (v : ℕ) : Terminated (encode v) := by
  induction v using Nat.strong_induction_on with
  | h v ih =>
    by_cases hv : v < 128
    · rw [encode_of_lt hv, Terminated, UInt8.toNat_ofNat', if_pos (by omega)]
    · rw [encode_of_le (Nat.le_of_not_lt hv), Terminated, UInt8.toNat_ofNat', if_neg (by omega)]
      exact ih (v / 128) (by omega)

/-- Where terminated bytes stand in front, it is clear which they are. -/
theorem Terminated.append_inj {bytes bytes' rest rest' : List UInt8} (h : Terminated bytes)
    (h' : Terminated bytes') (hsame : bytes ++ rest = bytes' ++ rest') :
    bytes = bytes' ∧ rest = rest' := by
  induction bytes generalizing bytes' with
  | nil => exact h.elim
  | cons byte bytes ih =>
    cases bytes' with
    | nil => exact h'.elim
    | cons byte' bytes' =>
      obtain ⟨rfl, htail⟩ := List.cons.inj hsame
      rw [Terminated] at h h'
      split at h
      next hlast =>
        rw [if_pos hlast] at h'
        subst h h'
        exact ⟨rfl, htail⟩
      next hmore =>
        rw [if_neg hmore] at h'
        obtain ⟨rfl, hrest⟩ := ih h h' htail
        exact ⟨rfl, hrest⟩

theorem Terminated.exists_lt {bytes : List UInt8} (h : Terminated bytes) :
    ∃ byte ∈ bytes, byte.toNat < 128 := by
  induction bytes with
  | nil => exact h.elim
  | cons byte bytes ih =>
    rw [Terminated] at h
    split at h
    next hlast => exact ⟨byte, List.mem_cons_self, hlast⟩
    next hmore =>
      obtain ⟨last, hmem, hlast⟩ := ih h
      exact ⟨last, List.mem_cons_of_mem byte hmem, hlast⟩

end Reading

end MotifChess.Codec.Leb128
