/- GID: MotifChess/Codec/LittleEndian
   generality: general
   digest: Fixed-width little-endian naturals over byte lists, with an exact reader. -/

import Mathlib.Data.Nat.Notation
import Mathlib.Tactic.Ring

set_option autoImplicit false
set_option relaxedAutoImplicit false

namespace MotifChess.Codec.LittleEndian

/-- The `width` least significant bytes of `n`, lowest first. -/
def leBytes : ℕ → ℕ → List UInt8
  | 0, _ => []
  | width + 1, n => UInt8.ofNat n :: leBytes width (n / 256)

/-- The natural number whose little-endian bytes are given. -/
def leValue : List UInt8 → ℕ
  | [] => 0
  | b :: bs => b.toNat + 256 * leValue bs

/-- Read one `width`-byte integer from the front of a byte list. -/
def readLe (width : ℕ) (input : List UInt8) : Option (ℕ × List UInt8) :=
  if input.length < width then none
  else some (leValue (input.take width), input.drop width)

@[simp] theorem length_leBytes (width n : ℕ) : (leBytes width n).length = width := by
  induction width generalizing n with
  | zero => rfl
  | succ width ih => simp [leBytes, ih]

theorem leValue_leBytes (width n : ℕ) : leValue (leBytes width n) = n % 256 ^ width := by
  induction width generalizing n with
  | zero => simp [leBytes, leValue, Nat.mod_one]
  | succ width ih =>
    have hbyte : n % 2 ^ 8 = n % 256 := by norm_num
    rw [leBytes, leValue, ih, UInt8.toNat_ofNat', hbyte, pow_succ' 256 width, Nat.mod_mul]

theorem leValue_lt (bytes : List UInt8) : leValue bytes < 256 ^ bytes.length := by
  induction bytes with
  | nil => simp [leValue]
  | cons b bs ih =>
    have hb : b.toNat < 256 := b.toNat_lt
    rw [leValue, List.length_cons, pow_succ]
    omega

theorem leBytes_leValue (bytes : List UInt8) :
    leBytes bytes.length (leValue bytes) = bytes := by
  induction bytes with
  | nil => rfl
  | cons b bs ih =>
    have hb : b.toNat < 256 := b.toNat_lt
    have hdiv : (b.toNat + 256 * leValue bs) / 256 = leValue bs := by omega
    have hmod : UInt8.ofNat (b.toNat + 256 * leValue bs) = b := by
      apply UInt8.toNat_inj.mp
      rw [UInt8.toNat_ofNat']
      omega
    rw [List.length_cons, leValue, leBytes, hdiv, hmod, ih]

theorem leBytes_mod (width n : ℕ) : leBytes width (n % 256 ^ width) = leBytes width n := by
  have h := leBytes_leValue (leBytes width n)
  rwa [leValue_leBytes, length_leBytes] at h

/-- A successful read consumes exactly the encoding of the value it returns. -/
theorem readLe_eq_some {width v : ℕ} {input rest : List UInt8} :
    readLe width input = some (v, rest) ↔ input = leBytes width v ++ rest ∧ v < 256 ^ width := by
  constructor
  · intro h
    unfold readLe at h
    split at h
    · cases h
    · next hlen =>
      obtain ⟨hv, hrest⟩ := Prod.mk.inj (Option.some.inj h)
      have htake : (input.take width).length = width := by
        rw [List.length_take]
        omega
      have hbytes := leBytes_leValue (input.take width)
      have hbound := leValue_lt (input.take width)
      rw [htake, hv] at hbytes hbound
      refine ⟨?_, hbound⟩
      rw [hbytes, ← hrest, List.take_append_drop]
  · rintro ⟨rfl, hv⟩
    have htake : (leBytes width v ++ rest).take width = leBytes width v :=
      List.take_left' (length_leBytes width v)
    have hdrop : (leBytes width v ++ rest).drop width = rest :=
      List.drop_left' (length_leBytes width v)
    have hlen : ¬ (leBytes width v ++ rest).length < width := by simp
    rw [readLe, if_neg hlen, htake, hdrop, leValue_leBytes, Nat.mod_eq_of_lt hv]

theorem readLe_leBytes {width v : ℕ} (hv : v < 256 ^ width) (rest : List UInt8) :
    readLe width (leBytes width v ++ rest) = some (v, rest) :=
  readLe_eq_some.mpr ⟨rfl, hv⟩

theorem length_flatMap_leBytes (width : ℕ) (values : List ℕ) :
    (values.flatMap (leBytes width)).length = values.length * width := by
  induction values with
  | nil => simp
  | cons v values ih =>
    rw [List.flatMap_cons, List.length_append, length_leBytes, ih, List.length_cons, Nat.succ_mul,
      Nat.add_comm]

/-- The integer at an offset of a byte list. -/
def wordAt (width offset : ℕ) (bytes : List UInt8) : ℕ := leValue ((bytes.drop offset).take width)

/-- The integers of a table stand one after the other. -/
theorem wordAt_table {width i v : ℕ} {values : List ℕ} (before rest : List UInt8)
    (h : values[i]? = some v) (hv : v < 256 ^ width) :
    wordAt width (before.length + i * width) (before ++ (values.flatMap (leBytes width) ++ rest)) =
      v := by
  obtain ⟨hi, rfl⟩ := List.getElem?_eq_some_iff.mp h
  have hsplit : values.flatMap (leBytes width) = (values.take i).flatMap (leBytes width) ++
      (leBytes width values[i] ++ (values.drop (i + 1)).flatMap (leBytes width)) := by
    rw [← List.flatMap_cons, ← List.drop_eq_getElem_cons hi, ← List.flatMap_append,
      List.take_append_drop]
  have hfront : (before ++ (values.take i).flatMap (leBytes width)).length =
      before.length + i * width := by
    rw [List.length_append, length_flatMap_leBytes, List.length_take, Nat.min_eq_left hi.le]
  rw [wordAt, hsplit, List.append_assoc, ← List.append_assoc before, List.drop_left' hfront,
    List.append_assoc, List.take_left' (length_leBytes _ _), leValue_leBytes, Nat.mod_eq_of_lt hv]

end MotifChess.Codec.LittleEndian
