/- GID: MotifChess/Codec/Bitmap
   generality: general
   digest: Flags packed eight to a byte, lowest bit first. -/

import Mathlib.Data.Nat.Bitwise
import Mathlib.Data.List.Basic

set_option autoImplicit false
set_option relaxedAutoImplicit false

namespace MotifChess.Codec.Bitmap

def bit (bitmap : List UInt8) (index : ℕ) : Bool :=
  (bitmap.getD (index / 8) 0).toNat.testBit (index % 8)

def setBit (bitmap : List UInt8) (index : ℕ) : List UInt8 :=
  bitmap.modify (index / 8) fun b => UInt8.ofNat (b.toNat ||| 1 <<< (index % 8))

/-- A zeroed bitmap in which the bit of every raised flag is then set. -/
def pack (flags : List Bool) : List UInt8 :=
  flags.zipIdx.foldl (fun bitmap flag => if flag.1 then setBit bitmap flag.2 else bitmap)
    (List.replicate ((flags.length + 7) / 8) 0)

/-- The bits of the last byte beyond `usedBits` are all clear. -/
def paddingIsZero (bitmap : List UInt8) (usedBits : ℕ) : Bool :=
  bitmap.isEmpty || usedBits % 8 == 0 ||
    (bitmap.getLastD 0).toNat &&& (0xff <<< (usedBits % 8)) % 256 == 0

@[simp] theorem length_setBit (bitmap : List UInt8) (index : ℕ) :
    (setBit bitmap index).length = bitmap.length := by simp [setBit]

private theorem testBit_setByte (b : UInt8) {i j : ℕ} (hi : i < 8) :
    (UInt8.ofNat (b.toNat ||| 1 <<< i)).toNat.testBit j =
      (b.toNat.testBit j || decide (i = j)) := by
  have hb : b.toNat < 2 ^ 8 := b.toNat_lt
  have hpow : 1 <<< i < 2 ^ 8 := by
    rw [Nat.one_shiftLeft]
    exact Nat.pow_lt_pow_right (by omega) hi
  rw [UInt8.toNat_ofNat', Nat.mod_eq_of_lt (Nat.or_lt_two_pow hb hpow), Nat.testBit_or,
    Nat.one_shiftLeft, Nat.testBit_two_pow]

theorem bit_setBit {bitmap : List UInt8} {j : ℕ} (hj : j / 8 < bitmap.length) (i : ℕ) :
    bit (setBit bitmap j) i = (bit bitmap i || decide (j = i)) := by
  by_cases hbyte : j / 8 = i / 8
  · have hget : (setBit bitmap j).getD (i / 8) 0 =
        UInt8.ofNat ((bitmap.getD (i / 8) 0).toNat ||| 1 <<< (j % 8)) := by
      rw [hbyte] at hj
      simp [setBit, hbyte, List.getD_eq_getElem?_getD, hj]
    rw [bit, hget, testBit_setByte _ (Nat.mod_lt _ (by omega)), bit]
    have hiff : j % 8 = i % 8 ↔ j = i := by omega
    simp only [hiff]
  · have hget : (setBit bitmap j).getD (i / 8) 0 = bitmap.getD (i / 8) 0 := by
      simp [setBit, List.getD_eq_getElem?_getD, hbyte]
    have hne : j ≠ i := by
      rintro rfl
      exact hbyte rfl
    rw [bit, hget, bit]
    simp [hne]

private theorem length_foldl_setBit (flags : List (Bool × ℕ)) (bitmap : List UInt8) :
    (flags.foldl (fun bitmap flag => if flag.1 then setBit bitmap flag.2 else bitmap)
      bitmap).length = bitmap.length := by
  induction flags generalizing bitmap with
  | nil => rfl
  | cons flag flags ih =>
    rw [List.foldl_cons, ih]
    split <;> simp

private theorem bit_foldl_setBit (flags : List (Bool × ℕ)) {bitmap : List UInt8}
    (hflags : ∀ flag ∈ flags, flag.2 / 8 < bitmap.length) (i : ℕ) :
    bit (flags.foldl (fun bitmap flag => if flag.1 then setBit bitmap flag.2 else bitmap)
      bitmap) i = (bit bitmap i || flags.any fun flag => flag.1 && decide (flag.2 = i)) := by
  induction flags generalizing bitmap with
  | nil => simp
  | cons flag flags ih =>
    obtain ⟨raised, j⟩ := flag
    have hj := hflags (raised, j) List.mem_cons_self
    have hrest : ∀ flag ∈ flags, flag.2 / 8 < bitmap.length := fun flag hflag =>
      hflags flag (List.mem_cons_of_mem _ hflag)
    rw [List.foldl_cons, List.any_cons]
    cases raised with
    | true =>
      have hset : ∀ flag ∈ flags, flag.2 / 8 < (setBit bitmap j).length := by simpa using hrest
      rw [if_pos rfl, ih hset, bit_setBit hj, Bool.true_and, Bool.or_assoc]
    | false => rw [if_neg (by simp), ih hrest, Bool.false_and, Bool.false_or]

private theorem bit_replicate (size i : ℕ) : bit (List.replicate size 0) i = false := by
  have hget : (List.replicate size (0 : UInt8)).getD (i / 8) 0 = 0 := by
    rw [List.getD_eq_getElem?_getD, List.getElem?_replicate]
    split <;> rfl
  rw [bit, hget]
  exact Nat.zero_testBit _

@[simp] theorem length_pack (flags : List Bool) :
    (pack flags).length = (flags.length + 7) / 8 := by
  rw [pack, length_foldl_setBit, List.length_replicate]

/-- The packed bitmap answers each flag at its own index. -/
theorem bit_pack (flags : List Bool) (i : ℕ) : bit (pack flags) i = flags.getD i false := by
  have hbounds : ∀ flag ∈ flags.zipIdx,
      flag.2 / 8 < (List.replicate ((flags.length + 7) / 8) (0 : UInt8)).length := by
    rintro ⟨raised, j⟩ hmem
    have := List.snd_lt_of_mem_zipIdx hmem
    rw [List.length_replicate]
    simp only at this ⊢
    omega
  rw [pack, bit_foldl_setBit _ hbounds, bit_replicate, Bool.false_or, Bool.eq_iff_iff]
  simp only [List.any_eq_true, Bool.and_eq_true, decide_eq_true_eq, Prod.exists,
    List.mem_zipIdx_iff_getElem?, List.getD_eq_getElem?_getD]
  constructor
  · rintro ⟨raised, j, hget, rfl, rfl⟩
    simp [hget]
  · intro h
    cases hget : flags[i]? with
    | none => simp [hget] at h
    | some raised =>
      rw [hget, Option.getD_some] at h
      exact ⟨raised, i, hget, h, rfl⟩

theorem paddingIsZero_pack (flags : List Bool) : paddingIsZero (pack flags) flags.length = true := by
  by_cases hmod : flags.length % 8 = 0
  · simp [paddingIsZero, hmod]
  · have hlen := length_pack flags
    have hlast : (pack flags).getLastD 0 = (pack flags).getD (flags.length / 8) 0 := by
      have hidx : (pack flags).length - 1 = flags.length / 8 := by omega
      rw [List.getLastD_eq_getLast?, List.getLast?_eq_getElem?, hidx,
        List.getD_eq_getElem?_getD]
    have hzero : ((pack flags).getLastD 0).toNat &&&
        (0xff <<< (flags.length % 8)) % 256 = 0 := by
      rw [hlast]
      apply Nat.eq_of_testBit_eq
      intro j
      rw [Nat.testBit_and, Nat.zero_testBit]
      by_cases hj : j < 8
      · by_cases hused : j < flags.length % 8
        · have hmask : ((0xff <<< (flags.length % 8)) % 2 ^ 8).testBit j = false := by
            rw [Nat.testBit_mod_two_pow, Nat.testBit_shiftLeft]
            simp [hused]
          rw [show (256 : ℕ) = 2 ^ 8 from rfl, hmask, Bool.and_false]
        · have hbit := bit_pack flags (8 * (flags.length / 8) + j)
          have hdiv : (8 * (flags.length / 8) + j) / 8 = flags.length / 8 := by omega
          have hmod' : (8 * (flags.length / 8) + j) % 8 = j := by omega
          have hout : flags.length ≤ 8 * (flags.length / 8) + j := by omega
          have hnone : flags.getD (8 * (flags.length / 8) + j) false = false := by
            rw [List.getD_eq_getElem?_getD, List.getElem?_eq_none hout, Option.getD_none]
          rw [hnone, bit, hdiv, hmod'] at hbit
          rw [hbit, Bool.false_and]
      · have hbyte : ((pack flags).getD (flags.length / 8) 0).toNat < 2 ^ j := by
          have h8 : ((pack flags).getD (flags.length / 8) 0).toNat < 2 ^ 8 := UInt8.toNat_lt _
          exact h8.trans_le (Nat.pow_le_pow_right (by omega) (by omega))
        rw [Nat.testBit_lt_two_pow hbyte, Bool.false_and]
    simp only [paddingIsZero, hzero, beq_self_eq_true, Bool.or_true]

/-- Two bitmaps of one length with the same bits are equal. -/
theorem eq_of_bits {left right : List UInt8} (hlength : left.length = right.length)
    (hbits : ∀ i, bit left i = bit right i) : left = right := by
  apply List.ext_getElem hlength
  intro k hleft hright
  apply UInt8.toNat_inj.mp
  apply Nat.eq_of_testBit_eq
  intro j
  by_cases hj : j < 8
  · have hbit := hbits (8 * k + j)
    have hdiv : (8 * k + j) / 8 = k := by omega
    have hmod : (8 * k + j) % 8 = j := by omega
    simpa [bit, hdiv, hmod, List.getD_eq_getElem?_getD, hleft, hright] using hbit
  · have hpow : 2 ^ 8 ≤ 2 ^ j := Nat.pow_le_pow_right (by omega) (by omega)
    rw [Nat.testBit_lt_two_pow (lt_of_lt_of_le left[k].toNat_lt hpow),
      Nat.testBit_lt_two_pow (lt_of_lt_of_le right[k].toNat_lt hpow)]

/-- No bit is set beyond the used ones. -/
theorem bit_of_padding {bitmap : List UInt8} {usedBits i : ℕ}
    (hlength : bitmap.length = (usedBits + 7) / 8) (hpadding : paddingIsZero bitmap usedBits = true)
    (hi : usedBits ≤ i) : bit bitmap i = false := by
  by_cases hbyte : i / 8 < bitmap.length
  · have hmod : usedBits % 8 ≠ 0 := by omega
    have hlast : bitmap.getLastD 0 = bitmap.getD (i / 8) 0 := by
      have hidx : bitmap.length - 1 = i / 8 := by omega
      rw [List.getLastD_eq_getLast?, List.getLast?_eq_getElem?, hidx, List.getD_eq_getElem?_getD]
    have hne : bitmap ≠ [] := by
      intro hnil
      rw [hnil] at hbyte
      simp at hbyte
    have hzero : (bitmap.getD (i / 8) 0).toNat &&& (0xff <<< (usedBits % 8)) % 256 = 0 := by
      rw [← hlast]
      simpa [paddingIsZero, hne, hmod] using hpadding
    have hbit := congrArg (fun n => n.testBit (i % 8)) hzero
    have hmask : ((0xff <<< (usedBits % 8)) % 256).testBit (i % 8) = true := by
      rw [show (256 : ℕ) = 2 ^ 8 from rfl, Nat.testBit_mod_two_pow, Nat.testBit_shiftLeft,
        show (0xff : ℕ) = 2 ^ 8 - 1 from rfl, Nat.testBit_two_pow_sub_one]
      simp only [Bool.and_eq_true, decide_eq_true_eq]
      omega
    simpa [Nat.testBit_and, hmask, bit] using hbit
  · have hnone : bitmap.getD (i / 8) 0 = 0 := by
      rw [List.getD_eq_getElem?_getD, List.getElem?_eq_none (by omega), Option.getD_none]
    rw [bit, hnone]
    exact Nat.zero_testBit _

/-- A bitmap without padding bits is the packing of its bits. -/
theorem pack_eq {bitmap : List UInt8} {flags : List Bool}
    (hlength : bitmap.length = (flags.length + 7) / 8)
    (hpadding : paddingIsZero bitmap flags.length = true)
    (hbits : ∀ i, i < flags.length → bit bitmap i = flags.getD i false) : pack flags = bitmap := by
  apply eq_of_bits
  · rw [length_pack, hlength]
  · intro i
    rw [bit_pack]
    by_cases hi : i < flags.length
    · exact (hbits i hi).symm
    · rw [bit_of_padding hlength hpadding (by omega), List.getD_eq_getElem?_getD,
        List.getElem?_eq_none (by omega), Option.getD_none]

end MotifChess.Codec.Bitmap
