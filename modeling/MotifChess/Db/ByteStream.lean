/- GID: MotifChess/Db/ByteStream
   generality: implementation
   digest: LEB128 integers, guarded 64-bit arithmetic and bitmaps of the artifact formats. -/

import MotifChess.Codec.Leb128
import Mathlib.Data.Nat.Bitwise

/-! Byte spans are lists, and a reader's position in a span is the list of bytes it has not
consumed, so that `offset + n > size` is the list being shorter than `n`.  Machine sums that the
source guards are natural numbers compared with the limit of the guard. -/

set_option autoImplicit false
set_option relaxedAutoImplicit false

namespace MotifChess.Db

open Codec

def uint64Max : ℕ := 2 ^ 64 - 1

def uint32Max : ℕ := 2 ^ 32 - 1

def uint16Max : ℕ := 2 ^ 16 - 1

def streamoffMax : ℕ := 2 ^ 63 - 1

def checkedAdd (left right : ℕ) : Option ℕ :=
  if left + right > uint64Max then none else some (left + right)

def checkedMultiply (left right : ℕ) : Option ℕ :=
  if left ≠ 0 ∧ right > uint64Max / left then none else some (left * right)

def representableStreamOffset (value : ℕ) : Bool := decide (value ≤ streamoffMax)

theorem representableStreamOffset_iff {value : ℕ} :
    representableStreamOffset value = true ↔ value < 2 ^ 63 := by
  rw [representableStreamOffset, decide_eq_true_eq, streamoffMax]
  omega

theorem checkedAdd_eq_some {left right sum : ℕ} :
    checkedAdd left right = some sum ↔ sum = left + right ∧ left + right < 2 ^ 64 := by
  unfold checkedAdd uint64Max
  split
  · simp only [reduceCtorEq, false_iff, not_and]
    omega
  · simp only [Option.some.injEq]
    omega

theorem checkedMultiply_eq_some {left right product : ℕ} :
    checkedMultiply left right = some product ↔
      product = left * right ∧ (left = 0 ∨ left * right < 2 ^ 64) := by
  unfold checkedMultiply uint64Max
  rcases Nat.eq_zero_or_pos left with rfl | hpos
  · simp [eq_comm]
  · have hdiv : right ≤ (2 ^ 64 - 1) / left ↔ left * right ≤ 2 ^ 64 - 1 := by
      rw [Nat.le_div_iff_mul_le hpos, mul_comm]
    split
    · simp only [reduceCtorEq, false_iff, not_and]
      omega
    · simp only [Option.some.injEq]
      omega

/-- The canonical encoding takes at least one byte and seven bits more for each further one. -/
def uleb128Length (value : ℕ) : ℕ :=
  if value >>> 7 = 0 then 1 else uleb128Length (value >>> 7) + 1
termination_by value
decreasing_by
  rename_i h
  rw [Nat.shiftRight_eq_div_pow] at h ⊢
  omega

private theorem uleb128Length_eq (value : ℕ) : uleb128Length value = (Leb128.encode value).length := by
  induction value using Nat.strong_induction_on with
  | h value ih =>
    have hdiv : value >>> 7 = value / 128 := Nat.shiftRight_eq_div_pow value 7
    rw [uleb128Length, hdiv]
    by_cases hv : value < 128
    · rw [if_pos (by omega), Leb128.encode_of_lt hv, List.length_singleton]
    · have hle : 128 ≤ value := by omega
      rw [if_neg (by omega), ih (value / 128) (by omega), Leb128.encode_of_le hle,
        List.length_cons]

/-- Emit seven bits at a time, flagging every byte that is not the last. -/
def writeUleb128 (value : ℕ) : List UInt8 :=
  if value >>> 7 = 0 then [UInt8.ofNat (value &&& 0x7f)]
  else UInt8.ofNat ((value &&& 0x7f) ||| 0x80) :: writeUleb128 (value >>> 7)
termination_by value
decreasing_by
  rename_i h
  rw [Nat.shiftRight_eq_div_pow] at h ⊢
  omega

theorem and_payload_mask (n : ℕ) : n &&& 0x7f = n % 128 :=
  Nat.and_two_pow_sub_one_eq_mod n 7

private theorem or_continuation_bit {n : ℕ} (h : n < 128) : n ||| 0x80 = n + 128 := by
  have h7 : n < 2 ^ 7 := h
  have hbit : 0x80 = 2 ^ 7 * 1 := rfl
  rw [Nat.or_comm, hbit, ← Nat.two_pow_add_eq_or_of_lt h7]
  omega

@[simp] theorem writeUleb128_eq (value : ℕ) : writeUleb128 value = Leb128.encode value := by
  induction value using Nat.strong_induction_on with
  | h value ih =>
    have hdiv : value >>> 7 = value / 128 := Nat.shiftRight_eq_div_pow value 7
    rw [writeUleb128, hdiv, and_payload_mask]
    by_cases hv : value < 128
    · rw [if_pos (by omega), Leb128.encode_of_lt hv, Nat.mod_eq_of_lt hv]
    · have hle : 128 ≤ value := by omega
      rw [if_neg (by omega), or_continuation_bit (by omega), ih (value / 128) (by omega),
        Leb128.encode_of_le hle]

/-- At most ten bytes; the tenth may only set the top bit, and the length must be canonical. -/
def readUleb128Loop : ℕ → ℕ → ℕ → ℕ → List UInt8 → Option (ℕ × List UInt8)
  | 0, _, _, _, _ => none
  | _ + 1, _, _, _, [] => none
  | count + 1, consumed, shift, value, byte :: rest =>
    let payload := byte.toNat &&& 0x7f
    if shift ≥ 64 ∨ (shift = 63 ∧ payload > 1) then none
    else
      let value := value ||| (payload <<< shift) % 2 ^ 64
      if byte.toNat &&& 0x80 = 0 then
        if uleb128Length value = consumed + 1 then some (value, rest) else none
      else readUleb128Loop count (consumed + 1) (shift + 7) value rest

def readUleb128 (input : List UInt8) : Option (ℕ × List UInt8) :=
  readUleb128Loop 10 0 0 0 input

private theorem and_continuation_bit (byte : UInt8) :
    byte.toNat &&& 0x80 = 0 ↔ byte.toNat < 128 := by
  have hb : byte.toNat < 256 := byte.toNat_lt
  have hbit : byte.toNat &&& 0x80 = 2 ^ 7 * (byte.toNat.testBit 7).toNat := by
    have hmask : 0x80 = 2 ^ 7 := rfl
    rw [hmask, Nat.and_two_pow]
    exact Nat.mul_comm _ _
  rw [hbit, Nat.testBit_eq_decide_div_mod_eq]
  by_cases h : byte.toNat < 128
  · have hdiv : byte.toNat / 128 = 0 := by omega
    simp [hdiv, h]
  · have hdiv : byte.toNat / 128 = 1 := by omega
    simp [hdiv, h]

theorem or_shifted {value payload k : ℕ} (hvalue : value < 128 ^ k)
    (hfit : value + 128 ^ k * payload < 2 ^ 64) :
    value ||| (payload <<< (7 * k)) % 2 ^ 64 = value + 128 ^ k * payload := by
  have hpow : 128 ^ k = 2 ^ (7 * k) := by
    rw [pow_mul]
    norm_num
  rw [hpow] at hvalue hfit ⊢
  have hshift : payload <<< (7 * k) = 2 ^ (7 * k) * payload := by
    rw [Nat.shiftLeft_eq, Nat.mul_comm]
  rw [hshift, Nat.mod_eq_of_lt (by omega), Nat.or_comm,
    ← Nat.two_pow_add_eq_or_of_lt hvalue, Nat.add_comm]

theorem lt_of_guard {value payload consumed : ℕ} (hvalue : value < 128 ^ consumed)
    (hpayload : payload < 128)
    (hguard : ¬(7 * consumed ≥ 64 ∨ (7 * consumed = 63 ∧ payload > 1))) :
    value + 128 ^ consumed * payload < 2 ^ 64 := by
  by_cases h9 : consumed = 9
  · subst h9
    omega
  · have h8 : 128 ^ consumed ≤ 128 ^ 8 := Nat.pow_le_pow_right (by omega) (by omega)
    have hmul : 128 ^ consumed * payload ≤ 128 ^ 8 * 127 := Nat.mul_le_mul h8 (by omega)
    omega

/-- The bytes consumed so far precede the encoding of every nonzero remaining part. -/
private def Consumed (pre : List UInt8) (consumed value : ℕ) : Prop :=
  pre.length = consumed ∧ value < 128 ^ consumed ∧
    ∀ w, 0 < w → Leb128.encode (value + 128 ^ consumed * w) = pre ++ Leb128.encode w

private theorem Consumed.continue {pre : List UInt8} {consumed value : ℕ} {byte : UInt8}
    (h : Consumed pre consumed value) (hbyte : 128 ≤ byte.toNat) :
    Consumed (pre ++ [byte]) (consumed + 1)
      (value + 128 ^ consumed * (byte.toNat % 128)) := by
  obtain ⟨hlen, hvalue, hpre⟩ := h
  have hb : byte.toNat < 256 := byte.toNat_lt
  refine ⟨by simp [hlen], ?_, fun w hw => ?_⟩
  · have hmul : 128 ^ consumed * (byte.toNat % 128) ≤ 128 ^ consumed * 127 :=
      Nat.mul_le_mul_left _ (by omega)
    rw [pow_succ]
    omega
  · have hsplit : value + 128 ^ consumed * (byte.toNat % 128) + 128 ^ (consumed + 1) * w =
        value + 128 ^ consumed * (byte.toNat % 128 + 128 * w) := by ring
    have hback : UInt8.ofNat (byte.toNat % 128 + 128) = byte := by
      apply UInt8.toNat_inj.mp
      rw [UInt8.toNat_ofNat']
      omega
    rw [hsplit, hpre _ (by omega), Leb128.encode_cons (by omega) hw, hback]
    simp

private theorem Consumed.last {pre : List UInt8} {consumed value : ℕ} {byte : UInt8}
    (h : Consumed pre consumed value) (hbyte : byte.toNat < 128)
    (hlength : (Leb128.encode (value + 128 ^ consumed * byte.toNat)).length = consumed + 1) :
    Leb128.encode (value + 128 ^ consumed * byte.toNat) = pre ++ [byte] := by
  obtain ⟨hlen, hvalue, hpre⟩ := h
  have hone : Leb128.encode byte.toNat = [byte] := by
    rw [Leb128.encode_of_lt hbyte, UInt8.ofNat_toNat]
  rcases Nat.eq_zero_or_pos byte.toNat with hzero | hpos
  · rw [hzero, Nat.mul_zero, Nat.add_zero] at hlength ⊢
    rcases Nat.eq_zero_or_pos consumed with rfl | hc
    · obtain rfl : value = 0 := by simpa using hvalue
      obtain rfl := List.length_eq_zero_iff.mp hlen
      rw [← hone, hzero, List.nil_append]
    · have := (Leb128.length_encode_le_iff hc value).mpr hvalue
      omega
  · rw [hpre _ hpos, hone]

private theorem readUleb128Loop_sound {count consumed value v : ℕ} {pre input rest : List UInt8}
    (hc : Consumed pre consumed value)
    (h : readUleb128Loop count consumed (7 * consumed) value input = some (v, rest)) :
    pre ++ input = Leb128.encode v ++ rest ∧ v < 2 ^ 64 := by
  induction count generalizing pre consumed value input with
  | zero => cases h
  | succ count ih =>
    cases input with
    | nil => cases h
    | cons byte tail =>
      rw [readUleb128Loop, and_payload_mask] at h
      split at h
      · cases h
      · next hguard =>
        have hfit := lt_of_guard hc.2.1 (by omega) hguard
        rw [or_shifted hc.2.1 hfit] at h
        split at h
        · next hlast =>
          rw [and_continuation_bit] at hlast
          rw [Nat.mod_eq_of_lt hlast] at h hfit
          dsimp only at h
          split at h
          · next hlength =>
            obtain ⟨rfl, rfl⟩ := Prod.mk.inj (Option.some.inj h)
            rw [uleb128Length_eq] at hlength
            rw [hc.last hlast hlength]
            simpa using hfit
          · cases h
        · next hmore =>
          rw [and_continuation_bit] at hmore
          have := ih (hc.continue (Nat.le_of_not_lt hmore)) h
          simpa using this

private theorem readUleb128Loop_complete {count consumed value w : ℕ} (rest : List UInt8)
    (hcount : count + consumed = 10) (hvalue : value < 128 ^ consumed)
    (hw : 0 < w ∨ consumed = 0) (hfit : value + 128 ^ consumed * w < 2 ^ 64) :
    readUleb128Loop count consumed (7 * consumed) value (Leb128.encode w ++ rest) =
      some (value + 128 ^ consumed * w, rest) := by
  induction count generalizing consumed value w with
  | zero =>
    obtain rfl : consumed = 10 := by omega
    omega
  | succ count ih =>
    by_cases hlt : w < 128
    · have hbyte : (UInt8.ofNat w).toNat = w := by
        rw [UInt8.toNat_ofNat']
        omega
      have hlength : (Leb128.encode (value + 128 ^ consumed * w)).length = consumed + 1 := by
        rcases hw with hw | rfl
        · rw [Leb128.length_encode_shift hvalue hw, Leb128.encode_of_lt hlt,
            List.length_singleton]
        · obtain rfl : value = 0 := by simpa using hvalue
          simp [Leb128.encode_of_lt hlt]
      have hguard : ¬(7 * consumed ≥ 64 ∨ (7 * consumed = 63 ∧ w > 1)) := by
        rintro (h | ⟨h, h1⟩)
        · omega
        · obtain rfl : consumed = 9 := by omega
          omega
      rw [Leb128.encode_of_lt hlt, List.singleton_append, readUleb128Loop, and_payload_mask,
        hbyte, Nat.mod_eq_of_lt hlt, if_neg hguard, or_shifted hvalue hfit, if_pos, if_pos]
      · rw [uleb128Length_eq, hlength]
      · rw [← hbyte]
        exact (and_continuation_bit _).mpr (by omega)
    · have hle : 128 ≤ w := Nat.le_of_not_lt hlt
      have hbyte : (UInt8.ofNat (w % 128 + 128)).toNat = w % 128 + 128 := by
        rw [UInt8.toNat_ofNat']
        omega
      have hpayload : (w % 128 + 128) % 128 = w % 128 := by omega
      have hsplit : value + 128 ^ consumed * w =
          value + 128 ^ consumed * (w % 128) + 128 ^ (consumed + 1) * (w / 128) := by
        have := Nat.mod_add_div w 128
        calc value + 128 ^ consumed * w
            = value + 128 ^ consumed * (w % 128 + 128 * (w / 128)) := by rw [this]
          _ = _ := by ring
      have hsmall : consumed ≤ 8 := by
        by_contra hbig
        have hpow : 128 ^ 9 ≤ 128 ^ consumed := Nat.pow_le_pow_right (by omega) (by omega)
        have hmul : 128 ^ 9 * 128 ≤ 128 ^ consumed * w := Nat.mul_le_mul hpow hle
        omega
      have hguard : ¬(7 * consumed ≥ 64 ∨ (7 * consumed = 63 ∧ w % 128 > 1)) := by omega
      have hmore : ¬(w % 128 + 128 &&& 0x80 = 0) := by
        rw [← hbyte, and_continuation_bit]
        omega
      have hnext : value + 128 ^ consumed * (w % 128) < 128 ^ (consumed + 1) := by
        have hmul : 128 ^ consumed * (w % 128) ≤ 128 ^ consumed * 127 :=
          Nat.mul_le_mul_left _ (by omega)
        rw [pow_succ]
        omega
      rw [Leb128.encode_of_le hle, List.cons_append, readUleb128Loop, and_payload_mask, hbyte,
        hpayload, if_neg hguard, or_shifted hvalue (by omega), if_neg hmore, hsplit]
      exact ih (by omega) hnext (Or.inl (by omega)) (by omega)

theorem readUleb128_eq_some {v : ℕ} {input rest : List UInt8} :
    readUleb128 input = some (v, rest) ↔ input = Leb128.encode v ++ rest ∧ v < 2 ^ 64 := by
  constructor
  · intro h
    have hc : Consumed [] 0 0 := ⟨rfl, by simp, by simp⟩
    simpa using readUleb128Loop_sound hc h
  · rintro ⟨rfl, hv⟩
    have hloop : readUleb128Loop 10 0 (7 * 0) 0 (Leb128.encode v ++ rest) =
        some (0 + 128 ^ 0 * v, rest) :=
      readUleb128Loop_complete rest rfl (by simp) (Or.inr rfl) (by simpa using hv)
    simpa [readUleb128] using hloop

theorem readUleb128_encode {v : ℕ} (hv : v < 2 ^ 64) (rest : List UInt8) :
    readUleb128 (Leb128.encode v ++ rest) = some (v, rest) :=
  readUleb128_eq_some.mpr ⟨rfl, hv⟩

private theorem readUleb128_of_terminated {bytes : List UInt8} (h : Leb128.Terminated bytes)
    (hnot : bytes ≠ Leb128.encode (Leb128.value bytes) ∨ 2 ^ 64 ≤ Leb128.value bytes)
    (rest : List UInt8) : readUleb128 (bytes ++ rest) = none := by
  cases hread : readUleb128 (bytes ++ rest) with
  | none => rfl
  | some found =>
    obtain ⟨v, rest'⟩ := found
    obtain ⟨hsame, hv⟩ := readUleb128_eq_some.mp hread
    obtain ⟨rfl, -⟩ := h.append_inj (Leb128.terminated_encode v) hsame
    rw [Leb128.value_encode] at hnot
    rcases hnot with hother | hlarge
    · exact absurd rfl hother
    · exact absurd hv hlarge.not_gt

private theorem readUleb128_of_truncated {input : List UInt8} (h : ∀ byte ∈ input, 128 ≤ byte.toNat) :
    readUleb128 input = none := by
  cases hread : readUleb128 input with
  | none => rfl
  | some found =>
    obtain ⟨v, rest⟩ := found
    obtain ⟨rfl, -⟩ := readUleb128_eq_some.mp hread
    obtain ⟨last, hmem, hlast⟩ := (Leb128.terminated_encode v).exists_lt
    exact absurd (h last (List.mem_append_left rest hmem)) hlast.not_ge

/-- What is written for a 64-bit value is read back to the byte, whatever follows it, and nothing
else is read: no longer encoding, none of a larger number and none that is cut off. -/
theorem uleb128_exact :
    (∀ (value : UInt64) (rest : List UInt8),
      readUleb128 (writeUleb128 value.toNat ++ rest) = some (value.toNat, rest)) ∧
    (∀ input value rest, readUleb128 input = some (value, rest) →
      input = writeUleb128 value ++ rest ∧ value < 2 ^ 64) ∧
    (∀ bytes rest, Leb128.Terminated bytes → (bytes ≠ writeUleb128 (Leb128.value bytes) ∨
      2 ^ 64 ≤ Leb128.value bytes) → readUleb128 (bytes ++ rest) = none) ∧
    ∀ input, (∀ byte ∈ input, 128 ≤ byte.toNat) → readUleb128 input = none := by
  refine ⟨fun value rest => ?_, fun input value rest hread => ?_, fun bytes rest h hnot => ?_,
    fun input h => readUleb128_of_truncated h⟩
  · rw [writeUleb128_eq]
    exact readUleb128_encode value.toNat_lt rest
  · rw [writeUleb128_eq]
    exact readUleb128_eq_some.mp hread
  · rw [writeUleb128_eq] at hnot
    exact readUleb128_of_terminated h hnot rest

end MotifChess.Db
