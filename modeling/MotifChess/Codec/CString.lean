/- GID: MotifChess/Codec/CString
   generality: general
   digest: Texts that are read as C strings, up to their first NUL. -/

import Mathlib.Data.List.TakeWhile

set_option autoImplicit false
set_option relaxedAutoImplicit false

namespace MotifChess.Codec

def nul : Char := Char.ofNat 0

/-- The text before its first NUL. -/
def cString (text : String) : String := String.ofList (text.toList.takeWhile (· != nul))

variable {text : String}

@[simp] theorem toList_cString : (cString text).toList = text.toList.takeWhile (· != nul) :=
  String.toList_ofList

@[simp] theorem cString_empty : cString "" = "" := by
  apply String.toList_injective
  simp

theorem cString_eq_self_iff : cString text = text ↔ nul ∉ text.toList := by
  rw [← String.toList_inj, toList_cString, List.takeWhile_eq_self_iff]
  simp only [bne_iff_ne, ne_eq]
  constructor
  · intro h hmem
    exact h nul hmem rfl
  · rintro h c hc rfl
    exact h hc

@[simp] theorem cString_cString : cString (cString text) = cString text := by
  rw [cString_eq_self_iff, toList_cString]
  intro hmem
  simpa using List.mem_takeWhile_imp hmem

end MotifChess.Codec
