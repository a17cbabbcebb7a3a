/- GID: MotifChess/Import/Pgn
   generality: implementation
   digest: Games as the PGN parser reads them, their tags with escapes decoded, and their fields. -/

import MotifChess.Codec.Quoted
import Mathlib.Data.String.Basic

set_option autoImplicit false
set_option relaxedAutoImplicit false

namespace MotifChess.Import

open MotifChess.Codec

inductive PgnResult
  | white
  | black
  | draw
  | unknown
  deriving DecidableEq

/-- `pgn::game`, of which the import reads the tags, the texts of the moves and the result. -/
structure PgnGame where
  tags : List (String × String)
  moves : List String
  result : PgnResult
  deriving DecidableEq

/-- `unescape_tag_value`. -/
def unescapeTagValue (raw : String) : String := .ofList (Quoted.unescape '"' '\\' raw.toList)

/-- `pgn_reader::next`: the parser leaves escapes in tag values to the reader. -/
def readGame (item : PgnGame) : PgnGame :=
  { item with tags := item.tags.map fun tag => (tag.1, unescapeTagValue tag.2) }

section Helpers

/-- `find_tag`: the first value under a key, or the empty text. -/
def findTag (tags : List (String × String)) (key : String) : String :=
  ((tags.find? fun tag => tag.1 = key).map Prod.snd).getD ""

/-- `std::from_chars` for an `int`, when it accepts the text to its end. -/
def fromChars (text : List Char) : Option Int :=
  let number (digits : List Char) : Option ℕ :=
    if digits ≠ [] ∧ digits.all Char.isDigit then some (Nat.ofDigitChars 10 digits 0) else none
  match text with
  | '-' :: digits => (number digits).bind fun n => if n ≤ 2147483648 then some (-n) else none
  | digits => (number digits).bind fun n => if n ≤ 2147483647 then some n else none

/-- `parse_elo`. -/
def parseElo (raw : String) : Option Int16 :=
  if raw = "" ∨ raw = "?" then none
  else (fromChars raw.toList).bind fun val =>
    if val < 0 ∨ 32767 < val then none else some (.ofInt val)

theorem parseElo_range {raw : String} {elo : Int16} (h : parseElo raw = some elo) :
    0 ≤ elo.toInt ∧ elo.toInt ≤ 32767 := by
  unfold parseElo at h
  split_ifs at h
  obtain ⟨val, -, hval⟩ := Option.bind_eq_some_iff.mp h
  split_ifs at hval with hrange
  obtain rfl := Option.some.inj hval
  rw [Int16.toInt_ofInt_of_le (by omega) (by omega)]
  omega

/-- `pgn_result_to_string`. -/
def pgnResultToString : PgnResult → String
  | .white => "1-0"
  | .black => "0-1"
  | .draw => "1/2-1/2"
  | .unknown => "*"

end Helpers

section Facts

theorem findTag_append (tags tags' : List (String × String)) (key : String) :
    findTag (tags ++ tags') key =
      if key ∈ tags.map Prod.fst then findTag tags key else findTag tags' key := by
  unfold findTag
  rw [List.find?_append]
  cases hfound : tags.find? fun tag => tag.1 = key with
  | some tag =>
    have hkey : tag.1 = key := by simpa using List.find?_some hfound
    rw [if_pos (List.mem_map.mpr ⟨tag, List.mem_of_find?_eq_some hfound, hkey⟩)]
    rfl
  | none =>
    rw [if_neg]
    · rfl
    · intro hmem
      obtain ⟨tag, htag, hkey⟩ := List.mem_map.mp hmem
      have hnot := List.find?_eq_none.mp hfound tag htag
      simp [hkey] at hnot

theorem findTag_of_notMem {tags : List (String × String)} {key : String}
    (h : key ∉ tags.map Prod.fst) : findTag tags key = "" := by
  have hnone : (tags.find? fun tag => tag.1 = key) = none := by
    rw [List.find?_eq_none]
    intro tag htag hkey
    exact h (List.mem_map.mpr ⟨tag, htag, by simpa using hkey⟩)
  rw [findTag, hnone]
  rfl

section Decimal

private theorem toDigits_ne_minus (n : ℕ) (digits : List Char) : Nat.toDigits 10 n ≠ '-' :: digits := by
  intro h
  have hminus : '-' ∈ Nat.toDigits 10 n := h ▸ List.mem_cons_self ..
  exact absurd (Nat.isDigit_of_mem_toDigits (by decide) (by decide) hminus) (by decide)

private theorem toDigits_all_isDigit (n : ℕ) : (Nat.toDigits 10 n).all Char.isDigit = true :=
  List.all_eq_true.mpr fun _ hc => Nat.isDigit_of_mem_toDigits (by decide) (by decide) hc

private theorem fromChars_repr {n : ℕ} (h : n ≤ 2147483647) : fromChars n.repr.toList = some (n : Int) := by
  rw [Nat.toList_repr]
  unfold fromChars
  split
  next digits heq => exact absurd heq (toDigits_ne_minus n digits)
  next =>
    simp [Nat.toDigits_ne_nil, toDigits_all_isDigit, h]

private theorem fromChars_neg_repr {n : ℕ} (h : n ≤ 2147483648) :
    fromChars ("-" ++ n.repr).toList = some (-n : Int) := by
  rw [String.toList_append, Nat.toList_repr]
  change fromChars ('-' :: Nat.toDigits 10 n) = _
  simp [fromChars, Nat.toDigits_ne_nil, toDigits_all_isDigit, h]

private theorem parseElo_of_fromChars {raw : String} {val : Int}
    (h : fromChars raw.toList = some val) :
    parseElo raw = if val < 0 ∨ 32767 < val then none else some (.ofInt val) := by
  have hraw : ¬(raw = "" ∨ raw = "?") := by
    have hempty : fromChars "".toList = none := by decide
    have hunknown : fromChars "?".toList = none := by decide
    rintro (rfl | rfl)
    · cases hempty.symm.trans h
    · cases hunknown.symm.trans h
  rw [parseElo, if_neg hraw, h]
  rfl

private theorem fromChars_toInt (elo : Int32) :
    fromChars (toString elo.toInt).toList = some elo.toInt := by
  have hlow := elo.le_toInt
  have hhigh := elo.toInt_lt
  rw [Int.toString_eq_repr, Int.repr_eq_if]
  by_cases hsign : 0 ≤ elo.toInt
  · rw [if_pos hsign, fromChars_repr (by omega), Int.toNat_of_nonneg hsign]
  · rw [if_neg hsign, fromChars_neg_repr (by omega), Int.toNat_of_nonneg (by omega), Int.neg_neg]

theorem parseElo_toString (elo : Int32) :
    (parseElo (toString elo.toInt)).map Int16.toInt32 = some elo ↔
      0 ≤ elo.toInt ∧ elo.toInt ≤ 32767 := by
  rw [parseElo_of_fromChars (fromChars_toInt elo)]
  by_cases hrange : elo.toInt < 0 ∨ 32767 < elo.toInt
  · rw [if_pos hrange]
    simp only [Option.map_none, reduceCtorEq, false_iff]
    omega
  · rw [if_neg hrange]
    have hsame : (Int16.ofInt elo.toInt).toInt32 = elo := by
      rw [← Int32.toInt_inj, Int16.toInt_toInt32, Int16.toInt_ofInt_of_le (by omega) (by omega)]
    simp only [Option.map_some, hsame, true_iff]
    omega

end Decimal

end Facts

end MotifChess.Import
