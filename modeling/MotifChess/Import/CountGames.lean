/- GID: MotifChess/Import/CountGames
   generality: implementation
   digest: The count of games before an import: the event markers of a file, read in chunks. -/

import MotifChess.Codec.MarkerScan
import MotifChess.Db.Types

/-! The contents of a file are its bytes.  A read of the stream gives as many of them as it is asked
for, or all that are left. -/

set_option autoImplicit false
set_option relaxedAutoImplicit false

namespace MotifChess.Import

open MotifChess.Codec.MarkerScan MotifChess.Db

/-- `[Event "`. -/
def eventMarker : List UInt8 :=
  ['[', 'E', 'v', 'e', 'n', 't', ' ', '"'].map fun c => UInt8.ofNat c.toNat

def bufSize : ℕ := 1048576

def overlap : ℕ := eventMarker.length - 1

/-- The searches in the buffer, from match to match. -/
def countMarkers (buffer : List UInt8) : ℕ :=
  countFound (eventMarker.headD 0) eventMarker.tail buffer

/-- The loop over the chunks: the bytes that are carried stand in the buffer before those of the
next read. -/
def countChunks (count : ℕ) (carry rest : List UInt8) : ℕ :=
  let chunk := rest.take bufSize
  if chunk = [] ∧ carry = [] then count
  else
    let buffer := carry ++ chunk
    let count := count + countMarkers buffer
    if chunk = [] then count
    else
      let keep := min buffer.length overlap
      countChunks count (buffer.drop (buffer.length - keep)) (rest.drop bufSize)
termination_by rest.length
decreasing_by
  rename_i hchunk
  have hpos : 0 < rest.length := by
    apply List.length_pos_iff.mpr
    rintro rfl
    exact hchunk List.take_nil
  rw [List.length_drop, bufSize]
  omega

/-- `count_games`. -/
def countGames (file : Option (List UInt8)) (startOffset : ℕ) : Except ErrorCode ℕ :=
  match file with
  | none => .error .ioFailure
  | some source =>
    if source.length < startOffset then .error .ioFailure
    else if startOffset = source.length then .ok 0
    else .ok (countChunks 0 [] (source.drop startOffset))

private theorem eventMarker_ne_nil : eventMarker ≠ [] := by
  apply List.ne_nil_of_length_pos
  decide

private theorem countMarkers_eq (buffer : List UInt8) : countMarkers buffer = occurrences eventMarker buffer :=
  countFound_eq (by decide) buffer

/-- At the start of a round, the markers that are still to be counted are those of the carried bytes
and the rest of the file. -/
private theorem countChunks_eq (count : ℕ) (carry rest : List UInt8) :
    countChunks count carry rest = count + occurrences eventMarker (carry ++ rest) := by
  induction hlength : rest.length using Nat.strong_induction_on generalizing count carry rest with
  | h n ih =>
    subst hlength
    have hempty : rest.take bufSize = [] ↔ rest = [] := by
      rw [List.take_eq_nil_iff]
      exact or_iff_right (by decide)
    rw [countChunks]
    dsimp only
    split
    next hends =>
      rw [hempty.mp hends.1, hends.2, List.append_nil, occurrences_nil eventMarker_ne_nil,
        Nat.add_zero]
    next =>
      split
      next hends => rw [hends, hempty.mp hends, countMarkers_eq]
      next hmore =>
        have hpos := List.length_pos_iff.mpr (mt hempty.mpr hmore)
        have hshorter : (rest.drop bufSize).length < rest.length := by
          rw [List.length_drop, bufSize]
          omega
        have hread : carry ++ rest = (carry ++ rest.take bufSize) ++ rest.drop bufSize := by
          rw [List.append_assoc, List.take_append_drop]
        have hkept : (carry ++ rest.take bufSize).length -
            min (carry ++ rest.take bufSize).length overlap =
              (carry ++ rest.take bufSize).length - (eventMarker.length - 1) := by
          rw [overlap]
          omega
        have hcounted := occurrences_append eventMarker_ne_nil (carry ++ rest.take bufSize)
          (rest.drop bufSize)
        rw [ih _ hshorter _ _ _ rfl, hkept, countMarkers_eq, hread, hcounted, Nat.add_assoc]

/-- The count is that of the markers in the file from the offset on; an offset beyond the end of the
file is an error. -/
theorem countGames_eq (source : List UInt8) (startOffset : ℕ) :
    countGames (some source) startOffset =
      if startOffset ≤ source.length then .ok (occurrences eventMarker (source.drop startOffset))
      else .error .ioFailure := by
  rw [countGames]
  by_cases hpast : source.length < startOffset
  · rw [if_pos hpast, if_neg (Nat.not_le.mpr hpast)]
  rw [if_neg hpast, if_pos (Nat.le_of_not_lt hpast)]
  by_cases hend : startOffset = source.length
  · rw [if_pos hend, hend, List.drop_length, occurrences_nil eventMarker_ne_nil]
  · rw [if_neg hend, countChunks_eq, Nat.zero_add, List.nil_append]

end MotifChess.Import
