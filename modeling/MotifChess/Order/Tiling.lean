/- GID: MotifChess/Order/Tiling
   generality: general
   digest: Ranges that fill an interval one after another, without gap or overlap. -/

import Mathlib.Data.Nat.Notation
import Mathlib.Order.Basic

set_option autoImplicit false
set_option relaxedAutoImplicit false

namespace MotifChess.Order

/-- Each range `(offset, length)` begins where the one before ends, from `start` to `stop`. -/
def Tiles : ℕ → List (ℕ × ℕ) → ℕ → Prop
  | start, [], stop => start = stop
  | start, (offset, length) :: ranges, stop => offset = start ∧ Tiles (start + length) ranges stop

namespace Tiles

theorem append {start middle stop : ℕ} {front back : List (ℕ × ℕ)}
    (hfront : Tiles start front middle) (hback : Tiles middle back stop) :
    Tiles start (front ++ back) stop := by
  induction front generalizing start with
  | nil =>
    obtain rfl : start = middle := hfront
    exact hback
  | cons range front ih => exact ⟨hfront.1, ih hfront.2⟩

theorem le {start stop : ℕ} {ranges : List (ℕ × ℕ)} (h : Tiles start ranges stop) :
    start ≤ stop := by
  induction ranges generalizing start with
  | nil => exact Nat.le_of_eq h
  | cons range ranges ih => exact Nat.le_trans (Nat.le_add_right _ _) (ih h.2)

/-- Every range of a tiling lies inside the tiled interval. -/
theorem mem_le {start stop : ℕ} {ranges : List (ℕ × ℕ)} (h : Tiles start ranges stop)
    {range : ℕ × ℕ} (hmem : range ∈ ranges) : start ≤ range.1 ∧ range.1 + range.2 ≤ stop := by
  induction ranges generalizing start with
  | nil => cases hmem
  | cons first ranges ih =>
    obtain ⟨hoffset, hrest⟩ := h
    rcases List.mem_cons.mp hmem with rfl | hmem
    · rw [hoffset]
      exact ⟨Nat.le_refl _, hrest.le⟩
    · have := ih hrest hmem
      exact ⟨Nat.le_trans (Nat.le_add_right _ _) this.1, this.2⟩

end Tiles

end MotifChess.Order
