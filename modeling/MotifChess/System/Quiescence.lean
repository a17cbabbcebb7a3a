/- GID: MotifChess/System/Quiescence
   generality: general
   digest: Work that every step brings closer to its end, and that cannot stop before it. -/

import MotifChess.System.Run
import Mathlib.Data.Nat.Notation

set_option autoImplicit false
set_option relaxedAutoImplicit false

namespace MotifChess.System

universe u v

variable {σ : Type u} {α : Type v} {step : σ → α → Option σ}

/-- A run of actions of a kind that takes so many steps. -/
inductive Takes (step : σ → α → Option σ) (kind : σ → α → Prop) : σ → ℕ → σ → Prop
  | refl (s : σ) : Takes step kind s 0 s
  | head {s t u : σ} {a : α} {n : ℕ} : kind s a → step s a = some t → Takes step kind t n u →
      Takes step kind s (n + 1) u

/-- Actions of a kind that keep an invariant, decrease a measure, and of which there is one wherever the
system is not quiet. -/
structure Settles (step : σ → α → Option σ) (kind : σ → α → Prop) (invariant quiet : σ → Prop)
    (remaining : σ → ℕ) : Prop where
  keeps : ∀ s a t, invariant s → kind s a → step s a = some t → invariant t
  decreases : ∀ s a t, invariant s → kind s a → step s a = some t → remaining t < remaining s
  progress : ∀ s, invariant s → ¬quiet s → ∃ a t, kind s a ∧ step s a = some t

section Runs

variable {kind allowed : σ → α → Prop} {invariant quiet : σ → Prop} {remaining : σ → ℕ} {s t : σ}
  {n : ℕ}

theorem Settles.invariant_of_takes (h : Settles step kind invariant quiet remaining)
    (hinvariant : invariant s) (htakes : Takes step kind s n t) : invariant t := by
  induction htakes with
  | refl s => exact hinvariant
  | head hkind hstep _ ih => exact ih (h.keeps _ _ _ hinvariant hkind hstep)

/-- No run of such actions is longer than the measure of where it starts. -/
theorem Settles.le_remaining (h : Settles step kind invariant quiet remaining)
    (hinvariant : invariant s) (htakes : Takes step kind s n t) : n + remaining t ≤ remaining s := by
  induction htakes with
  | refl s => exact Nat.le_of_eq (Nat.zero_add _)
  | @head s t u a n hkind hstep _ ih =>
    have hrest := ih (h.keeps _ _ _ hinvariant hkind hstep)
    have hless := h.decreases _ _ _ hinvariant hkind hstep
    omega

/-- A run of such actions that cannot go on has made the system quiet. -/
theorem Settles.quiet_of_stuck (h : Settles step kind invariant quiet remaining)
    (hinvariant : invariant s) (htakes : Takes step kind s n t)
    (hstuck : ∀ a, kind t a → step t a = none) : quiet t := by
  apply Classical.byContradiction
  intro hbusy
  obtain ⟨a, u, hkind, hstep⟩ := h.progress t (h.invariant_of_takes hinvariant htakes) hbusy
  cases (hstuck a hkind).symm.trans hstep

/-- From everywhere such actions lead to where the system is quiet. -/
theorem Settles.exists_quiet (h : Settles step kind invariant quiet remaining)
    (hinvariant : invariant s) : ∃ n t, Takes step kind s n t ∧ quiet t := by
  induction hmeasure : remaining s using Nat.strongRecOn generalizing s with
  | ind m ih =>
    by_cases hquiet : quiet s
    · exact ⟨0, s, .refl s, hquiet⟩
    · obtain ⟨a, t, hkind, hstep⟩ := h.progress s hinvariant hquiet
      have hless := h.decreases s a t hinvariant hkind hstep
      obtain ⟨n, u, htakes, hdone⟩ :=
        ih (remaining t) (hmeasure ▸ hless) (h.keeps s a t hinvariant hkind hstep) rfl
      exact ⟨n + 1, u, .head hkind hstep htakes, hdone⟩

end Runs

end MotifChess.System
