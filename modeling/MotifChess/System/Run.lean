/- GID: MotifChess/System/Run
   generality: general
   digest: Runs of a guarded transition function, and the invariants they keep. -/

import Mathlib.Logic.Basic

set_option autoImplicit false
set_option relaxedAutoImplicit false

namespace MotifChess.System

universe u v

variable {σ : Type u} {α : Type v}

/-- The states that runs from `init` reach when every step takes an allowed action. -/
inductive Reaches (step : σ → α → Option σ) (allowed : σ → α → Prop) (init : σ) : σ → Prop
  | refl : Reaches step allowed init init
  | tail {s t : σ} {a : α} :
      Reaches step allowed init s → allowed s a → step s a = some t → Reaches step allowed init t

section Reachability

variable {step : σ → α → Option σ} {allowed weaker : σ → α → Prop} {init s t : σ}

/-- What holds at the start and is kept by every allowed step holds in every reached state. -/
theorem Reaches.invariant {P : σ → Prop} (h : Reaches step allowed init s) (hinit : P init)
    (hstep : ∀ s a t, P s → allowed s a → step s a = some t → P t) : P s := by
  induction h with
  | refl => exact hinit
  | tail _ hallowed hnext ih => exact hstep _ _ _ ih hallowed hnext

theorem Reaches.trans (hst : Reaches step allowed s t) {u : σ} (htu : Reaches step allowed t u) :
    Reaches step allowed s u := by
  induction htu with
  | refl => exact hst
  | tail _ hallowed hnext ih => exact ih.tail hallowed hnext

theorem Reaches.mono (h : Reaches step allowed init s)
    (hweaker : ∀ s a, allowed s a → weaker s a) : Reaches step weaker init s := by
  induction h with
  | refl => exact .refl
  | tail _ hallowed hnext ih => exact ih.tail (hweaker _ _ hallowed) hnext

end Reachability

section Execution

variable (step : σ → α → Option σ) (allowed : σ → α → Prop) [∀ s a, Decidable (allowed s a)]

/-- The state after a list of actions, when each of them is allowed and has a step. -/
def run (s : σ) : List α → Option σ
  | [] => some s
  | a :: actions => if allowed s a then (step s a).bind fun t => run t actions else none

/-- Every action of a list is taken where the condition holds. -/
def Along (step : σ → α → Option σ) (holds : σ → α → Prop) (s : σ) : List α → Prop
  | [] => True
  | a :: actions => holds s a ∧ ∀ t ∈ step s a, Along step holds t actions

variable {step allowed}

theorem reaches_of_run {s t : σ} {actions : List α} (h : run step allowed s actions = some t) :
    Reaches step allowed s t := by
  induction actions generalizing s with
  | nil => exact Option.some.inj h ▸ .refl
  | cons a actions ih =>
    rw [run] at h
    split at h
    next hallowed =>
      obtain ⟨u, hstep, hrest⟩ := Option.bind_eq_some_iff.mp h
      exact (Reaches.refl.tail hallowed hstep).trans (ih hrest)
    next => contradiction

end Execution

end MotifChess.System
