/- GID: MotifChess/System/Stateful
   generality: general
   digest: Computations that fail without undoing what they did, and triples about them. -/

import Mathlib.Logic.Basic

set_option autoImplicit false
set_option relaxedAutoImplicit false

namespace MotifChess.System

/-- A computation on a state that may fail. A failure keeps the state that it happened in. -/
def Stateful (σ ε α : Type) := σ → Except ε α × σ

namespace Stateful

variable {σ ε α β γ : Type}

section Operations

protected def pure (a : α) : Stateful σ ε α := fun s => (.ok a, s)

protected def bind (x : Stateful σ ε α) (f : α → Stateful σ ε β) : Stateful σ ε β := fun s =>
  match x s with
  | (.ok a, s') => f a s'
  | (.error e, s') => (.error e, s')

instance : Monad (Stateful σ ε) where
  pure := Stateful.pure
  bind := Stateful.bind

def fail (e : ε) : Stateful σ ε α := fun s => (.error e, s)

def read (f : σ → α) : Stateful σ ε α := fun s => (.ok (f s), s)

def modify (f : σ → σ) : Stateful σ ε Unit := fun s => (.ok (), f s)

instance : LawfulMonad (Stateful σ ε) := by
  have hpure : ∀ {α : Type} (x : Stateful σ ε α), x.bind Stateful.pure = x := by
    intro α x
    funext s
    unfold Stateful.bind
    split
    next hx => exact hx.symm
    next hx => exact hx.symm
  refine LawfulMonad.mk' _ hpure (fun _ _ => rfl) fun x f g => ?_
  change (x.bind f).bind g = x.bind fun a => (f a).bind g
  funext s
  unfold Stateful.bind
  cases x s with
  | mk r s' => cases r <;> rfl

/-- What follows a read runs on the state that was read. -/
theorem run_read_bind (f : σ → α) (g : α → Stateful σ ε β) (s : σ) :
    (read f >>= g) s = g (f s) s := rfl

/-- A sequence succeeds when both of its parts do. -/
theorem run_bind_eq_ok {x : Stateful σ ε α} {f : α → Stateful σ ε β} {s t : σ} {b : β} :
    (x >>= f) s = (.ok b, t) ↔ ∃ a u, x s = (.ok a, u) ∧ f a u = (.ok b, t) := by
  change Stateful.bind x f s = (.ok b, t) ↔ _
  unfold Stateful.bind
  cases hx : x s with
  | mk r u =>
    cases r with
    | ok a =>
      constructor
      · exact fun h => ⟨a, u, rfl, h⟩
      · rintro ⟨_, _, ⟨⟩, h⟩
        exact h
    | error e => simp

theorem run_bind_of_ok {x : Stateful σ ε α} {f : α → Stateful σ ε β} {s s' : σ} {a : α}
    (h : x s = (.ok a, s')) : (x >>= f) s = f a s' := by
  change Stateful.bind x f s = f a s'
  rw [Stateful.bind, h]

theorem run_bind_of_error {x : Stateful σ ε α} {f : α → Stateful σ ε β} {s s' : σ} {e : ε}
    (h : x s = (.error e, s')) : (x >>= f) s = (.error e, s') := by
  change Stateful.bind x f s = (.error e, s')
  rw [Stateful.bind, h]

end Operations

/-- From states with `P` a run that succeeds ends with `Q`, one that fails with `E`. -/
def Ensures (P : σ → Prop) (x : Stateful σ ε α) (Q : α → σ → Prop) (E : σ → Prop) : Prop :=
  ∀ s, P s → match x s with
    | (.ok a, s') => Q a s'
    | (.error _, s') => E s'

namespace Ensures

variable {P : σ → Prop} {x : Stateful σ ε α} {f : α → Stateful σ ε β} {Q Q' : α → σ → Prop}
  {R : β → σ → Prop} {E E' : σ → Prop}

theorem of_ok (h : Ensures P x Q E) {s s' : σ} {a : α} (hs : P s) (hx : x s = (.ok a, s')) :
    Q a s' := by
  have hrun := h s hs
  rw [hx] at hrun
  exact hrun

theorem of_error (h : Ensures P x Q E) {s s' : σ} {e : ε} (hs : P s) (hx : x s = (.error e, s')) :
    E s' := by
  have hrun := h s hs
  rw [hx] at hrun
  exact hrun

theorem mono {S : σ → Prop} (h : Ensures P x Q E) (hP : ∀ s, S s → P s)
    (hQ : ∀ a s, Q a s → Q' a s) (hE : ∀ s, E s → E' s) : Ensures S x Q' E' := by
  intro s hs
  have hrun := h s (hP s hs)
  cases hx : x s with
  | mk r s' =>
    rw [hx] at hrun
    cases r with
    | ok a => exact hQ a s' hrun
    | error e => exact hE s' hrun

theorem and {P' : σ → Prop} (h : Ensures P x Q E) (h' : Ensures P' x Q' E') :
    Ensures (fun s => P s ∧ P' s) x (fun a s => Q a s ∧ Q' a s) (fun s => E s ∧ E' s) := by
  intro s hs
  have hrun := h s hs.1
  have hrun' := h' s hs.2
  cases hx : x s with
  | mk r s' =>
    rw [hx] at hrun hrun'
    cases r with
    | ok a => exact ⟨hrun, hrun'⟩
    | error e => exact ⟨hrun, hrun'⟩

/-- A run may be followed from the very state that it starts in. -/
theorem of_forall (h : ∀ s, P s → Ensures (fun s' => s' = s) x Q E) : Ensures P x Q E :=
  fun s hs => h s hs s rfl

theorem bind (hx : Ensures P x Q E) (hf : ∀ a, Ensures (Q a) (f a) R E) :
    Ensures P (x >>= f) R E := by
  intro s hs
  have hrun := hx s hs
  change match Stateful.bind x f s with
    | (.ok b, s') => R b s'
    | (.error _, s') => E s'
  unfold Stateful.bind
  cases hx : x s with
  | mk r s' =>
    rw [hx] at hrun
    cases r with
    | ok a => exact hf a s' hrun
    | error e => exact hrun

theorem pure {a : α} (h : ∀ s, P s → Q a s) : Ensures P (Pure.pure a : Stateful σ ε α) Q E := h

theorem fail {e : ε} (h : ∀ s, P s → E s) : Ensures P (Stateful.fail e : Stateful σ ε α) Q E := h

theorem read {g : σ → α} (h : ∀ s, P s → Q (g s) s) :
    Ensures P (Stateful.read g : Stateful σ ε α) Q E := h

theorem modify {g : σ → σ} {Q : Unit → σ → Prop} (h : ∀ s, P s → Q () (g s)) :
    Ensures P (Stateful.modify g : Stateful σ ε Unit) Q E := h

/-- A fact about the state that was read may be used for what follows. -/
theorem read_bind {g : σ → α} (h : ∀ a, Ensures (fun s => P s ∧ g s = a) (f a) R E) :
    Ensures P (Stateful.read g >>= f) R E :=
  bind (read fun _ hs => ⟨hs, rfl⟩) h

end Ensures

section Paired

variable {R : σ → σ → Prop} {x y : Stateful σ ε α} {f g : α → Stateful σ ε β}

/-- Runs from related states that both succeed give one value and end in related states. -/
def Paired (R : σ → σ → Prop) (x y : Stateful σ ε α) : Prop :=
  ∀ s s', R s s' → ∀ a t b t', x s = (.ok a, t) → y s' = (.ok b, t') → a = b ∧ R t t'

theorem Paired.bind (hx : Paired R x y) (hf : ∀ a, Paired R (f a) (g a)) :
    Paired R (x >>= f) (y >>= g) := by
  intro s s' hs b t c t' hb hc
  obtain ⟨a, u, hxs, hfa⟩ := run_bind_eq_ok.mp hb
  obtain ⟨a', u', hys, hga⟩ := run_bind_eq_ok.mp hc
  obtain ⟨rfl, hu⟩ := hx s s' hs a u a' u' hxs hys
  exact hf a u u' hu b t c t' hfa hga

theorem Paired.pure (a : α) : Paired R (Pure.pure a : Stateful σ ε α) (Pure.pure a) := by
  intro s s' hs b t c t' hb hc
  obtain ⟨hab, rfl⟩ := Prod.mk.inj hb
  obtain ⟨hac, rfl⟩ := Prod.mk.inj hc
  exact ⟨Except.ok.inj (hab.symm.trans hac), hs⟩

theorem Paired.modify {u : σ → σ} (h : ∀ s s', R s s' → R (u s) (u s')) :
    Paired R (Stateful.modify u : Stateful σ ε Unit) (Stateful.modify u) := by
  intro s s' hs a t b t' ha hb
  obtain ⟨-, rfl⟩ := Prod.mk.inj ha
  obtain ⟨-, rfl⟩ := Prod.mk.inj hb
  exact ⟨rfl, h s s' hs⟩

/-- Related states read alike where the reading does not see the difference. -/
theorem Paired.read_bind {r : σ → α} (hr : ∀ s s', R s s' → r s = r s')
    (hf : ∀ a, Paired R (f a) (g a)) : Paired R (Stateful.read r >>= f) (Stateful.read r >>= g) := by
  intro s s' hs b t c t' hb hc
  rw [run_read_bind] at hb hc
  rw [← hr s s' hs] at hc
  exact hf (r s) s s' hs b t c t' hb hc

end Paired

section Steady

variable {f : σ → σ} {e : ε} {x : Stateful σ ε α}

/-- Unless a run ends with the error `e`, it goes from `f s` as it goes from `s`. -/
def Steady (f : σ → σ) (e : ε) (x : Stateful σ ε α) : Prop :=
  ∀ s, (x s).1 ≠ .error e → x (f s) = ((x s).1, f (x s).2)

theorem Steady.pure (a : α) : Steady f e (Pure.pure a : Stateful σ ε α) := fun _ _ => rfl

theorem Steady.fail (e' : ε) : Steady f e (Stateful.fail e' : Stateful σ ε α) := fun _ _ => rfl

theorem Steady.read {g : σ → α} (h : ∀ s, g (f s) = g s) :
    Steady f e (Stateful.read g : Stateful σ ε α) := by
  intro s _
  change (Except.ok (g (f s)), f s) = (Except.ok (g s), f s)
  rw [h s]

theorem Steady.modify {g : σ → σ} (h : ∀ s, g (f s) = f (g s)) :
    Steady f e (Stateful.modify g : Stateful σ ε Unit) := by
  intro s _
  change (Except.ok (), g (f s)) = (Except.ok (), f (g s))
  rw [h s]

theorem Steady.bind {g : α → Stateful σ ε β} (hx : Steady f e x) (hg : ∀ a, Steady f e (g a)) :
    Steady f e (x >>= g) := by
  intro s hs
  cases hrun : x s with
  | mk r t =>
    have hsame := hx s
    rw [hrun] at hsame
    cases r with
    | ok a =>
      rw [run_bind_of_ok hrun] at hs ⊢
      rw [run_bind_of_ok (hsame nofun)]
      exact hg a t hs
    | error e' =>
      rw [run_bind_of_error hrun] at hs ⊢
      rw [run_bind_of_error (hsame fun h => hs (congrArg Except.error (Except.error.inj h)))]

end Steady

end Stateful

end MotifChess.System
