/- GID: MotifChess/Db/Types
   generality: implementation
   digest: Error codes, position rows and matches shared by the stores and the indexes. -/

import Mathlib.Data.Nat.Notation
import Mathlib.Data.Prod.Lex
import Mathlib.Order.Basic

set_option autoImplicit false
set_option relaxedAutoImplicit false

namespace MotifChess.Db

inductive ErrorCode
  | ok
  | notFound
  | schemaMismatch
  | ioFailure
  | duplicate
  | notEditable
  | invalidArgument
  deriving DecidableEq, Repr

/-- The outcome of a fallible operation. -/
abbrev Result (α : Type) := Except ErrorCode α

theorem bind_eq_ok {α β : Type} {x : Result α} {f : α → Result β} {b : β} :
    (x >>= f) = .ok b ↔ ∃ a, x = .ok a ∧ f a = .ok b := by
  cases x with
  | error e => simp [bind, Except.bind]
  | ok a => simp [bind, Except.bind]

theorem toOption_eq_some {ε α : Type} {x : Except ε α} {a : α} :
    x.toOption = some a ↔ x = .ok a := by
  cases x <;> simp [Except.toOption]

@[simp] theorem ok_bind {α β : Type} (a : α) (f : α → Result β) : (Except.ok a >>= f) = f a := rfl

theorem mapM_eq_map {α β : Type} {f : α → Result β} {g : α → β} {l : List α}
    (h : ∀ a ∈ l, f a = .ok (g a)) : l.mapM f = .ok (l.map g) := by
  induction l with
  | nil => rfl
  | cons a l ih =>
    rw [List.mapM_cons, h a List.mem_cons_self, ok_bind,
      ih fun x hx => h x (List.mem_cons_of_mem _ hx)]
    rfl

theorem guard_of {p : Prop} {_ : Decidable p} (h : p) : (guard p : Option Unit) = some () :=
  if_pos h

theorem of_guard {p : Prop} {_ : Decidable p} {u : Unit} (h : (guard p : Option Unit) = some u) : p := by
  by_contra hp
  have hnone : (guard p : Option Unit) = none := if_neg hp
  rw [hnone] at h
  cases h

/-- `narrow_elo`. -/
def narrowElo (elo : Option Int32) : Result (Option Int16) :=
  match elo with
  | none => .ok none
  | some elo => if elo < -32768 || 32767 < elo then .error .ioFailure else .ok (some elo.toInt16)

/-- One position of one game, as the replay hands it to the index builder. -/
structure PositionRow where
  zobristHash : UInt64
  gameId : UInt32
  ply : UInt16
  encodedMove : UInt16
  result : ℤ
  whiteElo : Option Int16
  blackElo : Option Int16
  deriving DecidableEq

/-- One occurrence of a position, with the result and ratings of its game. -/
structure PositionMatch where
  gameId : UInt32
  ply : UInt16
  result : ℤ
  whiteElo : Option Int16
  blackElo : Option Int16
  deriving DecidableEq

/-- A game and the ply at which it reaches a position, ordered by game and then by ply. -/
structure Occurrence where
  id : UInt32
  ply : UInt16
  deriving DecidableEq

namespace Occurrence

def key (o : Occurrence) : ℕ ×ₗ ℕ := toLex (o.id.toNat, o.ply.toNat)

theorem key_injective : Function.Injective key := by
  rintro ⟨id, ply⟩ ⟨id', ply'⟩ h
  obtain ⟨hid, hply⟩ := Prod.mk.inj (toLex.injective h)
  rw [Occurrence.mk.injEq]
  exact ⟨UInt32.toNat_inj.mp hid, UInt16.toNat_inj.mp hply⟩

instance : LinearOrder Occurrence := LinearOrder.lift' key key_injective

theorem lt_iff {a b : Occurrence} :
    a < b ↔ a.id.toNat < b.id.toNat ∨ a.id = b.id ∧ a.ply.toNat < b.ply.toNat := by
  have h : a < b ↔ key a < key b := Iff.rfl
  rw [h, key, key, Prod.Lex.toLex_lt_toLex, UInt32.toNat_inj]

end Occurrence

/-- What an artifact knows about one position: its counts and its lowest and highest ply. -/
structure PositionPostingsSummary where
  occurrenceCount : ℕ
  distinctGameCount : ℕ
  minPly : ℕ
  maxPly : ℕ
  deriving DecidableEq

end MotifChess.Db
