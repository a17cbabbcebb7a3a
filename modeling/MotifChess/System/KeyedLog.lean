/- GID: MotifChess/System/KeyedLog
   generality: general
   digest: Maps that change one entry at a time, and what the log of the changes says about them. -/

import Mathlib.Data.Set.Card

set_option autoImplicit false
set_option relaxedAutoImplicit false

namespace MotifChess.System

/-- A change of one entry of a map. -/
inductive Change (K V : Type)
  | added (key : K) (value : V)
  | updated (key : K) (value : V)
  | removed (key : K)
  deriving DecidableEq

namespace Change

variable {K V : Type}

def key : Change K V → K
  | added key _ => key
  | updated key _ => key
  | removed key => key

/-- What stands at the key after the change. -/
def value : Change K V → Option V
  | added _ value => some value
  | updated _ value => some value
  | removed _ => none

def isAdded : Change K V → Bool
  | added _ _ => true
  | _ => false

def isRemoved : Change K V → Bool
  | removed _ => true
  | _ => false

/-- An addition at a free key, or a change of an owned value, to one that may follow it. -/
def Admitted (owned : V → Prop) (follows : V → V → Prop) (m : K → Option V) : Change K V → Prop
  | added key _ => m key = none
  | updated key value => ∃ old, m key = some old ∧ owned old ∧ follows old value
  | removed key => ∃ old, m key = some old ∧ owned old

end Change

variable {K V : Type} [DecidableEq K]

/-- The log leads from one map to the other, and every change in it is admitted where it is made. -/
inductive Logged (owned : V → Prop) (follows : V → V → Prop) :
    (K → Option V) → List (Change K V) → (K → Option V) → Prop
  | nil (m : K → Option V) : Logged owned follows m [] m
  | cons {m m' : K → Option V} {change : Change K V} {log : List (Change K V)} :
      change.Admitted owned follows m →
      Logged owned follows (Function.update m change.key change.value) log m' →
      Logged owned follows m (change :: log) m'

namespace Logged

variable {owned : V → Prop} {follows : V → V → Prop} {m m' m'' : K → Option V}
  {log log' : List (Change K V)} {k : K} {v : V}

theorem single {change : Change K V} (h : change.Admitted owned follows m) :
    Logged owned follows m [change] (Function.update m change.key change.value) :=
  .cons h (.nil _)

theorem append (h : Logged owned follows m log m') (h' : Logged owned follows m' log' m'') :
    Logged owned follows m (log ++ log') m'' := by
  induction h with
  | nil => exact h'
  | cons hadmitted _ ih => exact .cons hadmitted (ih h')

section Entries

/-- An entry that the log neither updates nor removes stays. -/
theorem eq_of_untouched (h : Logged owned follows m log m') (hm : m k = some v)
    (hlog : ∀ change ∈ log, change.isAdded = true ∨ change.key ≠ k) : m' k = some v := by
  induction h with
  | nil => exact hm
  | @cons m m' change log hadmitted _ ih =>
    obtain ⟨hchange, hrest⟩ := List.forall_mem_cons.mp hlog
    refine ih ?_ hrest
    have hne : k ≠ change.key := by
      rintro rfl
      cases change with
      | added key value => exact Option.some_ne_none v (hm.symm.trans hadmitted)
      | updated key value => exact hchange.elim Bool.false_ne_true fun hne => hne rfl
      | removed key => exact hchange.elim Bool.false_ne_true fun hne => hne rfl
    rw [Function.update_of_ne hne, hm]

/-- No change names a value that is not owned, so that it stays. -/
theorem eq_of_not_owned (h : Logged owned follows m log m') (hm : m k = some v) (hv : ¬owned v) :
    m' k = some v := by
  induction h with
  | nil => exact hm
  | @cons m m' change log hadmitted _ ih =>
    refine ih ?_
    have hne : k ≠ change.key := by
      rintro rfl
      cases change with
      | added key value => exact Option.some_ne_none v (hm.symm.trans hadmitted)
      | updated key value =>
        obtain ⟨old, hold, howned, -⟩ := hadmitted
        obtain rfl := Option.some.inj (hold.symm.trans hm)
        exact hv howned
      | removed key =>
        obtain ⟨old, hold, howned⟩ := hadmitted
        obtain rfl := Option.some.inj (hold.symm.trans hm)
        exact hv howned
    rw [Function.update_of_ne hne, hm]

/-- A value that is not removed is followed by what stands there at the end. -/
theorem follows_of_not_removed (h : Logged owned follows m log m') (hrefl : ∀ v, follows v v)
    (htrans : ∀ u v w, follows u v → follows v w → follows u w) (hm : m k = some v)
    (hkept : .removed k ∉ log) : ∃ v', m' k = some v' ∧ follows v v' := by
  induction h generalizing v with
  | nil => exact ⟨v, hm, hrefl v⟩
  | @cons m m' change log hadmitted _ ih =>
    rw [List.mem_cons, not_or] at hkept
    obtain ⟨hchange, hlog⟩ := hkept
    by_cases hkey : k = change.key
    · subst hkey
      cases change with
      | added key value => exact absurd (hm.symm.trans hadmitted) (Option.some_ne_none v)
      | updated key value =>
        obtain ⟨old, hold, -, hfollows⟩ := hadmitted
        obtain rfl := Option.some.inj (hold.symm.trans hm)
        obtain ⟨v', hv', hlast⟩ := ih (Function.update_self ..) hlog
        exact ⟨v', hv', htrans _ _ _ hfollows hlast⟩
      | removed key => exact absurd rfl hchange
    · exact ih ((Function.update_of_ne hkey ..).trans hm) hlog

end Entries

section Counting

/-- The keys at which something stands. -/
def stored (m : K → Option V) : Set K := {k | m k ≠ none}

omit [DecidableEq K] in
theorem mem_stored : k ∈ stored m ↔ m k ≠ none := .rfl

theorem stored_update_some : stored (Function.update m k (some v)) = insert k (stored m) := by
  ext k'
  by_cases hk : k' = k
  · subst hk
    simp [mem_stored]
  · simp [mem_stored, hk]

theorem stored_update_none : stored (Function.update m k none) = stored m \ {k} := by
  ext k'
  by_cases hk : k' = k
  · subst hk
    simp [mem_stored]
  · simp [mem_stored, hk]

/-- The number of entries grows by the additions and shrinks by the removals. -/
theorem ncard_stored (h : Logged owned follows m log m') (hfinite : (stored m).Finite) :
    (stored m').ncard + log.countP Change.isRemoved =
      (stored m).ncard + log.countP Change.isAdded := by
  induction h with
  | nil => rfl
  | @cons m m' change log hadmitted _ ih =>
    cases change with
    | added key value =>
      have hnew : key ∉ stored m := fun hmem => hmem hadmitted
      have hrest := ih (by
        rw [Change.key, Change.value, stored_update_some]
        exact hfinite.insert key)
      rw [Change.key, Change.value, stored_update_some, Set.ncard_insert_of_notMem hnew hfinite] at hrest
      simp only [List.countP_cons, Change.isAdded, Change.isRemoved, if_true, Bool.false_eq_true, if_false]
      omega
    | updated key value =>
      obtain ⟨old, hold, -, -⟩ := hadmitted
      have hmem : key ∈ stored m := by
        rw [mem_stored, hold]
        exact Option.some_ne_none old
      have hrest := ih (by
        rw [Change.key, Change.value, stored_update_some]
        exact hfinite.insert key)
      rw [Change.key, Change.value, stored_update_some, Set.insert_eq_of_mem hmem] at hrest
      simp only [List.countP_cons, Change.isAdded, Change.isRemoved, Bool.false_eq_true, if_false]
      omega
    | removed key =>
      obtain ⟨old, hold, -⟩ := hadmitted
      have hmem : key ∈ stored m := by
        rw [mem_stored, hold]
        exact Option.some_ne_none old
      have hrest := ih (by
        rw [Change.key, Change.value, stored_update_none]
        exact hfinite.sdiff)
      rw [Change.key, Change.value, stored_update_none] at hrest
      have hone := Set.ncard_sdiff_singleton_add_one hmem hfinite
      simp only [List.countP_cons, Change.isAdded, Change.isRemoved, if_true, Bool.false_eq_true, if_false]
      omega

end Counting

end Logged

end MotifChess.System
