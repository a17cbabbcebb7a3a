/- GID: MotifChess/Db/Bundle/Writes
   generality: implementation
   digest: A mutation of an open bundle is its write of the tables, or fails and leaves them. -/

import MotifChess.Db.Bundle.Invalidate
import MotifChess.Db.Collisions

set_option autoImplicit false
set_option relaxedAutoImplicit false

namespace MotifChess.Db.Bundle

variable {ix : Indexes} {α : Type} {write : Tables → Tables × Result α} {t t' : Tables} {r : Result α}

/-- The write was made, or it failed for another reason and left the tables. -/
def Attempted (broken : Prop) (write : Tables → Tables × Result α) (t t' : Tables) (r : Result α) :
    Prop :=
  (broken ∧ t' = t ∧ r = .error .ioFailure) ∨ write t = (t', r)

/-- The bundle is not open, or the file system or SQLite fails. -/
def Broken (io : StaleIO) (works : Bool) (b : Bundle ix) : Prop :=
  b.manager = none ∨ io.manifest.outcome ≠ .published ∨ works = false

private theorem prepareCanonicalMutation_tables (io : StaleIO) (b : Bundle ix) :
    (b.prepareCanonicalMutation io).1.tables = b.tables := by
  rcases prepareCanonicalMutation_cases io b with ⟨hsame, -⟩ | ⟨m, -, hstale⟩
  · rw [hsame]
  · exact hstale.tables

private theorem prepareCanonicalMutation_error {io : StaleIO} {b : Bundle ix} {e : ErrorCode}
    (h : (b.prepareCanonicalMutation io).2 = .error e) :
    e = .ioFailure ∧ (b.manager = none ∨ io.manifest.outcome ≠ .published) := by
  unfold prepareCanonicalMutation at h
  cases hm : b.manager with
  | none =>
    rw [hm] at h
    exact ⟨(Except.error.inj h).symm, .inl rfl⟩
  | some m =>
    rw [hm] at h
    dsimp only at h
    split at h
    · cases h
    · rcases markDerivedIndexesStale_cases io m b with ⟨hnot, heq⟩ | ⟨-, -, hresult⟩
      · rw [heq] at h
        refine ⟨(Except.error.inj h).symm, .inr ?_⟩
        rw [hnot]
        decide
      · rw [hresult] at h
        split at h
        · cases h
        next hunpublished => exact ⟨(Except.error.inj h).symm, .inr hunpublished⟩

private theorem prepareCanonicalMutation_again {io : StaleIO} {b : Bundle ix}
    (h : (b.prepareCanonicalMutation io).2 = .ok ()) : ∃ m,
      (b.prepareCanonicalMutation io).1.manager = some m ∧ ∀ kind, m.manifest.entry kind = none := by
  rcases prepareCanonicalMutation_cases io b with ⟨hsame, hnone⟩ | ⟨m, -, hstale⟩
  · rw [hsame]
    exact hnone h
  · exact ⟨_, hstale.manager, fun kind => entry_staleManifest _ kind⟩

theorem prepareCanonicalMutation_of_none (io : StaleIO) {b : Bundle ix} {m : Manager ix}
    (hm : b.manager = some m) (hnone : ∀ kind, m.manifest.entry kind = none) :
    b.prepareCanonicalMutation io = (b, .ok ()) := by
  have hboth : (m.manifest.positionPostings.isNone && m.manifest.openingTreeIndex.isNone) = true := by
    rw [Bool.and_eq_true, Option.isNone_iff_eq_none, Option.isNone_iff_eq_none]
    exact ⟨hnone .postings, hnone .tree⟩
  unfold prepareCanonicalMutation
  rw [hm]
  exact if_pos hboth

theorem change_attempted (works : Bool) (write : Tables → Tables × Result α) (b : Bundle ix) :
    Attempted (works = false) write b.tables (b.change works write).1.tables
      (b.change works write).2 := by
  cases works with
  | false => exact .inl ⟨rfl, rfl, rfl⟩
  | true => exact .inr rfl

theorem Attempted.mono {broken broken' : Prop} (h : Attempted broken write t t' r)
    (hbroken : broken → broken') : Attempted broken' write t t' r :=
  h.imp_left fun hfailed => ⟨hbroken hfailed.1, hfailed.2⟩

theorem mutate_attempted (io : StaleIO) (works : Bool) (write : Tables → Tables × Result α)
    (b : Bundle ix) :
    Attempted (Broken io works b) write b.tables (b.mutate io works write).1.tables
      (b.mutate io works write).2 := by
  have htables := prepareCanonicalMutation_tables io b
  have herror := @prepareCanonicalMutation_error _ io b
  unfold mutate
  cases hprepare : b.prepareCanonicalMutation io with
  | mk prepared outcome =>
    rw [hprepare] at htables herror
    cases outcome with
    | error e =>
      obtain ⟨rfl, hbroken⟩ := herror rfl
      exact .inl ⟨hbroken.imp_right .inl, htables, rfl⟩
    | ok _ =>
      have hchange := change_attempted works write prepared
      rw [show prepared.tables = b.tables from htables] at hchange
      exact hchange.mono fun hfails => .inr (.inr hfails)

theorem manager_isSome_mutate (io : StaleIO) (works : Bool) (write : Tables → Tables × Result α)
    (b : Bundle ix) : (b.mutate io works write).1.manager.isSome = b.manager.isSome := by
  have hprepared : (b.prepareCanonicalMutation io).1.manager.isSome = b.manager.isSome := by
    rcases prepareCanonicalMutation_cases io b with ⟨hsame, -⟩ | ⟨m, hm, hstale⟩
    · rw [hsame]
    · rw [hstale.manager, hm]
      rfl
  unfold mutate
  cases hprepare : b.prepareCanonicalMutation io with
  | mk prepared outcome =>
    rw [hprepare] at hprepared
    cases outcome with
    | error e => exact hprepared
    | ok _ =>
      have hchanged : (prepared.change works write).1.manager = prepared.manager := by
        cases works <;> rfl
      exact (congrArg Option.isSome hchanged).trans hprepared

private theorem manager_of_mutate_ok {io : StaleIO} {works : Bool} {b : Bundle ix} {a : α}
    (h : (b.mutate io works write).2 = .ok a) :
    ∃ m, (b.mutate io works write).1.manager = some m ∧ ∀ kind, m.manifest.entry kind = none := by
  have hagain := @prepareCanonicalMutation_again _ io b
  unfold mutate at h ⊢
  cases hprepare : b.prepareCanonicalMutation io with
  | mk prepared outcome =>
    rw [hprepare] at h hagain
    cases outcome with
    | error e => cases h
    | ok _ =>
      have hmanager : (prepared.change works write).1.manager = prepared.manager := by
        cases works <;> rfl
      dsimp only
      rw [hmanager]
      exact hagain rfl

theorem rebuildPositionPostings_tables (io : RebuildIO) (b : Bundle ix) :
    (b.rebuildPositionPostings io).1.tables = b.tables := by
  unfold rebuildPositionPostings
  split
  · rfl
  · unfold rebuildIndex
    dsimp only
    split
    · rfl
    · split
      · rfl
      · rfl
      · rfl

theorem manager_isSome_rebuildPositionPostings (io : RebuildIO) (b : Bundle ix) :
    (b.rebuildPositionPostings io).1.manager.isSome = b.manager.isSome := by
  unfold rebuildPositionPostings
  cases hm : b.manager with
  | none =>
    rw [hm]
  | some m =>
    dsimp only
    unfold rebuildIndex
    dsimp only
    split
    · rw [hm]
    · split
      · rw [hm]
      · rfl
      · rfl

section Inserting

variable {moveHash : List UInt16 → UInt64} {io : StaleIO} {works : Bool} {game : Game} {b b' : Bundle ix}

theorem insertGame_ok {id : ℕ} (h : b.insertGame moveHash io works game = (b', .ok id)) :
    b.tables.insert moveHash game = (b'.tables, .ok id) ∧
      ∃ m, b'.manager = some m ∧ ∀ kind, m.manifest.entry kind = none := by
  unfold insertGame at h
  have hattempted := mutate_attempted io works (Tables.alone fun t => t.insert moveHash game) b
  have hmanager := @manager_of_mutate_ok _ _ (Tables.alone fun t => t.insert moveHash game) io works b id
  rw [h] at hattempted hmanager
  refine ⟨?_, hmanager rfl⟩
  rcases hattempted with ⟨-, -, hfailed⟩ | hwrite
  · cases hfailed
  · unfold Tables.alone at hwrite
    dsimp only at hwrite
    cases hinsert : b.tables.insert moveHash game with
    | mk t r =>
      rw [hinsert] at hwrite
      cases r with
      | error e => cases (Prod.mk.inj hwrite).2
      | ok id => exact hwrite

/-- An insert that fails leaves the tables. It reports a duplicate for a stored game only, and the rest
is for a bundle that is broken or for a tag name that comes twice. -/
theorem insertGame_error {e : ErrorCode} (hindex : b.tables.indexHolds moveHash = true)
    (h : b.insertGame moveHash io works game = (b', .error e)) :
    b'.tables = b.tables ∧ (e = .duplicate ∧ b.tables.Holds game ∨
      e = .ioFailure ∧ (Broken io works b ∨ ¬(game.extraTags.map Prod.fst).Nodup)) := by
  unfold insertGame at h
  have hattempted := mutate_attempted io works (Tables.alone fun t => t.insert moveHash game) b
  rw [h] at hattempted
  rcases hattempted with ⟨hbroken, hsame, hfailed⟩ | hwrite
  · exact ⟨hsame, .inr ⟨Except.error.inj hfailed, .inl hbroken⟩⟩
  · unfold Tables.alone at hwrite
    dsimp only at hwrite
    cases hinsert : b.tables.insert moveHash game with
    | mk t r =>
      rw [hinsert] at hwrite
      cases r with
      | ok id => cases (Prod.mk.inj hwrite).2
      | error e' =>
        obtain ⟨hsame, herror⟩ := Prod.mk.inj hwrite
        obtain rfl := Except.error.inj herror
        refine ⟨hsame.symm, ?_⟩
        by_cases hholds : b.tables.Holds game
        · rw [Tables.insert_of_holds hholds] at hinsert
          exact .inl ⟨(Except.error.inj (Prod.mk.inj hinsert).2).symm, hholds⟩
        · obtain ⟨rfl, htags⟩ := Tables.insert_error_of_not_holds hindex hholds hinsert
          exact .inr ⟨rfl, .inr htags⟩

end Inserting

section OrUnchanged

variable {write : Tables → Result Tables} {r : Result Unit}

theorem Attempted.ok {broken : Prop} (h : Attempted broken (orUnchanged write) t t' r)
    (hr : r = .ok ()) : write t = .ok t' := by
  rcases h with ⟨-, -, hfailed⟩ | hwrite
  · rw [hfailed] at hr
    cases hr
  · unfold orUnchanged at hwrite
    cases hresult : write t with
    | error e =>
      rw [hresult, hr] at hwrite
      cases (Prod.mk.inj hwrite).2
    | ok u =>
      rw [hresult] at hwrite
      rw [(Prod.mk.inj hwrite).1]

theorem Attempted.error {broken : Prop} {e : ErrorCode}
    (h : Attempted broken (orUnchanged write) t t' r) (hr : r = .error e) :
    t' = t ∧ (e = .ioFailure ∧ broken ∨ write t = .error e) := by
  rcases h with ⟨hbroken, hsame, hfailed⟩ | hwrite
  · rw [hfailed] at hr
    exact ⟨hsame, .inl ⟨(Except.error.inj hr).symm, hbroken⟩⟩
  · unfold orUnchanged at hwrite
    cases hresult : write t with
    | error e' =>
      rw [hresult, hr] at hwrite
      obtain ⟨hsame, herror⟩ := Prod.mk.inj hwrite
      exact ⟨hsame.symm, .inr (by rw [Except.error.inj herror])⟩
    | ok u =>
      rw [hresult, hr] at hwrite
      cases (Prod.mk.inj hwrite).2

end OrUnchanged

end MotifChess.Db.Bundle
