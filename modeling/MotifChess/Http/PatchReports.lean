/- GID: MotifChess/Http/PatchReports
   generality: implementation
   digest: How the patch of a game reports that another game already has the patched identity. -/

import MotifChess.Db.Store.PatchAdmits
import MotifChess.Db.Store.Session
import MotifChess.Http.GameHandlers

set_option autoImplicit false
set_option relaxedAutoImplicit false

namespace MotifChess.Http

open MotifChess.Db MotifChess.Db.Store MotifChess.System

variable {moveHash : List UInt16 → UInt64} (db : Database moveHash) (caches : IdCaches)
  (joined : Bool) (row : Store.GameRow) (patch : GamePatch) (current : Game)

/-- The patch of the game of a row, with no statement failing on its own. -/
def patchedBy : Result Unit × CallState moveHash := patchMetadata joined row.id patch ⟨db, caches, []⟩

/-- No other game has the identity that a patch gives to the game of a row. -/
def FinalFree : Prop :=
  db.Free moveHash ((⟨db.toRows, caches⟩ : View).patchedRow patch current row)

/-- A patch of the game of a row fails exactly when its final identity is taken, as a duplicate, which
the handler turns into a conflict, and with the tables left as they were. -/
structure ReportsCollision : Prop where
  fails_iff : (∃ e, (patchedBy db caches joined row patch).1 = .error e) ↔
    ¬FinalFree db caches row patch current
  duplicate : ¬FinalFree db caches row patch current →
    (patchedBy db caches joined row patch).1 = .error .duplicate ∧
      (patchedBy db caches joined row patch).2.db = db
  conflict : ∀ e, (patchedBy db caches joined row patch).1 = .error e →
    patchError e = jsonError 409 "patch would create a duplicate game"
  succeeds : FinalFree db caches row patch current →
    (patchedBy db caches joined row patch).1 = .ok ()

/-- Every lookup of the patch leads to a row, no other game ever has the identity that the game has
between two updates while there is an identity index, and new notes have a tag of their own. -/
structure PatchFits : Prop where
  finds : (⟨db.toRows, caches⟩ : View).FindsNames patch current
  neverTaken : db.identityIndex = true →
    (⟨db.toRows, caches⟩ : View).NeverTaken moveHash row patch current
  notesFree : (⟨db.toRows, caches⟩ : View).NotesFree row.id patch.notes

variable {db caches joined row current}

instance : Decidable (FinalFree db caches row patch current) :=
  inferInstanceAs (Decidable (Rows.Free moveHash _ _))

private theorem patchedBy_cases (hrow : row ∈ db.games)
    (hmanual : row.provenance.read.sourceType = "manual") (hget : db.get row.id = .ok current) :
    (PatchFits db caches row patch current ∧ (patchedBy db caches joined row patch).1 = .ok ()) ∨
      (¬PatchFits db caches row patch current ∧
        (patchedBy db caches joined row patch).1 = .error .ioFailure) := by
  have hsucceeds := @patchMetadata_succeeds_iff moveHash ⟨db, caches, []⟩ patch joined row rfl hrow
    hmanual current hget
  have hadmits := @View.admits_iff moveHash ⟨db.toRows, caches⟩ row patch current db.consistent hrow
  have hfits : PatchFits db caches row patch current ↔
      ∃ t, patchMetadata joined row.id patch ⟨db, caches, []⟩ = (.ok (), t) :=
    Iff.trans ⟨fun ⟨h₁, h₂, h₃⟩ => ⟨h₁, h₂, h₃⟩, fun ⟨h₁, h₂, h₃⟩ => ⟨h₁, h₂, h₃⟩⟩
      (hadmits.symm.trans hsucceeds.symm)
  rw [hfits, patchedBy]
  cases hrun : patchMetadata joined row.id patch ⟨db, caches, []⟩ with
  | mk r t =>
    cases r with
    | ok a => exact .inl ⟨⟨t, rfl⟩, rfl⟩
    | error e =>
      obtain rfl := patchMetadata_failsIo hrow hmanual hrun
      exact .inr ⟨by simp, rfl⟩

/-- A patch of a manual game reports collisions as it should exactly when its final identity is free
and it meets no obstacle on the way there. -/
theorem reportsCollision_iff (hrow : row ∈ db.games)
    (hmanual : row.provenance.read.sourceType = "manual") (hget : db.get row.id = .ok current) :
    ReportsCollision db caches joined row patch current ↔
      FinalFree db caches row patch current ∧ PatchFits db caches row patch current := by
  have hcases := @patchedBy_cases moveHash db caches joined row patch current hrow hmanual hget
  constructor
  · intro h
    have hfree : FinalFree db caches row patch current := by
      by_contra htaken
      have hduplicate := (h.duplicate htaken).1
      rcases hcases with ⟨-, hok⟩ | ⟨-, herror⟩
      · simp [hok] at hduplicate
      · simp [herror] at hduplicate
    refine ⟨hfree, ?_⟩
    rcases hcases with ⟨hfits, -⟩ | ⟨-, herror⟩
    · exact hfits
    · simp [h.succeeds hfree] at herror
  · rintro ⟨hfree, hfits⟩
    have hok : (patchedBy db caches joined row patch).1 = .ok () := by
      rcases hcases with ⟨-, hok⟩ | ⟨hnot, -⟩
      · exact hok
      · exact absurd hfits hnot
    refine ⟨?_, fun htaken => absurd hfree htaken, ?_, fun _ => hok⟩
    · simp [hok, hfree]
    · intro e he
      rw [hok] at he
      cases he

section Sample

private def manualGame (date : Option String) (result : String) : Game where
  white := ⟨"Ann", none, none, none⟩
  black := ⟨"Bob", none, none, none⟩
  eventDetails := none
  date := date
  result := result
  eco := none
  moves := [5, 7]
  provenance := { sourceType := "manual" }

/-- Three games of Ann and Bob with the same moves: one drawn on an unknown date, one drawn on a known
date, and one won on an unknown date. -/
private def threeGames : Option (Ledger fun _ => 0) :=
  run Ledger.step Ledger.Sound .new
    [.insert .embedded (manualGame none "1/2-1/2") {},
      .insert .embedded (manualGame (some "2024.01.01") "1/2-1/2") {},
      .insert .embedded (manualGame none "1-0") {}]

/-- Patching the result of the draw on an unknown date to that of the third game is a server error and
no conflict. -/
theorem not_reportsCollision : ¬∀ l : Ledger fun _ => 0, Reaches Ledger.step Ledger.Sound .new l →
    ∀ row ∈ l.db.games, row.provenance.read.sourceType = "manual" →
      ∀ current, l.db.get row.id = .ok current → ∀ patch,
        ReportsCollision l.db l.store l.joined row patch current := by
  intro hall
  have hrun : ∃ l ∈ threeGames, ∃ row ∈ l.db.games.head?,
      row.provenance.read.sourceType = "manual" ∧ ∃ current ∈ (l.db.get row.id).toOption,
        (patchedBy l.db l.store l.joined row { result := some "1-0" }).1 = .error .ioFailure := by
    decide +kernel
  obtain ⟨l, hl, row, hrow, hmanual, current, hget, hfails⟩ := hrun
  have hconflict := (hall l (reaches_of_run hl) row (List.mem_of_head? hrow) hmanual current
    (toOption_eq_some.mp hget) { result := some "1-0" }).conflict _ hfails
  exact absurd hconflict (by decide)

/-- No game of Ann and Bob is a win on the known date, but the draw on an unknown date cannot become
one: the update of its date makes it the second game. -/
example : ∃ l ∈ threeGames, ∃ row ∈ l.db.games.head?,
    ∃ current ∈ (l.db.get row.id).toOption,
      FinalFree l.db l.store row { date := some "2024.01.01", result := some "1-0" } current ∧
        (patchedBy l.db l.store l.joined row
          { date := some "2024.01.01", result := some "1-0" }).1 = .error .ioFailure := by
  decide +kernel

theorem reportsCollision_iff_sample : ∃ l ∈ threeGames, ∃ row ∈ l.db.games,
    ∃ current ∈ (l.db.get row.id).toOption,
      (ReportsCollision l.db l.store l.joined row { eco := some "C20" } current ↔
        FinalFree l.db l.store row { eco := some "C20" } current ∧
          PatchFits l.db l.store row { eco := some "C20" } current) := by
  have hrun : ∃ l ∈ threeGames, ∃ row ∈ l.db.games.head?,
      row.provenance.read.sourceType = "manual" ∧
        ∃ current ∈ (l.db.get row.id).toOption, True := by
    decide +kernel
  obtain ⟨l, hl, row, hrow, hmanual, current, hget, -⟩ := hrun
  have hrow := List.mem_of_head? hrow
  exact ⟨l, hl, row, hrow, current, hget, reportsCollision_iff { eco := some "C20" } hrow hmanual
    (toOption_eq_some.mp hget)⟩

/-- A patch inside a batch that is rolled back leaves an id for its player in the caches of the store.
The same patch then fails, although no other game is played by that player. -/
example : ∃ l ∈ run Ledger.step (fun _ _ => True) (.new : Ledger fun _ => 0) [
    .insert .embedded (manualGame none "1-0") {},
    .begin .bulk true,
    .patch 1 { whiteName := some "Cat" } {},
    .rollback .bulk true],
    ∃ row ∈ l.db.games.head?, ∃ current ∈ (l.db.get row.id).toOption,
      FinalFree l.db l.store row { whiteName := some "Cat" } current ∧
        ¬(⟨l.db.toRows, l.store⟩ : View).Finds .player "Cat" ∧
          (patchedBy l.db l.store l.joined row { whiteName := some "Cat" }).1 =
            .error .ioFailure := by
  decide +kernel

end Sample

end MotifChess.Http
