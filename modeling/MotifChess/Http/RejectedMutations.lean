/- GID: MotifChess/Http/RejectedMutations
   generality: implementation
   digest: A rejected mutation keeps the answers of queries when it is checked before invalidation. -/

import MotifChess.Db.Bundle.Invalidate
import MotifChess.Db.Bundle.Runs
import MotifChess.Http.GameHandlers

set_option autoImplicit false
set_option relaxedAutoImplicit false

namespace MotifChess.Http

open MotifChess.Db MotifChess.Db.Bundle

/-- The calls that change or remove a game, of the manager and over HTTP. -/
inductive MutationCall
  | patchGameMetadata (id : ℕ) (patch : GamePatch)
  | removeGame (id : ℕ)
  | removeUserGame (id : ℕ)
  | httpPatchGame (id : ℕ) (patch : GamePatch)
  | httpDeleteGame (id : ℕ)

namespace MutationCall

variable {ix : Indexes} (moveHash : List UInt16 → UInt64)

/-- The bundle after a call. -/
def run (io : StaleIO) (b : Bundle ix) : MutationCall → Bundle ix
  | patchGameMetadata id patch => (b.patchGameMetadata moveHash io true id patch).1
  | removeGame id => (b.removeGame io true id).1
  | removeUserGame id => (b.removeUserGame io true id).1
  | httpPatchGame id patch => (patchGame moveHash io true id patch b).1
  | httpDeleteGame id => (deleteGame io true id b).1

/-- The game does not exist, is not editable, or would collide with another one. -/
def Rejected (t : Tables) : MutationCall → Prop
  | patchGameMetadata id patch => ∃ e, t.patchMetadata moveHash id patch = .error e
  | removeGame id => ∃ e, t.remove id = .error e
  | removeUserGame id => ∀ row, t.findGame id = .ok row → row.stored.provenance.read.sourceType ≠ "manual"
  | httpPatchGame id patch => ∃ e, t.patchMetadata moveHash id patch = .error e
  | httpDeleteGame id => ∀ row, t.findGame id = .ok row → row.stored.provenance.read.sourceType ≠ "manual"

/-- A patch that the manager rejects for a rating, or that leaves ratings and result alone. -/
def SparesIndexes (patch : GamePatch) : Prop :=
  affectsDerived patch = false ∨ (∃ e, narrowElo patch.whiteElo = .error e) ∨
    ∃ e, narrowElo patch.blackElo = .error e

/-- The calls that are checked before the indexes are invalidated, or do not invalidate them. -/
def ChecksFirst : MutationCall → Prop
  | patchGameMetadata _ patch => SparesIndexes patch
  | removeGame _ => False
  | removeUserGame _ => True
  | httpPatchGame _ patch => patchRefusal patch ≠ none ∨ SparesIndexes patch
  | httpDeleteGame _ => True

/-- The same stored games, the same valid indexes, and the same answers to every query. -/
structure Intact (b b' : Bundle ix) : Prop where
  games : b'.tables.games = b.tables.games
  view : b'.view = b.view

section Paths

variable {moveHash} {b : Bundle ix} {io : StaleIO}

theorem Intact.refl : Intact b b := ⟨rfl, rfl⟩

private theorem orUnchanged_of_error {write : Tables → Result Tables} {t : Tables} {e : ErrorCode}
    (h : write t = .error e) : orUnchanged write t = (t, .error e) := by
  rw [orUnchanged, h]

private theorem intact_change {write : Tables → Result Tables} {e : ErrorCode}
    (h : write b.tables = .error e) : Intact b (b.change true (orUnchanged write)).1 := by
  simp only [change, Bool.not_true, Bool.false_eq_true, if_false, orUnchanged_of_error h]
  exact ⟨rfl, rfl⟩

private theorem not_intact_mutate {m : Manager ix} (hm : b.manager = some m)
    (hvalid : (m.validPostings b.tables).isSome) (hio : io.manifest.outcome = .published)
    (write : Tables → Tables × Result Unit) : ¬ Intact b (b.mutate io true write).1 := by
  have hnamed : m.manifest.positionPostings.isSome := by
    obtain ⟨i, hi⟩ := Option.isSome_iff_exists.mp hvalid
    obtain ⟨e, he, -⟩ := Option.bind_eq_some_iff.mp hi
    rw [he]
    rfl
  have hprepare : b.prepareCanonicalMutation io = b.markDerivedIndexesStale io m := by
    unfold Bundle.prepareCanonicalMutation
    rw [hm]
    refine if_neg fun hnone => ?_
    rw [Bool.and_eq_true, Option.isNone_iff_eq_none] at hnone
    rw [hnone.1] at hnamed
    cases hnamed
  intro hintact
  have hview := hintact.view
  unfold Bundle.mutate at hview
  rw [hprepare] at hview
  rcases markDerivedIndexesStale_cases io m b with ⟨hnot, -⟩ | ⟨-, hstale, hresult⟩
  · rw [hio] at hnot
    cases hnot
  · cases hmark : b.markDerivedIndexesStale io m with
    | mk b' r =>
      rw [hmark] at hview hstale hresult
      rw [if_pos hio] at hresult
      subst hresult
      simp only [change, Bool.not_true, Bool.false_eq_true, if_false] at hview
      have hmanager : (b'.store (write b'.tables).1).manager =
          some { manifest := staleManifest m.manifest } := hstale.manager
      rw [Bundle.view, Bundle.view, hmanager, hm] at hview
      have hpostings := congrArg View.postings (Option.some.inj hview)
      have hnone : (m.validPostings b.tables).map
          (fun i => (i.reader, b.disk.files i.file)) = none := hpostings.symm
      rw [Option.map_eq_none_iff] at hnone
      rw [hnone] at hvalid
      cases hvalid

private theorem intact_patchGameMetadata_iff {m : Manager ix} (hm : b.manager = some m)
    (hvalid : (m.validPostings b.tables).isSome) (hio : io.manifest.outcome = .published) {id : ℕ}
    {patch : GamePatch} {e : ErrorCode} (h : b.tables.patchMetadata moveHash id patch = .error e) :
    Intact b (b.patchGameMetadata moveHash io true id patch).1 ↔ SparesIndexes patch := by
  unfold Bundle.patchGameMetadata SparesIndexes
  rw [if_neg (by simp [hm])]
  cases hwhite : narrowElo patch.whiteElo with
  | error e => exact iff_of_true .refl (.inr (.inl ⟨e, rfl⟩))
  | ok white =>
    cases hblack : narrowElo patch.blackElo with
    | error e => exact iff_of_true .refl (.inr (.inr ⟨e, rfl⟩))
    | ok black =>
      cases haffects : affectsDerived patch with
      | false => exact iff_of_true (intact_change h) (.inl rfl)
      | true => exact iff_of_false (not_intact_mutate hm hvalid hio _) (by simp)

private theorem intact_removeUserGame {id : ℕ} (h : ∀ row, b.tables.findGame id = .ok row →
    row.stored.provenance.read.sourceType ≠ "manual") : Intact b (b.removeUserGame io true id).1 := by
  rcases removeUserGame_cases io true id b with ⟨e, heq⟩ | ⟨⟨row, hrow, hmanual⟩, -⟩
  · rw [heq]
    exact .refl
  · exact absurd hmanual (h row hrow)

private theorem patchGame_fst (io : StaleIO) (id : ℕ) (patch : GamePatch) (b : Bundle ix) :
    (patchGame moveHash io true id patch b).1 = if patchRefusal patch = none then
      (b.patchGameMetadata moveHash io true id patch).1 else b := by
  unfold patchGame
  cases patchRefusal patch with
  | some refusal => rfl
  | none =>
    rw [if_pos rfl]
    dsimp only
    cases b.patchGameMetadata moveHash io true id patch with
    | mk b' r =>
      cases r with
      | error e => rfl
      | ok _ =>
        dsimp only
        cases b'.tables.get id <;> rfl

private theorem deleteGame_fst (io : StaleIO) (id : ℕ) (b : Bundle ix) :
    (deleteGame io true id b).1 = (b.removeUserGame io true id).1 := by
  unfold deleteGame
  cases b.removeUserGame io true id with
  | mk b' r => cases r <;> rfl

end Paths

/-- In a bundle with valid indexes, a call that is rejected for the game leaves games, indexes and
answers as they were exactly when it is checked before the invalidation or needs none. -/
theorem rejected_intact_iff {moveHash : List UInt16 → UInt64} {b : Bundle ix} {io : StaleIO}
    {m : Manager ix} (hm : b.manager = some m) (hvalid : (m.validPostings b.tables).isSome)
    (hio : io.manifest.outcome = .published) (call : MutationCall)
    (hrejected : call.Rejected moveHash b.tables) :
    Intact b (call.run moveHash io b) ↔ call.ChecksFirst := by
  cases call with
  | patchGameMetadata id patch =>
    obtain ⟨e, he⟩ := hrejected
    exact intact_patchGameMetadata_iff hm hvalid hio he
  | removeGame id => exact iff_of_false (not_intact_mutate hm hvalid hio _) not_false
  | removeUserGame id => exact iff_of_true (intact_removeUserGame hrejected) trivial
  | httpPatchGame id patch =>
    obtain ⟨e, he⟩ := hrejected
    rw [run, patchGame_fst, ChecksFirst]
    by_cases hrefused : patchRefusal patch = none
    · rw [if_pos hrefused, intact_patchGameMetadata_iff hm hvalid hio he]
      simp [hrefused]
    · rw [if_neg hrefused]
      exact iff_of_true .refl (.inl hrefused)
  | httpDeleteGame id =>
    rw [run, deleteGame_fst]
    exact iff_of_true (intact_removeUserGame hrejected) trivial

section Sample

/-- A bundle with one imported game and valid postings. -/
def sampleBundle : Option (Bundle (.withoutTree .ofSums)) :=
  System.run (step fun _ => 0) (fun _ _ => True) (created "sample" "2024-01-01T00:00:00Z")
    [.open {}, .insertGame {} true ⟨⟨"Ann", none, none, none⟩, ⟨"Bob", none, none, none⟩, none,
      some "2024.01.01", "1-0", none, [5, 7], [], {}⟩, .rebuildPositionPostings {}]

/-- An imported game cannot be patched, but the attempt leaves no position query an answer. -/
theorem rejected_patch_loses_answers : ∃ b ∈ sampleBundle,
    (∃ m, b.manager = some m ∧ (m.validPostings b.tables).isSome) ∧
    (patchGame (fun _ => 0) {} true 1 { result := some "0-1" } b).2 =
      jsonError 409 "game is not user-added and cannot be modified" ∧
    ¬ Intact b ((httpPatchGame 1 { result := some "0-1" }).run (fun _ => 0) {} b) := by
  have hrun : (sampleBundle.map fun b => (b.manager.any fun m => (m.validPostings b.tables).isSome,
      (patchGame (fun _ => 0) {} true 1 { result := some "0-1" } b).2,
      b.view.any fun v => v.postings.isSome,
      ((httpPatchGame 1 { result := some "0-1" }).run (fun _ => 0) {} b).view.any
        fun v => v.postings.isSome)) =
      some (true, jsonError 409 "game is not user-added and cannot be modified", true, false) := by
    decide +kernel
  obtain ⟨b, hb, heq⟩ := Option.map_eq_some_iff.mp hrun
  obtain ⟨hvalid, hresponse, hbefore, hafter⟩ := by simpa only [Prod.mk.injEq] using heq
  refine ⟨b, hb, ?_, hresponse, fun hintact => ?_⟩
  · simpa [Option.any_eq_true] using hvalid
  · rw [hintact.view, hbefore] at hafter
    cases hafter

theorem rejected_intact_iff_sample : ∃ b ∈ sampleBundle,
    Intact b ((httpDeleteGame 1).run (fun _ => 0) {} b) := by
  have hrun : (sampleBundle.map fun b => (b.manager.any fun m => (m.validPostings b.tables).isSome,
      (b.tables.findGame 1).toOption.map fun row => row.stored.provenance.read.sourceType)) =
      some (true, some "imported") := by
    decide +kernel
  obtain ⟨b, hb, heq⟩ := Option.map_eq_some_iff.mp hrun
  obtain ⟨hvalid, hsource⟩ := by simpa only [Prod.mk.injEq] using heq
  obtain ⟨m, hm, hpostings⟩ := by simpa [Option.any_eq_true] using hvalid
  refine ⟨b, hb, (rejected_intact_iff hm hpostings rfl (.httpDeleteGame 1) ?_).mpr trivial⟩
  intro row hrow hmanual
  rw [hrow] at hsource
  have himported : row.stored.provenance.read.sourceType = "imported" := Option.some.inj hsource
  rw [hmanual] at himported
  exact absurd himported (by decide)

end Sample

end MutationCall

end MotifChess.Http
