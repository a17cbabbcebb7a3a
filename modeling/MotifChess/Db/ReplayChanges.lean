/- GID: MotifChess/Db/ReplayChanges
   generality: implementation
   digest: Which writes leave the replay records alone, and what a repair does to them. -/

import MotifChess.Db.Deduplicate
import MotifChess.Db.PatchLaw
import MotifChess.Db.ReplayGame

set_option autoImplicit false
set_option relaxedAutoImplicit false

namespace MotifChess.Db.Tables

variable {moveHash : List UInt16 → UInt64} {t t' : Tables} {id : ℕ}

private theorem replayGames_changeGame {change : StoredGame → StoredGame}
    (hresult : ∀ game, (change game).result = game.result)
    (hwhite : ∀ game, (change game).whiteElo = game.whiteElo)
    (hblack : ∀ game, (change game).blackElo = game.blackElo)
    (hmoves : ∀ game, (change game).moves = game.moves) :
    (t.changeGame id change).replayGames = t.replayGames := by
  simp only [replayGames, changeGame, rewriteRows, List.map_map]
  apply List.map_congr_left
  intro row _
  by_cases hid : row.id = id <;> simp [GameRow.readResult, hid, hresult, hwhite, hblack, hmoves]

theorem replayGames_setManualProvenance {label : Option String} {status : String}
    (h : t.setManualProvenance id label status = .ok t') :
    t'.replayGames = t.replayGames ∧ t'.identityIndex = t.identityIndex := by
  obtain ⟨row, -, h⟩ := bind_eq_ok.mp h
  obtain rfl := Except.ok.inj h
  exact ⟨replayGames_changeGame (fun _ => rfl) (fun _ => rfl) (fun _ => rfl) fun _ => rfl, rfl⟩

theorem replayGames_patchMetadata {patch : GamePatch} (hwhite : patch.whiteElo = none)
    (hblack : patch.blackElo = none) (hresult : patch.result = none)
    (h : t.patchMetadata moveHash id patch = .ok t') :
    t'.replayGames = t.replayGames ∧ t'.identityIndex = t.identityIndex := by
  obtain ⟨row, -, -, -, current, -, hrewritten⟩ := patchMetadata_ok h
  refine ⟨?_, hrewritten.identityIndex⟩
  rw [replayGames, hrewritten.games]
  refine replayGames_changeGame (fun game => ?_) (fun game => ?_) (fun game => ?_) fun _ => rfl
  · simp [GamePatch.applied, hresult]
  · simp [GamePatch.applied, hwhite]
  · simp [GamePatch.applied, hblack]

theorem replayGames_deduplicate {removed : ℕ} (h : t.deduplicate moveHash = .ok (t', removed)) :
    t'.replayGames = t.replayGames ∨ t'.countGames < t.countGames := by
  rw [deduplicate_eq] at h
  obtain ⟨rfl, -⟩ := Prod.mk.inj (Except.ok.inj h)
  let keep : GameRow → Bool := fun row => t.games.all fun other =>
    other.identity != row.identity || row.id ≤ other.id
  have hgames : (t.reconcile moveHash).replayGames = (t.keepRows keep).replayGames := by
    simp only [reconcile, replayGames, rewriteRows, List.map_map]
    rfl
  by_cases hall : ∀ row ∈ t.games, keep row = true
  · left
    have hkept : t.games.filter keep = t.games := List.filter_eq_self.mpr hall
    change (t.reconcile moveHash).replayGames = t.replayGames
    rw [hgames]
    simp only [replayGames, keepRows, hkept]
  · right
    change (t.reconcile moveHash).countGames < t.countGames
    rw [← length_replayGames, hgames, length_replayGames]
    push Not at hall
    obtain ⟨row, hrow, hgone⟩ := hall
    exact List.length_filter_lt_length_iff_exists.mpr ⟨row, hrow, by simpa using hgone⟩

theorem countGames_deduplicate_le {removed : ℕ}
    (h : t.deduplicate moveHash = .ok (t', removed)) : t'.countGames ≤ t.countGames := by
  rcases replayGames_deduplicate h with hsame | hfewer
  · rw [← length_replayGames, hsame, length_replayGames]
  · exact hfewer.le

end MotifChess.Db.Tables
