/- GID: MotifChess/Db/StoreRuns
   generality: implementation
   digest: The writes of a game store, and what every database they reach satisfies. -/

import MotifChess.Db.Deduplicate
import MotifChess.System.Run

set_option autoImplicit false
set_option relaxedAutoImplicit false

namespace MotifChess.Db

open MotifChess.Order.FirstWins

/-- The writes to the canonical tables. Each may stand alone or inside a batch; what a rollback
leaves is a database that was reached before. -/
inductive StoreWrite
  | insert (game : Game)
  | insertRaw (game : Game)
  | dropIdentityIndex
  | deduplicate
  | remove (id : ℕ)
  | patchMetadata (id : ℕ) (patch : GamePatch)
  | setManualProvenance (id : ℕ) (sourceLabel : Option String) (reviewStatus : String)

variable (moveHash : List UInt16 → UInt64)

/-- The tables after a write inside a transaction. An insert that fails there leaves what it
wrote before the failure. -/
def StoreWrite.step (t : Tables) : StoreWrite → Option Tables
  | .insert game => some (t.insert moveHash game).1
  | .insertRaw game => some (t.insertRaw moveHash game).1
  | .dropIdentityIndex => some t.dropIdentityIndex
  | .deduplicate => ((t.deduplicate moveHash).toOption).map Prod.fst
  | .remove id => (t.remove id).toOption
  | .patchMetadata id patch => (t.patchMetadata moveHash id patch).toOption
  | .setManualProvenance id label status => (t.setManualProvenance id label status).toOption

/-- A database that a run of writes builds from an empty one. -/
def Tables.Reachable (t : Tables) : Prop :=
  System.Reaches (StoreWrite.step moveHash) (fun _ _ => True) .empty t

namespace Tables

variable {moveHash} {t t' : Tables}

/-- One row rewritten, and names added: what the updates of a patch amount to. -/
structure Rewritten (id : ℕ) (change : StoredGame → StoredGame) (players : List Player)
    (events : List Event) (t t' : Tables) : Prop where
  games : t'.games = (t.changeGame id change).games
  players : t'.players = insertAll Player.name t.players players
  events : t'.events = insertAll Event.name t.events events
  identityIndex : t'.identityIndex = t.identityIndex

namespace Rewritten

variable {id : ℕ} {change more : StoredGame → StoredGame} {players newer : List Player}
  {events later : List Event} {u : Tables}

theorem refl : Rewritten id (fun game => game) [] [] t t where
  games := by
    simp only [changeGame, rewriteRows, ite_self]
    exact (List.map_id _).symm
  players := rfl
  events := rfl
  identityIndex := rfl

theorem trans (h : Rewritten id change players events t t')
    (h' : Rewritten id more newer later t' u) :
    Rewritten id (fun game => more (change game)) (players ++ newer) (events ++ later) t u where
  games := by
    rw [h'.games]
    simp only [changeGame, rewriteRows, h.games, List.map_map]
    apply List.map_congr_left
    intro row _
    by_cases hid : row.id = id <;> simp [hid]
  players := by rw [h'.players, h.players, insertAll_append]
  events := by rw [h'.events, h.events, insertAll_append]
  identityIndex := h'.identityIndex.trans h.identityIndex

theorem congr (h : Rewritten id change players events t t')
    (hchange : ∀ game, change game = more game) : Rewritten id more players events t t' := by
  obtain rfl : change = more := funext hchange
  exact h

end Rewritten

section Updates

variable {id : ℕ} {change : StoredGame → StoredGame}

private theorem updateGame_ok (h : t.updateGame moveHash id change = .ok t') :
    Rewritten id change [] [] t t' ∧ t'.indexHolds moveHash = true := by
  simp only [updateGame] at h
  split at h
  next hindex =>
    obtain rfl := Except.ok.inj h
    exact ⟨⟨rfl, rfl, rfl, rfl⟩, hindex⟩
  next => contradiction

private theorem updateField_ok {α : Type} {value : Option α} {set : α → StoredGame → StoredGame}
    (h : t.updateField moveHash id value set = .ok t') :
    Rewritten id (fun game => value.elim game fun value => set value game) [] [] t t' := by
  cases value with
  | none => exact Except.ok.inj h ▸ .refl
  | some value => exact (updateGame_ok h).1

theorem patchPlayer_ok {setName : String → StoredGame → StoredGame}
    {setElo : Int32 → StoredGame → StoredGame} {current : Player} {name : Option String}
    {elo : Option Int32}
    (h : t.patchPlayer moveHash id setName setElo current name elo = .ok t') :
    Rewritten id (fun game =>
        let game := elo.elim game fun elo => setElo elo game
        name.elim game fun name => setName name game)
      (name.toList.map fun name => { current with name }) [] t t' := by
  obtain ⟨u, hu, hrest⟩ := bind_eq_ok.mp h
  have helo := updateField_ok hu
  cases name with
  | none => exact Except.ok.inj hrest ▸ helo
  | some name =>
    have hplayer : Rewritten id (fun game => game) [{ current with name }] [] u
        (u.findOrInsertPlayer { current with name }) := ⟨Rewritten.refl.games, rfl, rfl, rfl⟩
    exact helo.trans (hplayer.trans (updateGame_ok hrest).1)

theorem patchEvent_ok {current : Option Event} {event site : Option String}
    (h : t.patchEvent moveHash id current event site = .ok t') :
    let name := event.getD (current.elim "" Event.name)
    let added := if (event.isSome || site.isSome) && name != "" then
      some (⟨name, site.or (current.bind Event.site), current.bind Event.date⟩ : Event) else none
    Rewritten id (fun game => added.elim game fun added => { game with event := some added.name }) []
      added.toList t t' := by
  intro name
  simp only [patchEvent] at h
  by_cases htouched : event.isNone && site.isNone
  · rw [if_pos htouched] at h
    have hnone : (event.isSome || site.isSome) = false := by
      cases event <;> cases site <;> simp_all
    simp only [hnone, Bool.false_and, Bool.false_eq_true, if_false]
    exact Except.ok.inj h ▸ .refl
  · rw [if_neg htouched] at h
    have hsome : (event.isSome || site.isSome) = true := by
      cases event <;> cases site <;> simp_all
    by_cases hname : name = ""
    · rw [if_pos hname] at h
      simp only [hname, bne_self_eq_false, Bool.and_false, Bool.false_eq_true, if_false]
      exact Except.ok.inj h ▸ .refl
    · rw [if_neg hname] at h
      have hadded : ((event.isSome || site.isSome) && name != "") = true := by
        simp [hsome, hname]
      have hsite : (if site.isSome then site else current.bind Event.site) =
          site.or (current.bind Event.site) := by
        cases site <;> rfl
      rw [hsite] at h
      simp only [hadded, if_true]
      have hevent : Rewritten id (fun game => game) []
          [⟨name, site.or (current.bind Event.site), current.bind Event.date⟩] t
          (t.findOrInsertEvent ⟨name, site.or (current.bind Event.site), current.bind Event.date⟩) :=
        ⟨Rewritten.refl.games, rfl, rfl, rfl⟩
      exact hevent.trans (updateGame_ok h).1

theorem patchScalars_ok {patch : GamePatch} (h : t.patchScalars moveHash id patch = .ok t') :
    Rewritten id (fun game => { game with
      date := patch.date.or game.date
      result := patch.result.getD game.result
      eco := patch.eco.or game.eco
      provenance := { game.provenance with
        sourceLabel := patch.sourceLabel.or game.provenance.sourceLabel
        reviewStatus := patch.reviewStatus.getD game.provenance.reviewStatus } }) [] [] t t' := by
  obtain ⟨u, hdate, h⟩ := bind_eq_ok.mp h
  obtain ⟨v, hresult, h⟩ := bind_eq_ok.mp h
  obtain ⟨w, heco, h⟩ := bind_eq_ok.mp h
  obtain ⟨x, hlabel, hstatus⟩ := bind_eq_ok.mp h
  have hall := (((updateField_ok hdate).trans (updateField_ok hresult)).trans
    (updateField_ok heco)).trans ((updateField_ok hlabel).trans (updateField_ok hstatus))
  refine hall.congr fun game => ?_
  cases patch.date <;> cases patch.result <;> cases patch.eco <;> cases patch.sourceLabel <;>
    cases patch.reviewStatus <;> rfl

end Updates

end Tables

end MotifChess.Db
