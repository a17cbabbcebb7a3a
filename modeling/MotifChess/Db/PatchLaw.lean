/- GID: MotifChess/Db/PatchLaw
   generality: implementation
   digest: What a metadata patch that succeeds changes, and the foreign keys that every write keeps. -/

import MotifChess.Db.StoreRuns

set_option autoImplicit false
set_option relaxedAutoImplicit false

namespace MotifChess.Db

open MotifChess.Order.FirstWins

namespace GamePatch

variable (patch : GamePatch)

/-- The name of the event that a patch selects or adds. -/
def eventName (current : Option Event) : String := patch.event.getD (current.elim "" Event.name)

def touchesEvent : Bool := patch.event.isSome || patch.site.isSome

/-- The tags of a game whose notes are replaced. -/
def replacedTags (tags : List (String × String)) : List (String × String) :=
  match patch.notes with
  | none => tags
  | some notes =>
    let others := tags.filter fun tag => tag.1 != "_notes"
    if notes = "" then others else others ++ [("_notes", notes)]

/-- The row of a game after a patch. -/
def applied (name : String) (game : StoredGame) : StoredGame where
  white := patch.whiteName.getD game.white
  black := patch.blackName.getD game.black
  event := if patch.touchesEvent && name != "" then some name else game.event
  date := patch.date.or game.date
  result := patch.result.getD game.result
  eco := patch.eco.or game.eco
  moves := game.moves
  provenance :=
    { sourceType := game.provenance.sourceType
      sourceLabel := patch.sourceLabel.or game.provenance.sourceLabel
      reviewStatus := patch.reviewStatus.getD game.provenance.reviewStatus }
  whiteElo := patch.whiteElo.or game.whiteElo
  blackElo := patch.blackElo.or game.blackElo
  extraTags := patch.replacedTags game.extraTags

/-- The players that a patch may add. -/
def players (current : Game) : List Player :=
  patch.whiteName.toList.map (fun name => { current.white with name }) ++
    patch.blackName.toList.map fun name => { current.black with name }

/-- The event that a patch may add. -/
def events (current : Option Event) : List Event :=
  if patch.touchesEvent && patch.eventName current != "" then
    [⟨patch.eventName current, patch.site.or (current.bind Event.site), current.bind Event.date⟩]
  else []

end GamePatch

namespace Tables

variable {moveHash : List UInt16 → UInt64} {t t' : Tables} {id : ℕ} {patch : GamePatch}

private theorem patchNotes_rewritten (patch : GamePatch) :
    Rewritten id (fun game => { game with extraTags := patch.replacedTags game.extraTags }) [] [] t
      (t.patchNotes id patch.notes) := by
  unfold GamePatch.replacedTags patchNotes
  cases patch.notes with
  | none => exact .refl
  | some notes => exact ⟨rfl, rfl, rfl, rfl⟩

theorem patchMetadata_ok (h : t.patchMetadata moveHash id patch = .ok t') :
    ∃ row ∈ t.games, row.id = id ∧ row.stored.provenance.read.sourceType = "manual" ∧
      ∃ current, t.get id = .ok current ∧
        Rewritten id (patch.applied (patch.eventName current.eventDetails))
          (patch.players current) (patch.events current.eventDetails) t t' := by
  obtain ⟨row, hrow, h⟩ := bind_eq_ok.mp h
  obtain ⟨hmem, hid⟩ := findGame_eq_ok hrow
  by_cases hmanual : row.stored.provenance.read.sourceType = "manual"
  · rw [if_neg (not_not.mpr hmanual)] at h
    obtain ⟨current, hcurrent, h⟩ := bind_eq_ok.mp h
    obtain ⟨u, hwhite, h⟩ := bind_eq_ok.mp h
    obtain ⟨v, hblack, h⟩ := bind_eq_ok.mp h
    obtain ⟨w, hevent, h⟩ := bind_eq_ok.mp h
    obtain ⟨x, hscalars, h⟩ := bind_eq_ok.mp h
    obtain rfl := Except.ok.inj h
    refine ⟨row, hmem, hid, hmanual, current, hcurrent, ?_⟩
    have hwhite' : Rewritten id (fun game => { game with
        white := patch.whiteName.getD game.white
        whiteElo := patch.whiteElo.or game.whiteElo }) _ [] t u :=
      (patchPlayer_ok hwhite).congr fun game => by
        cases patch.whiteName <;> cases patch.whiteElo <;> rfl
    have hblack' : Rewritten id (fun game => { game with
        black := patch.blackName.getD game.black
        blackElo := patch.blackElo.or game.blackElo }) _ [] u v :=
      (patchPlayer_ok hblack).congr fun game => by
        cases patch.blackName <;> cases patch.blackElo <;> rfl
    have hevent' : Rewritten id (fun game => { game with
        event := if patch.touchesEvent && patch.eventName current.eventDetails != ""
          then some (patch.eventName current.eventDetails) else game.event })
        [] (patch.events current.eventDetails) v w := by
      have hadded := patchEvent_ok hevent
      unfold GamePatch.events GamePatch.touchesEvent GamePatch.eventName
      dsimp only at hadded
      split at hadded
      next hname =>
        simp only [hname, if_true]
        exact hadded
      next hname =>
        simp only [hname, Bool.false_eq_true, if_false]
        exact hadded
    have hall := (((hwhite'.trans hblack').trans hevent').trans
      (patchScalars_ok hscalars)).trans (patchNotes_rewritten patch)
    simp only [List.append_nil, List.nil_append] at hall
    exact hall
  · rw [if_pos hmanual] at h
    contradiction

section Lookups

@[simp] theorem playerOf_name (name : String) (elo : Option Int32) :
    (t.playerOf name elo).name = name := by
  simp only [playerOf]
  cases hfind : t.players.find? fun player => player.name = name with
  | none => rfl
  | some player => simpa using List.find?_some hfind

@[simp] theorem eventOf_name (name : String) : (t.eventOf name).name = name := by
  simp only [eventOf]
  cases hfind : t.events.find? fun event => event.name = name with
  | none => rfl
  | some event => simpa using List.find?_some hfind

private theorem find?_append_of_mem {α : Type} {key : α → String} {l more : List α} {k : String}
    (h : k ∈ l.map key) :
    ((l ++ more).find? fun r => key r = k) = l.find? fun r => key r = k := by
  obtain ⟨r, hr, hkey⟩ := List.mem_map.mp h
  have hfound : (l.find? fun r => key r = k).isSome := by
    rw [List.find?_isSome]
    exact ⟨r, hr, by simp [hkey]⟩
  rw [List.find?_append, Option.or_of_isSome hfound]

private theorem playerOf_of_mem {players : List Player} {name : String}
    (hplayers : t'.players = insertAll Player.name t.players players)
    (h : name ∈ t.players.map Player.name) (elo : Option Int32) :
    t'.playerOf name elo = t.playerOf name elo := by
  rw [playerOf, playerOf, hplayers, find?_insertAll, find?_append_of_mem h]

private theorem eventOf_of_mem {events : List Event} {name : String}
    (hevents : t'.events = insertAll Event.name t.events events)
    (h : name ∈ t.events.map Event.name) : t'.eventOf name = t.eventOf name := by
  rw [eventOf, eventOf, hevents, find?_insertAll, find?_append_of_mem h]

theorem NamesStored.gameOf_eq (h : t.NamesStored) {players : List Player} {events : List Event}
    (hplayers : t'.players = insertAll Player.name t.players players)
    (hevents : t'.events = insertAll Event.name t.events events) {row : GameRow}
    (hrow : row ∈ t.games) : t'.gameOf row = t.gameOf row := by
  obtain ⟨hwhite, hblack, hevent⟩ := h row hrow
  simp only [gameOf, playerOf_of_mem hplayers hwhite, playerOf_of_mem hplayers hblack]
  cases hname : row.stored.event with
  | none => rfl
  | some name => simp [eventOf_of_mem hevents (hevent name hname)]

end Lookups

section References

private theorem mem_changeGame {change : StoredGame → StoredGame} {row : GameRow}
    (h : row ∈ (t.changeGame id change).games) : ∃ old ∈ t.games, old.id = row.id ∧
      row.stored = if old.id = id then change old.stored else old.stored := by
  obtain ⟨old, hold, rfl⟩ := List.mem_map.mp h
  exact ⟨old, hold, rfl, rfl⟩

private theorem NamesStored.patched {current : Game} (h : t.NamesStored)
    (hpatched : Rewritten id (patch.applied (patch.eventName current.eventDetails))
      (patch.players current) (patch.events current.eventDetails) t t') : t'.NamesStored := by
  intro row hrow
  rw [hpatched.games] at hrow
  obtain ⟨old, hold, -, hstored⟩ := mem_changeGame hrow
  obtain ⟨hwhite, hblack, hevent⟩ := h old hold
  rw [hpatched.players, hpatched.events]
  simp only [mem_map_insertAll]
  by_cases hid : old.id = id
  · rw [hstored, if_pos hid]
    refine ⟨?_, ?_, ?_⟩
    · cases hname : patch.whiteName with
      | none => exact .inl (by simpa [GamePatch.applied, hname] using hwhite)
      | some name => exact .inr (by simp [GamePatch.applied, GamePatch.players, hname])
    · cases hname : patch.blackName with
      | none => exact .inl (by simpa [GamePatch.applied, hname] using hblack)
      | some name => exact .inr (by simp [GamePatch.applied, GamePatch.players, hname])
    · intro event he
      simp only [GamePatch.applied] at he
      split at he
      next hname =>
        obtain rfl := Option.some.inj he
        exact .inr (by simp [GamePatch.events, hname])
      next => exact .inl (hevent event he)
  · rw [hstored, if_neg hid]
    exact ⟨.inl hwhite, .inl hblack, fun event he => .inl (hevent event he)⟩

private theorem NamesStored.subset (h : t.NamesStored) (hplayers : t'.players = t.players)
    (hevents : t'.events = t.events) (hrows : ∀ row ∈ t'.games, ∃ old ∈ t.games,
      row.stored.white = old.stored.white ∧ row.stored.black = old.stored.black ∧
        row.stored.event = old.stored.event) : t'.NamesStored := by
  intro row hrow
  obtain ⟨old, hold, hwhite, hblack, hevent⟩ := hrows row hrow
  rw [hplayers, hevents, hwhite, hblack, hevent]
  exact h old hold

private theorem NamesStored.insertRow {game : Game} (h : t.NamesStored) (collision : ℕ) :
    ((t.findOrInsertNames game).insertRow moveHash collision
      (StoredGame.ofGame game)).1.NamesStored := by
  rcases insertRow_fst collision (StoredGame.ofGame game) with hsame | ⟨extraTags, hadd⟩
  · rw [hsame]
    exact h.findOrInsertNames
  · rw [hadd]
    exact @NamesStored.addRow t { game with extraTags } h collision

private theorem NamesStored.step (h : t.NamesStored) {write : StoreWrite}
    (hstep : write.step moveHash t = some t') : t'.NamesStored := by
  cases write with
  | insert game =>
    obtain rfl := Option.some.inj hstep
    by_cases hholds : t.Holds game
    · rw [insert_of_holds hholds]
      exact h.findOrInsertNames
    · rw [insert_of_not_holds hholds]
      exact h.insertRow _
  | insertRaw game =>
    obtain rfl := Option.some.inj hstep
    exact h.insertRow 0
  | dropIdentityIndex =>
    obtain rfl := Option.some.inj hstep
    exact h
  | deduplicate =>
    simp only [StoreWrite.step, deduplicate_eq] at hstep
    obtain rfl := Option.some.inj hstep
    refine h.subset rfl rfl fun row hrow => ?_
    obtain ⟨old, hold, rfl⟩ := List.mem_map.mp hrow
    exact ⟨old, (List.mem_filter.mp hold).1, rfl, rfl, rfl⟩
  | remove id =>
    simp only [StoreWrite.step, remove] at hstep
    split at hstep
    · obtain rfl := Option.some.inj hstep
      exact h.subset rfl rfl fun row hrow => ⟨row, (List.mem_filter.mp hrow).1, rfl, rfl, rfl⟩
    · contradiction
  | patchMetadata id patch =>
    simp only [StoreWrite.step] at hstep
    cases hpatch : t.patchMetadata moveHash id patch with
    | error e => simp [hpatch, Except.toOption] at hstep
    | ok u =>
      rw [hpatch] at hstep
      obtain rfl := Option.some.inj hstep
      obtain ⟨_, _, _, _, current, _, hrewritten⟩ := patchMetadata_ok hpatch
      exact h.patched hrewritten
  | setManualProvenance id label status =>
    simp only [StoreWrite.step] at hstep
    cases hset : t.setManualProvenance id label status with
    | error e => simp [hset, Except.toOption] at hstep
    | ok u =>
      rw [hset] at hstep
      obtain rfl := Option.some.inj hstep
      obtain ⟨_, _, hu⟩ := bind_eq_ok.mp hset
      obtain rfl := Except.ok.inj hu
      refine h.subset rfl rfl fun row hrow => ?_
      obtain ⟨old, hold, -, hstored⟩ := mem_changeGame hrow
      rw [hstored]
      exact ⟨old, hold, by split <;> rfl, by split <;> rfl, by split <;> rfl⟩

theorem Reachable.namesStored (h : t.Reachable moveHash) : t.NamesStored :=
  System.Reaches.invariant h (fun _ hrow => by contradiction)
    fun _ _ _ hnames _ hstep => hnames.step hstep

end References

end Tables

end MotifChess.Db
