/- GID: MotifChess/Db/Catalogue
   generality: implementation
   digest: What is stored under each game id, and which entry each write of the game table changes. -/

import MotifChess.Db.PatchLaw
import MotifChess.Db.ReplayGame
import MotifChess.System.KeyedLog

set_option autoImplicit false
set_option relaxedAutoImplicit false

namespace MotifChess.Db.Tables

open MotifChess.System

variable {moveHash : List UInt16 → UInt64} {t t' : Tables} {id : ℕ} {game : Game} {row : GameRow}

/-- The game that is stored under an id. -/
def catalogue (t : Tables) (id : ℕ) : Option Game := (t.findGame id).toOption.map t.gameOf

section Entries

theorem catalogue_of_mem (h : row ∈ t.games) : t.catalogue row.id = some (t.gameOf row) := by
  rw [catalogue, findGame_of_mem h]
  rfl

theorem catalogue_eq_some :
    t.catalogue id = some game ↔ ∃ row ∈ t.games, row.id = id ∧ t.gameOf row = game := by
  constructor
  · intro h
    obtain ⟨row, hfound, hgame⟩ := Option.map_eq_some_iff.mp h
    obtain ⟨hrow, hid⟩ := findGame_eq_ok (toOption_eq_some.mp hfound)
    exact ⟨row, hrow, hid, hgame⟩
  · rintro ⟨row, hrow, rfl, rfl⟩
    exact catalogue_of_mem hrow

theorem catalogue_eq_none : t.catalogue id = none ↔ ∀ row ∈ t.games, row.id ≠ id := by
  constructor
  · rintro h row hrow rfl
    rw [catalogue_of_mem hrow] at h
    cases h
  · intro h
    cases hcatalogue : t.catalogue id with
    | none => rfl
    | some found =>
      obtain ⟨row, hrow, hid, -⟩ := catalogue_eq_some.mp hcatalogue
      exact absurd hid (h row hrow)

theorem toOption_get : (t.get id).toOption = (t.catalogue id).map Game.read := by
  rw [get, catalogue]
  cases t.findGame id <;> rfl

theorem catalogue_nextId : t.catalogue t.nextId = none :=
  catalogue_eq_none.mpr fun _ hrow => (id_lt_nextId hrow).ne

/-- A stored game says all that its row says. -/
@[simp] theorem ofGame_gameOf : StoredGame.ofGame (t.gameOf row) = row.stored := by
  have hevent : (row.stored.event.map fun name => t.eventOf name).map Event.name = row.stored.event := by
    cases row.stored.event with
    | none => rfl
    | some name => simp
  simp only [StoredGame.ofGame, gameOf, playerOf_name, hevent]
  rfl

theorem holds_iff_catalogue : t.Holds game ↔ ∃ id other, t.catalogue id = some other ∧
    (StoredGame.ofGame other).identity = (StoredGame.ofGame game).identity := by
  constructor
  · intro h
    obtain ⟨row, hrow, hidentity⟩ := List.mem_map.mp h
    refine ⟨row.id, t.gameOf row, catalogue_of_mem hrow, ?_⟩
    rw [ofGame_gameOf]
    exact hidentity
  · rintro ⟨id, other, hother, hidentity⟩
    obtain ⟨row, hrow, -, rfl⟩ := catalogue_eq_some.mp hother
    rw [ofGame_gameOf] at hidentity
    exact List.mem_map.mpr ⟨row, hrow, hidentity⟩

private theorem stored_catalogue : Logged.stored t.catalogue = ↑(t.games.map GameRow.id).toFinset := by
  ext id
  rw [Logged.mem_stored, Ne, catalogue_eq_none, List.coe_toFinset, Set.mem_ofPred_eq, List.mem_map]
  push Not
  rfl

theorem finite_stored : (Logged.stored t.catalogue).Finite := by
  rw [stored_catalogue]
  exact Finset.finite_toSet _

theorem ncard_stored : (Logged.stored t.catalogue).ncard = t.countGames := by
  have hnodup : (t.games.map GameRow.id).Nodup :=
    List.pairwise_map.mpr (t.ascending.imp fun h => h.ne)
  rw [stored_catalogue, Set.ncard_coe_finset, List.toFinset_card_of_nodup hnodup, List.length_map]
  rfl

end Entries

section Writes

theorem catalogue_insert (hnames : t.NamesStored) (h : t.insert moveHash game = (t', .ok id)) :
    id = t.nextId ∧ ¬t.Holds game ∧ ∃ added, StoredGame.ofGame added = StoredGame.ofGame game ∧
      t'.catalogue = Function.update t.catalogue id (some added) := by
  rcases @insert_cases moveHash t game with ⟨collision, hok⟩ | ⟨-, hduplicate⟩ | ⟨u, herror⟩
  · obtain ⟨rfl, hid⟩ := Prod.mk.inj (h.symm.trans hok)
    obtain rfl := Except.ok.inj hid
    have hnext : (t.findOrInsertNames game).nextId = t.nextId := by
      rw [nextId, nextId, findOrInsertNames_games]
    have hnot : ¬t.Holds game := by
      intro hholds
      rw [insert_of_holds hholds] at h
      cases (Prod.mk.inj h).2
    set t' := (t.findOrInsertNames game).addRow collision (StoredGame.ofGame game) with ht'
    have hgames : t'.games = t.games ++ [⟨t.nextId, collision, StoredGame.ofGame game⟩] := by
      rw [ht', addRow_games, findOrInsertNames_games, hnext]
    refine ⟨hnext, hnot, t'.gameOf ⟨t.nextId, collision, StoredGame.ofGame game⟩, ofGame_gameOf, ?_⟩
    rw [hnext]
    apply funext
    intro other
    by_cases hother : other = t.nextId
    · subst hother
      rw [Function.update_self]
      have hrow : ⟨t.nextId, collision, StoredGame.ofGame game⟩ ∈ t'.games := by
        rw [hgames]
        exact List.mem_append_right _ (List.mem_singleton_self _)
      exact catalogue_of_mem hrow
    · rw [Function.update_of_ne hother]
      cases hold : t.catalogue other with
      | none =>
        rw [catalogue_eq_none] at hold ⊢
        rw [hgames]
        intro row hrow
        rcases List.mem_append.mp hrow with hrow | hrow
        · exact hold row hrow
        · rw [List.mem_singleton.mp hrow]
          exact Ne.symm hother
      | some found =>
        obtain ⟨row, hrow, rfl, rfl⟩ := catalogue_eq_some.mp hold
        have hmem : row ∈ t'.games := by
          rw [hgames]
          exact List.mem_append_left _ hrow
        rw [catalogue_of_mem hmem]
        exact congrArg some (hnames.gameOf_eq (findOrInsertNames_players game t)
          (findOrInsertNames_events game t) hrow)
  · cases (Prod.mk.inj (h.symm.trans hduplicate)).2
  · cases (Prod.mk.inj (h.symm.trans herror)).2

theorem Rewritten.catalogue {change : StoredGame → StoredGame} {players : List Player}
    {events : List Event} (h : Rewritten row.id change players events t t') (hnames : t.NamesStored)
    (hrow : row ∈ t.games) : ∃ rewritten, StoredGame.ofGame rewritten = change row.stored ∧
      t'.catalogue = Function.update t.catalogue row.id (some rewritten) := by
  refine ⟨t'.gameOf ⟨row.id, row.identityCollision, change row.stored⟩, ofGame_gameOf, ?_⟩
  apply funext
  intro other
  by_cases hother : other = row.id
  · subst hother
    have hmem : (⟨row.id, row.identityCollision, change row.stored⟩ : GameRow) ∈ t'.games := by
      rw [h.games]
      exact List.mem_map.mpr ⟨row, hrow, by simp⟩
    rw [Function.update_self, catalogue_of_mem hmem]
  · rw [Function.update_of_ne hother]
    cases hold : t.catalogue other with
    | none =>
      rw [catalogue_eq_none] at hold ⊢
      rw [h.games]
      intro changed hchanged
      obtain ⟨old, hmem, rfl⟩ := List.mem_map.mp hchanged
      exact hold old hmem
    | some found =>
      obtain ⟨old, hmem, rfl, rfl⟩ := catalogue_eq_some.mp hold
      have hkept : old ∈ t'.games := by
        rw [h.games]
        exact List.mem_map.mpr ⟨old, hmem, by simp [hother]⟩
      rw [catalogue_of_mem hkept]
      exact congrArg some (hnames.gameOf_eq h.players h.events hmem)

theorem catalogue_patchMetadata {patch : GamePatch} (hnames : t.NamesStored)
    (h : t.patchMetadata moveHash id patch = .ok t') :
    ∃ old, t.catalogue id = some old ∧ old.read.provenance.sourceType = "manual" ∧
      ∃ patched, StoredGame.ofGame patched =
          patch.applied (patch.eventName old.read.eventDetails) (StoredGame.ofGame old) ∧
        t'.catalogue = Function.update t.catalogue id (some patched) := by
  obtain ⟨row, hrow, rfl, hmanual, current, hcurrent, hrewritten⟩ := patchMetadata_ok h
  obtain rfl := Except.ok.inj ((get_of_mem hrow).symm.trans hcurrent)
  obtain ⟨patched, hstored, hcatalogue⟩ := hrewritten.catalogue hnames hrow
  exact ⟨_, catalogue_of_mem hrow, hmanual, patched, by rw [hstored, ofGame_gameOf], hcatalogue⟩

theorem catalogue_setManualProvenance {label : Option String} {status : String}
    (hnames : t.NamesStored) (h : t.setManualProvenance id label status = .ok t') :
    ∃ old, t.catalogue id = some old ∧ ∃ manual, StoredGame.ofGame manual =
        { StoredGame.ofGame old with provenance := ⟨"manual", label, status⟩ } ∧
      t'.catalogue = Function.update t.catalogue id (some manual) := by
  obtain ⟨row, hfound, hset⟩ := bind_eq_ok.mp h
  obtain rfl := Except.ok.inj hset
  obtain ⟨hrow, rfl⟩ := findGame_eq_ok hfound
  have hrewritten : Rewritten row.id
      (fun game => { game with provenance := ⟨"manual", label, status⟩ }) [] [] t _ :=
    ⟨rfl, rfl, rfl, rfl⟩
  obtain ⟨manual, hstored, hcatalogue⟩ := hrewritten.catalogue hnames hrow
  exact ⟨_, catalogue_of_mem hrow, manual, by rw [hstored, ofGame_gameOf], hcatalogue⟩

theorem catalogue_remove (h : t.remove id = .ok t') :
    t'.catalogue = Function.update t.catalogue id none := by
  unfold remove at h
  split at h
  · obtain rfl := Except.ok.inj h
    apply funext
    intro other
    by_cases hother : other = id
    · subst hother
      rw [Function.update_self, catalogue_eq_none]
      intro row hrow
      simpa using (List.mem_filter.mp hrow).2
    · rw [Function.update_of_ne hother]
      cases hold : t.catalogue other with
      | none =>
        rw [catalogue_eq_none] at hold ⊢
        exact fun row hrow => hold row (List.mem_filter.mp hrow).1
      | some found =>
        obtain ⟨row, hrow, rfl, rfl⟩ := catalogue_eq_some.mp hold
        have hmem : row ∈ (t.keepRows fun row => row.id != id).games :=
          List.mem_filter.mpr ⟨hrow, by simpa using hother⟩
        rw [catalogue_of_mem hmem]
        rfl
  · cases h

end Writes

section Ids

private theorem foldl_max_lt {l : List GameRow} {m n : ℕ} (hm : m < n) (h : ∀ row ∈ l, row.id < n) :
    l.foldl (fun m row => max m row.id) m < n := by
  induction l generalizing m with
  | nil => exact hm
  | cons row l ih =>
    obtain ⟨hrow, hl⟩ := List.forall_mem_cons.mp h
    exact ih (max_lt hm hrow) hl

theorem nextId_le {n : ℕ} (hpositive : 0 < n) (h : ∀ id, t.catalogue id ≠ none → id < n) :
    t.nextId ≤ n := by
  refine foldl_max_lt hpositive fun row hrow => h row.id ?_
  rw [catalogue_of_mem hrow]
  exact Option.some_ne_none _

theorem lt_nextId (h : t.catalogue id ≠ none) : id < t.nextId := by
  rw [Ne, catalogue_eq_none] at h
  push Not at h
  obtain ⟨row, hrow, rfl⟩ := h
  exact id_lt_nextId hrow

end Ids

end MotifChess.Db.Tables
