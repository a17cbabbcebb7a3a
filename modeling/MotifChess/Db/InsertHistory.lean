/- GID: MotifChess/Db/InsertHistory
   generality: implementation
   digest: What a stored game keeps of the insert that created its row, over any run of inserts. -/

import MotifChess.Db.Deduplicate

set_option autoImplicit false
set_option relaxedAutoImplicit false

namespace MotifChess.Db

open MotifChess.Codec MotifChess.Order.FirstWins

/-- How games enter a database: alone, or in a batch of the bulk import, which ingests rows
unchecked while the identity index is dropped and reconciles them later. -/
inductive Write
  | insert (game : Game)
  | batch (raw : Bool) (games : List Game)
  | dropIdentityIndex
  | deduplicate

/-- A database and the history of its inserts: the game that last created each row id, and the
events of all inserts in their order. -/
structure History where
  tables : Tables
  creator : ℕ → Option Game
  named : List Event

namespace History

variable (moveHash : List UInt16 → UInt64)

def empty : History := ⟨.empty, fun _ => none, []⟩

/-- The history after an insert of a game into a new row. -/
def record (s : History) (t : Tables) (id : ℕ) (game : Game) : History where
  tables := t
  creator other := if other = id then some game else s.creator other
  named := s.named ++ game.eventDetails.toList

/-- The inserts of one transaction: a duplicate is skipped, another error undoes the batch. -/
def insertBatch (raw : Bool) (s : History) : List Game → Option History
  | [] => some s
  | game :: games =>
    match if raw then s.tables.insertRaw moveHash game else s.tables.insert moveHash game with
    | (t, .ok id) => insertBatch raw (s.record t id game) games
    | (t, .error .duplicate) => insertBatch raw { s with tables := t } games
    | (_, .error _) => none

def write (s : History) : Write → History
  | .insert game =>
    match s.tables.alone (Tables.insert moveHash game) with
    | (t, .ok id) => s.record t id game
    | (_, .error _) => s
  | .batch raw games => (s.insertBatch moveHash raw games).getD s
  | .dropIdentityIndex => { s with tables := s.tables.dropIdentityIndex }
  | .deduplicate =>
    match s.tables.deduplicate moveHash with
    | .ok (t, _) => { s with tables := t }
    | .error _ => s

def run (writes : List Write) : History := writes.foldl (write moveHash) empty

/-- The event of an insert as the database keeps it: the first one that was inserted under its
name. -/
def firstNamed (s : History) (event : Event) : Option Event :=
  s.named.find? fun first => first.name = event.name

variable {moveHash} {s : History} {t : Tables} {game : Game}

/-- What every run of inserts keeps: rows show the games that created them, and the event rows
are the first ones of their names. -/
structure Faithful (s : History) : Prop where
  namesStored : s.tables.NamesStored
  events : s.tables.events = firsts Event.name s.named
  rows : ∀ row ∈ s.tables.games, ∃ game, s.creator row.id = some game ∧
    row.stored = StoredGame.ofGame game
  named : ∀ id game, s.creator id = some game → ∀ event ∈ game.eventDetails, event ∈ s.named

private theorem faithful_empty : empty.Faithful where
  namesStored row hrow := by contradiction
  events := rfl
  rows row hrow := by contradiction
  named id game h := by contradiction

private theorem Faithful.record (h : s.Faithful) (collision : ℕ) :
    (s.record ((s.tables.findOrInsertNames game).addRow collision (StoredGame.ofGame game))
      (s.tables.findOrInsertNames game).nextId game).Faithful where
  namesStored := h.namesStored.addRow collision
  events := by
    change (s.tables.findOrInsertNames game).events = firsts Event.name (s.named ++ _)
    rw [Tables.findOrInsertNames_events, h.events, firsts_append]
  rows := by
    intro row hrow
    change row ∈ (s.tables.findOrInsertNames game).games ++ [_] at hrow
    rcases List.mem_append.mp hrow with hmem | hmem
    · have hne := (Tables.id_lt_nextId hmem).ne
      rw [Tables.findOrInsertNames_games] at hmem
      obtain ⟨created, hcreator, hstored⟩ := h.rows row hmem
      exact ⟨created, (if_neg hne).trans hcreator, hstored⟩
    · obtain rfl := List.mem_singleton.mp hmem
      exact ⟨game, if_pos rfl, rfl⟩
  named := by
    intro id created hcreator event hevent
    change event ∈ s.named ++ game.eventDetails.toList
    simp only [History.record] at hcreator
    split at hcreator
    · obtain rfl := Option.some.inj hcreator
      exact List.mem_append_right _ (Option.mem_toList.mpr hevent)
    · exact List.mem_append_left _ (h.named id created hcreator event hevent)

private theorem Faithful.congr (h : s.Faithful) (hplayers : t.players = s.tables.players)
    (hevents : t.events = s.tables.events)
    (hrows : ∀ row ∈ t.games, ∃ row' ∈ s.tables.games, row'.id = row.id ∧ row'.stored = row.stored) :
    ({ s with tables := t } : History).Faithful where
  namesStored := by
    intro row hrow
    obtain ⟨row', hrow', -, hstored⟩ := hrows row hrow
    rw [← hstored, hplayers, hevents]
    exact h.namesStored row' hrow'
  events := hevents.trans h.events
  rows := by
    intro row hrow
    obtain ⟨row', hrow', hid, hstored⟩ := hrows row hrow
    rw [← hid, ← hstored]
    exact h.rows row' hrow'
  named := h.named

private theorem Faithful.duplicate (h : s.Faithful) (hholds : s.tables.Holds game) :
    ({ s with tables := s.tables.findOrInsertNames game } : History).Faithful := by
  have hknows := h.namesStored.knows hholds
  refine h.congr ?_ ?_ ?_
  · rw [Tables.findOrInsertNames_players]
    exact insertAll_of_forall_mem hknows.players
  · rw [Tables.findOrInsertNames_events]
    exact insertAll_of_forall_mem hknows.event
  · rw [Tables.findOrInsertNames_games]
    exact fun row hrow => ⟨row, hrow, rfl, rfl⟩

private theorem Faithful.insertBatch {s' : History} {raw : Bool} {games : List Game}
    (h : s.Faithful) (hbatch : s.insertBatch moveHash raw games = some s') : s'.Faithful := by
  induction games generalizing s with
  | nil => exact Option.some.inj hbatch ▸ h
  | cons game games ih =>
    rw [History.insertBatch] at hbatch
    cases raw with
    | true =>
      rcases @Tables.insertRaw_cases moveHash s.tables game with hok | ⟨t', herror⟩
      · simp only [if_true, hok] at hbatch
        exact ih (h.record 0) hbatch
      · simp [herror] at hbatch
    | false =>
      rcases @Tables.insert_cases moveHash s.tables game with ⟨collision, hok⟩ | ⟨hholds, hdup⟩ | ⟨t', herror⟩
      · simp only [Bool.false_eq_true, if_false, hok] at hbatch
        exact ih (h.record collision) hbatch
      · simp only [Bool.false_eq_true, if_false, hdup] at hbatch
        exact ih (h.duplicate hholds) hbatch
      · simp [herror] at hbatch

private theorem Faithful.write (h : s.Faithful) (w : Write) : (s.write moveHash w).Faithful := by
  cases w with
  | insert game =>
    rcases @Tables.insert_cases moveHash s.tables game with ⟨collision, hok⟩ | ⟨_, hdup⟩ | ⟨t', herror⟩
    · simp only [History.write, Tables.alone, hok]
      exact h.record collision
    · simp only [History.write, Tables.alone, hdup]
      exact h
    · simp only [History.write, Tables.alone, herror]
      exact h
  | batch raw games =>
    cases hbatch : s.insertBatch moveHash raw games with
    | none => simpa only [History.write, hbatch, Option.getD_none] using h
    | some s' => simpa only [History.write, hbatch, Option.getD_some] using h.insertBatch hbatch
  | dropIdentityIndex => exact h.congr rfl rfl fun row hrow => ⟨row, hrow, rfl, rfl⟩
  | deduplicate =>
    simp only [History.write, Tables.deduplicate_eq]
    refine h.congr (t := { s.tables.reconcile moveHash with identityIndex := true }) rfl rfl ?_
    intro row hrow
    obtain ⟨row', hrow', rfl⟩ := List.mem_map.mp hrow
    exact ⟨row', (List.mem_filter.mp hrow').1, rfl, rfl⟩

private theorem faithful_run (writes : List Write) : (run moveHash writes).Faithful := by
  induction writes using List.reverseRecOn with
  | nil => exact faithful_empty
  | append_singleton writes w ih =>
    rw [run, List.foldl_concat]
    exact ih.write w

private theorem Faithful.eventOf (h : s.Faithful) {event : Event} (hevent : event ∈ s.named) :
    s.firstNamed event = some (s.tables.eventOf event.name) := by
  have hfound : (s.named.find? fun first => first.name = event.name).isSome := by
    rw [List.find?_isSome]
    exact ⟨event, hevent, by simp⟩
  obtain ⟨first, hfirst⟩ := Option.isSome_iff_exists.mp hfound
  rw [firstNamed, Tables.eventOf, h.events, find?_firsts, hfirst]
  rfl

/-- Over every run of inserts, a stored game reads the name of the event it was inserted with, and
the site and date of the first event inserted under that name, each up to its first NUL. -/
theorem get_event_of_run (writes : List Write) {id : ℕ} {g : Game}
    (h : (run moveHash writes).tables.get id = .ok g) :
    ∃ game, (run moveHash writes).creator id = some game ∧
      g.eventDetails.map Event.name = game.eventDetails.map (fun event => cString event.name) ∧
      g.eventDetails = (game.eventDetails.bind (run moveHash writes).firstNamed).map Event.read := by
  have hrun := @faithful_run moveHash writes
  obtain ⟨row, hrow, rfl, rfl⟩ := Tables.get_eq_ok h
  obtain ⟨game, hcreator, hstored⟩ := hrun.rows row hrow
  have hnamed := hrun.named row.id game hcreator
  refine ⟨game, hcreator, ?_⟩
  have hread : ((run moveHash writes).tables.gameOf row).read.eventDetails =
      (game.eventDetails.map fun event =>
        (run moveHash writes).tables.eventOf event.name).map Event.read := by
    rw [Game.read, Tables.gameOf, hstored, StoredGame.ofGame, Option.map_map]
    rfl
  rw [hread]
  cases hevent : game.eventDetails with
  | none => exact ⟨rfl, rfl⟩
  | some event =>
    have hfirst := hrun.eventOf (hnamed event hevent)
    have hname : ((run moveHash writes).tables.eventOf event.name).name = event.name := by
      simpa using List.find?_some hfirst
    constructor
    · rw [Option.map_some, Option.map_some, Option.map_some, Option.map_some, Event.read, hname]
    · rw [Option.bind_some, hfirst, Option.map_some]

private def cupGame (white : String) (site : String) : Game where
  white := ⟨white, none, none, none⟩
  black := ⟨"Black", none, none, none⟩
  eventDetails := some ⟨"Cup", some site, some "2024"⟩
  date := none
  result := "1-0"
  eco := none
  moves := [1, 2]

/-- The second game of an event at another site reads the site of the first one. -/
theorem get_event_site_lost :
    let s := run (fun _ => 0) [.insert (cupGame "A" "Oslo"), .insert (cupGame "B" "Bergen")]
    ∃ g, s.creator 2 = some (cupGame "B" "Bergen") ∧ s.tables.get 2 = .ok g ∧
      g.eventDetails = some ⟨"Cup", some "Oslo", some "2024"⟩ ∧
      g.eventDetails ≠ (cupGame "B" "Bergen").eventDetails :=
  ⟨{ cupGame "B" "Bergen" with eventDetails := some ⟨"Cup", some "Oslo", some "2024"⟩ },
    by decide +kernel, by decide +kernel, rfl, by decide +kernel⟩

theorem get_event_of_run_sample :
    let s := run (fun _ => 0) [.insert (cupGame "A" "Oslo"),
      .batch false [cupGame "B" "Bergen", cupGame "A" "Oslo"]]
    ∃ game, s.creator 2 = some game ∧
      some "Cup" = game.eventDetails.map (fun event => cString event.name) ∧
      some ⟨"Cup", some "Oslo", some "2024"⟩ =
        (game.eventDetails.bind s.firstNamed).map Event.read := by
  intro s
  have hget : s.tables.get 2 = .ok { cupGame "B" "Bergen" with
      eventDetails := some ⟨"Cup", some "Oslo", some "2024"⟩ } := by decide +kernel
  exact get_event_of_run _ hget

end History

end MotifChess.Db
