/- GID: MotifChess/Db/Store/Refinement
   generality: implementation
   digest: When rows with ids say what tables by names say, and what is read from both. -/

import MotifChess.Db.Store.Totality

set_option autoImplicit false
set_option relaxedAutoImplicit false

namespace MotifChess.Db.Store

variable {moveHash : List UInt16 → UInt64} {rows rows' : Rows} {t : Tables} {row row' : GameRow}
  {kind : NameKind} {id : ℕ}

namespace Rows

/-- The players and the event of a game row are there. -/
structure Refers (row : GameRow) (rows : Rows) : Prop where
  white : row.whiteId ∈ rows.ids .player
  black : row.blackId ∈ rows.ids .player
  event : ∀ id ∈ row.eventId, id ∈ rows.ids .event

/-- A game row under the names of its players and its event, with its tags. -/
def shown (row : GameRow) (rows : Rows) : Db.GameRow where
  id := row.id
  identityCollision := row.identityCollision
  stored :=
    { white := (rows.nameIn .player row.whiteId).getD ""
      black := (rows.nameIn .player row.blackId).getD ""
      event := row.eventId.bind fun id => rows.nameIn .event id
      date := row.date
      result := row.result
      eco := row.eco
      moves := row.moves
      provenance := row.provenance
      whiteElo := row.whiteElo
      blackElo := row.blackElo
      extraTags := rows.extraTagsOf row.id }

/-- Tables under names that say what the rows under ids say. -/
structure Refines (rows : Rows) (t : Tables) : Prop where
  players : t.players = (rows.named .player).map Prod.snd
  events : t.events = (rows.named .event).map Prod.snd
  games : t.games = rows.games.map fun row => rows.shown row
  identityIndex : t.identityIndex = rows.identityIndex

end Rows

section Showing

variable (h : rows.Consistent moveHash)

include h

theorem Rows.Consistent.refers (hrow : row ∈ rows.games) : rows.Refers row :=
  ⟨(h.players row hrow).1, (h.players row hrow).2, h.events row hrow⟩

/-- Two ids that have rows have the same name only when they are the same. -/
theorem Rows.Consistent.nameIn_inj {other : ℕ} (hid : id ∈ rows.ids kind)
    (hname : rows.nameIn kind id = rows.nameIn kind other) : id = other := by
  obtain ⟨name, hfound⟩ := h.nameIn_isSome hid
  have hsame := h.idOf_of_nameIn hfound
  rw [hname] at hfound
  exact Option.some.inj (hsame.symm.trans (h.idOf_of_nameIn hfound))

private theorem getD_nameIn_inj {other : ℕ} (hid : id ∈ rows.ids kind) (hother : other ∈ rows.ids kind) :
    (rows.nameIn kind id).getD "" = (rows.nameIn kind other).getD "" ↔ id = other := by
  refine ⟨fun hname => h.nameIn_inj hid ?_, fun hsame => by rw [hsame]⟩
  obtain ⟨name, hfound⟩ := h.nameIn_isSome hid
  obtain ⟨name', hfound'⟩ := h.nameIn_isSome hother
  rw [hfound, hfound'] at hname ⊢
  exact congrArg some hname

private theorem bind_nameIn_inj {event event' : Option ℕ} (hevent : ∀ id ∈ event, id ∈ rows.ids .event)
    (hevent' : ∀ id ∈ event', id ∈ rows.ids .event) :
    (event.bind fun id => rows.nameIn .event id) = (event'.bind fun id => rows.nameIn .event id) ↔
      event = event' := by
  refine ⟨fun hname => ?_, fun hsame => by rw [hsame]⟩
  cases event with
  | none =>
    cases event' with
    | none => rfl
    | some other =>
      obtain ⟨name, hfound⟩ := h.nameIn_isSome (hevent' other rfl)
      rw [Option.bind_none, Option.bind_some, hfound] at hname
      cases hname
  | some id =>
    cases event' with
    | none =>
      obtain ⟨name, hfound⟩ := h.nameIn_isSome (hevent id rfl)
      rw [Option.bind_none, Option.bind_some, hfound] at hname
      cases hname
    | some other => exact congrArg some (h.nameIn_inj (hevent id rfl) hname)

/-- Names tell the slots of the unique index apart as ids do. -/
theorem Rows.Consistent.identityFields_eq_iff (hrow : rows.Refers row) (hrow' : rows.Refers row') :
    (rows.shown row).stored.identityFields = (rows.shown row').stored.identityFields ↔
      (row.whiteId, row.blackId, row.eventId, row.date.getD "", row.result) =
        (row'.whiteId, row'.blackId, row'.eventId, row'.date.getD "", row'.result) := by
  simp only [Rows.shown, StoredGame.identityFields, IdentityFields.mk.injEq, Prod.mk.injEq,
    getD_nameIn_inj h hrow.white hrow'.white, getD_nameIn_inj h hrow.black hrow'.black,
    bind_nameIn_inj h hrow.event hrow'.event]

theorem Rows.Consistent.sameSlot_shown (hrow : rows.Refers row) (hrow' : rows.Refers row') :
    Db.GameRow.sameSlot moveHash (rows.shown row).stored (rows.shown row').stored =
      decide (row.slot moveHash = row'.slot moveHash) := by
  rw [Db.GameRow.sameSlot, Bool.eq_iff_iff, Bool.and_eq_true, decide_eq_true_iff, decide_eq_true_iff,
    decide_eq_true_iff, h.identityFields_eq_iff hrow hrow']
  simp only [Prod.mk.injEq, GameRow.slot, Slot.mk.injEq, Rows.shown, and_assoc]

theorem Rows.Consistent.sameGame_iff (hrow : rows.Refers row) (hrow' : rows.Refers row') :
    (rows.shown row).identity = (rows.shown row').identity ↔ sameGame moveHash row row' = true := by
  rw [Db.GameRow.identity, Db.GameRow.identity, StoredGame.identity, StoredGame.identity,
    Prod.mk.injEq, h.identityFields_eq_iff hrow hrow', sameGame, Bool.and_eq_true, decide_eq_true_iff,
    decide_eq_true_iff]
  simp only [Prod.mk.injEq, GameRow.slot, Slot.mk.injEq, Rows.shown]
  constructor
  · rintro ⟨⟨hwhite, hblack, hevent, hdate, hresult⟩, hmoves⟩
    exact ⟨⟨hwhite, hblack, hevent, hdate, hresult, by rw [hmoves]⟩, hmoves⟩
  · rintro ⟨⟨hwhite, hblack, hevent, hdate, hresult, -⟩, hmoves⟩
    exact ⟨⟨hwhite, hblack, hevent, hdate, hresult⟩, hmoves⟩

theorem Rows.Consistent.indexKey_eq_iff (hrow : rows.Refers row) (hrow' : rows.Refers row') :
    (rows.shown row).indexKey moveHash = (rows.shown row').indexKey moveHash ↔
      (row.slot moveHash, row.identityCollision) = (row'.slot moveHash, row'.identityCollision) := by
  rw [Db.GameRow.indexKey, Db.GameRow.indexKey, Prod.mk.injEq, Prod.mk.injEq, Prod.mk.injEq,
    h.identityFields_eq_iff hrow hrow']
  simp only [Prod.mk.injEq, GameRow.slot, Slot.mk.injEq, Rows.shown, and_assoc]

/-- New names, and tags of other games, leave a game as it is shown. -/
theorem Rows.Consistent.shown_grows (hgrows : rows.Grows rows') (hrow : rows.Refers row)
    (htags : rows'.extraTagsOf row.id = rows.extraTagsOf row.id) : rows'.shown row = rows.shown row := by
  have hname : ∀ {kind : NameKind} {id : ℕ}, id ∈ rows.ids kind →
      rows'.nameIn kind id = rows.nameIn kind id := by
    intro kind id hid
    obtain ⟨name, hfound⟩ := h.nameIn_isSome hid
    rw [hgrows.nameIn hfound, hfound]
  have hevent : (row.eventId.bind fun id => rows'.nameIn .event id) =
      row.eventId.bind fun id => rows.nameIn .event id := by
    cases hid : row.eventId with
    | none => rfl
    | some id => exact hname (hrow.event id hid)
  rw [Rows.shown, Rows.shown, hname hrow.white, hname hrow.black, hevent, htags]

end Showing

section Reading

theorem Rows.Refines.nextId (h : rows.Refines t) : t.nextId = rows.nextGameId := by
  rw [Tables.nextId, h.games, List.foldl_map, Rows.nextGameId, Rows.nextRowId, List.foldl_map]
  rfl

theorem Rows.Refines.mem_ids (h : rows.Refines t) :
    (t.games.any fun row => row.id = id) = rows.games.any fun row => row.id = id := by
  rw [h.games, List.any_map]
  rfl

private theorem find?_map_snd {α : Type} {l : List (ℕ × α)} {name : α → String} {a : α}
    (hnames : (l.map fun row => name row.2).Nodup) (ha : (id, a) ∈ l) :
    ((l.map Prod.snd).find? fun other => name other = name a) = some a := by
  rw [List.find?_map]
  have hfound := find?_of_nodup_keys hnames ha
  rw [show ((fun other => decide (name other = name a)) ∘ Prod.snd) =
    fun row : ℕ × α => decide (name row.2 = name a) from rfl, hfound]
  rfl

theorem Rows.Refines.findGame_eq (h : rows.Refines t) :
    t.findGame id = match rows.findGame id with
      | none => .error .notFound
      | some row => .ok (rows.shown row) := by
  rw [Tables.findGame, h.games, List.find?_map, Rows.findGame]
  rw [show ((fun row : Db.GameRow => decide (row.id = id)) ∘ fun row => rows.shown row) =
    fun row : GameRow => decide (row.id = id) from rfl]
  cases rows.games.find? fun row => row.id = id <;> rfl

private theorem playerOf_eq (h : rows.Refines t) (hrows : rows.Consistent moveHash) {player : Player}
    (hplayer : rows.rowOf .player id = some player) (elo : Option Int32) :
    t.playerOf ((rows.nameIn .player id).getD "") elo = { player with elo } := by
  obtain ⟨⟨id', found⟩, hfound, rfl⟩ := Option.map_eq_some_iff.mp hplayer
  rw [Rows.nameIn, hplayer, Option.map_some, Option.getD_some, Tables.playerOf, h.players]
  have hsame := find?_map_snd (hrows.names .player) (List.mem_of_find?_eq_some hfound)
  change (((rows.named .player).map Prod.snd).find? fun other : Player =>
    other.name = (found : Player).name) = some found at hsame
  rw [show (NameKind.player.nameOf found) = (found : Player).name from rfl, hsame]
  rfl

private theorem eventOf_eq (h : rows.Refines t) (hrows : rows.Consistent moveHash) {event : Event}
    (hevent : rows.rowOf .event id = some event) :
    ((rows.nameIn .event id).map fun name => t.eventOf name) = rows.rowOf .event id := by
  obtain ⟨⟨id', found⟩, hfound, rfl⟩ := Option.map_eq_some_iff.mp hevent
  rw [Rows.nameIn, hevent, Option.map_some, Option.map_some, Tables.eventOf, h.events]
  have hsame := find?_map_snd (hrows.names .event) (List.mem_of_find?_eq_some hfound)
  change (((rows.named .event).map Prod.snd).find? fun other : Event =>
    other.name = (found : Event).name) = some found at hsame
  rw [show (NameKind.event.nameOf found) = (found : Event).name from rfl, hsame]
  rfl

/-- A game is read from the rows as it is read from the tables. -/
theorem Rows.Refines.get_eq (h : rows.Refines t) (hrows : rows.Consistent moveHash) :
    rows.get id = t.get id := by
  rw [Rows.get, Rows.gameAt, Tables.get, h.findGame_eq]
  cases hfound : rows.findGame id with
  | none => rfl
  | some row =>
    have hrow := List.mem_of_find?_eq_some hfound
    obtain rfl : row.id = id := by simpa using List.find?_some hfound
    obtain ⟨white, hwhite⟩ := hrows.exists_rowOf (hrows.players row hrow).1
    obtain ⟨black, hblack⟩ := hrows.exists_rowOf (hrows.players row hrow).2
    have hevent : ((row.eventId.bind fun id => rows.nameIn .event id).map fun name =>
        t.eventOf name) = row.eventId.bind fun id => rows.rowOf .event id := by
      cases hid : row.eventId with
      | none => rfl
      | some id =>
        obtain ⟨event, hevent⟩ := hrows.exists_rowOf (hrows.events row hrow id hid)
        exact eventOf_eq h hrows hevent
    dsimp only
    rw [hwhite, hblack]
    change Except.ok _ = Except.ok _
    refine congrArg Except.ok (congrArg Game.read ?_)
    rw [Tables.gameOf]
    simp only [Rows.shown]
    rw [playerOf_eq h hrows hwhite, playerOf_eq h hrows hblack, hevent]

end Reading

end MotifChess.Db.Store
