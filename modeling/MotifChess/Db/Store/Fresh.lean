/- GID: MotifChess/Db/Store/Fresh
   generality: implementation
   digest: The first insert into an empty database, and what is true of every game that is stored. -/

import MotifChess.Db.Store.Calls

set_option autoImplicit false
set_option relaxedAutoImplicit false

namespace MotifChess.Db.Store

open MotifChess.System Stateful

variable {moveHash : List UInt16 → UInt64} {rows : Rows}

theorem Rows.get_eq_ok {id : ℕ} {game : Game} :
    rows.get id = .ok game ↔ ∃ stored, rows.gameAt id = .ok stored ∧ stored.read = game := by
  unfold Rows.get
  cases rows.gameAt id with
  | error e => simp [Except.map]
  | ok stored => simp [Except.map]

section Tagged

/-- Tags of these names stand at the game, and their ids are remembered. -/
def Tagged (gameId : ℕ) (names : List String) (s : CallState moveHash) : Prop :=
  ∀ name ∈ names, ∃ tagId, s.caches.find .tag name = some tagId ∧
    (gameId, tagId) ∈ s.db.gameTags.map fun tag => (tag.gameId, tag.tagId)

variable {gameId : ℕ} {names : List String}

theorem Tagged.emplace {s t : CallState moveHash} (h : Tagged gameId names s) {name : String} {id : ℕ}
    (hnone : s.caches.find .tag name = none) (htags : t.db.gameTags = s.db.gameTags)
    (hcaches : t.caches = s.caches.emplace .tag name id) :
    Tagged gameId names t ∧ t.caches.find .tag name = some id := by
  refine ⟨fun other hother => ?_, ?_⟩
  · obtain ⟨tagId, hfind, hmem⟩ := h other hother
    refine ⟨tagId, ?_, htags ▸ hmem⟩
    rw [hcaches, IdCaches.find_emplace, if_neg, hfind]
    rintro rfl
    rw [hnone] at hfind
    cases hfind
  · rw [hcaches, IdCaches.find_emplace, if_pos rfl]

private theorem findOrInsertTag_tagged (name : String) : Ensures
    (fun s : CallState moveHash => Tagged gameId names s) (findOrInsertTag name)
    (fun id t => Tagged gameId names t ∧ t.caches.find .tag name = some id) fun _ => True := by
  refine Ensures.read_bind fun cached => ?_
  cases cached with
  | some id => exact Ensures.pure fun s hs => hs
  | none =>
    refine Ensures.read_bind fun found => ?_
    cases found with
    | some id =>
      refine Ensures.bind (Ensures.modify fun s hs => ?_) fun _ => Ensures.pure fun s hs => hs
      exact hs.1.1.emplace hs.1.2 rfl rfl
    | none =>
      refine Ensures.read_bind fun id => exec_bind (fun _ _ _ _ => trivial) ?_
      refine Ensures.bind (Ensures.modify fun t ht => ?_) fun _ => Ensures.pure fun s hs => hs
      obtain ⟨s, ⟨⟨⟨hs, hnone⟩, -⟩, -⟩, hrows, hcaches⟩ := ht
      refine hs.emplace hnone ?_ ?_
      · have htags := congrArg Rows.gameTags (Except.ok.inj hrows)
        exact htags.symm
      · exact congrArg (IdCaches.emplace .tag name id) hcaches

private theorem insertGameTags_nodup (names : List String) (tags : List (String × String)) : Ensures
    (fun s : CallState moveHash => Tagged gameId names s) (insertGameTags gameId tags)
    (fun _ _ => (tags.map Prod.fst).Nodup ∧ ∀ tag ∈ tags, tag.1 ∉ names) fun _ => True := by
  induction tags generalizing names with
  | nil => exact Ensures.pure fun _ _ => ⟨List.nodup_nil, by simp⟩
  | cons tag tags ih =>
    obtain ⟨name, value⟩ := tag
    refine (findOrInsertTag_tagged name).bind fun tagId => ?_
    refine exec_bind (fun _ _ _ _ => trivial) ?_
    refine Ensures.mono (Ensures.of_forall (E := fun _ => True) fun t ht => ?_) (fun _ h => h)
      (fun _ _ h => h) fun _ h => h
    obtain ⟨s, ⟨hs, hfind⟩, hrows, hcaches⟩ := ht
    have htags := congrArg Rows.gameTags (Except.ok.inj hrows)
    have hkeys := t.db.consistent.tagKeys
    rw [← show s.db.gameTags ++ [⟨gameId, tagId, value⟩] = t.db.gameTags from htags,
      List.map_append, List.nodup_append] at hkeys
    have hnew : name ∉ names := by
      intro hname
      obtain ⟨tagId', hfind', hmem⟩ := hs name hname
      rw [hfind] at hfind'
      obtain rfl := Option.some.inj hfind'
      exact hkeys.2.2 _ hmem _ (List.mem_singleton_self _) rfl
    have hnext : Tagged gameId (name :: names) t := by
      intro other hother
      rw [hcaches, ← show s.db.gameTags ++ [⟨gameId, tagId, value⟩] = t.db.gameTags from htags,
        List.map_append]
      rcases List.mem_cons.mp hother with rfl | hother
      · exact ⟨tagId, hfind, List.mem_append_right _ (List.mem_singleton_self _)⟩
      · obtain ⟨tagId', hfind', hmem⟩ := hs other hother
        exact ⟨tagId', hfind', List.mem_append_left _ hmem⟩
    refine (ih (name :: names)).mono ?_ (fun _ _ h => ?_) fun _ h => h
    · rintro _ rfl
      exact hnext
    · refine ⟨List.nodup_cons.mpr ⟨fun hmem => ?_, h.1⟩, ?_⟩
      · obtain ⟨other, hother, rfl⟩ := List.mem_map.mp hmem
        exact h.2 other hother List.mem_cons_self
      · rintro other hother
        rcases List.mem_cons.mp hother with rfl | hother
        · exact hnew
        · exact fun hmem => h.2 other hother (List.mem_cons_of_mem _ hmem)

private theorem insertBody_nodup (raw : Bool) (game : Game) : Ensures (fun _ : CallState moveHash => True)
    (insertBody raw game) (fun _ _ => (game.extraTags.map Prod.fst).Nodup) fun _ => True := by
  refine Ensures.bind (Q := fun _ _ => True) ?_ fun id => Ensures.bind
    ((insertGameTags_nodup [] game.extraTags).mono (fun s _ => ?_) (fun _ _ h => h.1)
      fun _ h => h) fun _ => Ensures.pure fun _ h => h
  · intro s _
    split <;> trivial
  · exact fun _ h => absurd h List.not_mem_nil

theorem nodup_of_inserted {joined raw : Bool} {game : Game} {start s : CallState moveHash} {id : ℕ}
    (h : guarded joined (insertBody raw game) start = (.ok id, s)) :
    (game.extraTags.map Prod.fst).Nodup := by
  obtain ⟨_, _, -, -, hbody, -, -⟩ := guarded_eq_ok h
  exact (insertBody_nodup raw game).of_ok trivial hbody

end Tagged


section First

variable {kind : NameKind} {row : kind.Row} {P : CallState moveHash → Prop} {game : Game}

/-- An empty database, about which nothing is remembered, and whose statements work. -/
def CallState.fresh : CallState moveHash := ⟨.empty moveHash, .empty, []⟩

private theorem findOrInsert_first : Ensures
    (fun s => P s ∧ s.Works ∧ s.caches.find kind (kind.nameOf row) = none ∧
      s.db.idOf kind (kind.nameOf row) = none)
    (findOrInsert kind row)
    (fun id (t : CallState moveHash) => t.Works ∧ t.db.rowOf kind id = some row ∧
      ∃ s, P s ∧ t.db.toRows = s.db.insertNamed kind row ∧
        t.caches = s.caches.emplace kind (kind.nameOf row) id)
    (fun _ => False) := by
  refine Ensures.read_bind fun cached => ?_
  cases cached with
  | some id =>
    rintro s ⟨⟨-, -, hnone, -⟩, hsome⟩
    rw [hnone] at hsome
    cases hsome
  | none =>
    refine Ensures.read_bind fun found => ?_
    cases found with
    | some id =>
      rintro s ⟨⟨⟨-, -, -, hnone⟩, -⟩, hsome⟩
      rw [hnone] at hsome
      cases hsome
    | none =>
      refine Ensures.read_bind fun id => ?_
      refine Ensures.bind (Q := fun _ t => t.Works ∧ t.db.rowOf kind id = some row ∧
        ∃ s, P s ∧ t.db.toRows = s.db.insertNamed kind row ∧ t.caches = s.caches)
        (exec_total ?_) fun _ => Ensures.bind (Ensures.modify ?_) fun _ => Ensures.pure fun _ h => h
      · rintro s ⟨⟨⟨⟨hs, hworks, -, -⟩, -⟩, hnone⟩, rfl⟩
        refine ⟨hworks, _, rfl, s.db.consistent.insertNamed hnone, fun t hrows hcaches hworks' =>
          ⟨hworks', ?_, s, hs, hrows, hcaches⟩⟩
        exact insertNamed_rowOf hrows
      · rintro t ⟨hworks, hrow, s, hs, hrows, hcaches⟩
        exact ⟨hworks, hrow, s, hs, hrows, by rw [hcaches]⟩

private theorem findOrInsert_remembered (id : ℕ) : Ensures
    (fun s => P s ∧ s.caches.find kind (kind.nameOf row) = some id) (findOrInsert kind row)
    (fun id' (t : CallState moveHash) => P t ∧ id' = id) (fun _ => False) := by
  refine Ensures.read_bind fun cached => ?_
  cases cached with
  | some id' =>
    refine Ensures.pure ?_
    rintro s ⟨⟨hs, hid⟩, hid'⟩
    exact ⟨hs, Option.some.inj (hid'.symm.trans hid)⟩
  | none =>
    rintro s ⟨⟨-, hsome⟩, hnone⟩
    rw [hnone] at hsome
    cases hsome

/-- The player row that Black gets: White's when they have one name. -/
def blackRow (game : Game) : Player :=
  if game.black.name = game.white.name then game.white else game.black

/-- The players of a game are there, and nothing else is. -/
structure FirstPlayers (game : Game) (whiteId blackId : ℕ) (s : CallState moveHash) : Prop where
  works : s.Works
  white : s.db.rowOf .player whiteId = some game.white
  black : s.db.rowOf .player blackId = some (blackRow game)
  noEvents : s.db.named .event = []
  noCached : s.caches .event = []
  noGames : s.db.games = []

/-- The only player is White of the game. -/
structure FirstPlayer (game : Game) (whiteId : ℕ) (s : CallState moveHash) : Prop where
  works : s.Works
  white : s.db.rowOf .player whiteId = some game.white
  rows : s.db.toRows = Rows.empty.insertNamed .player game.white
  caches : s.caches = IdCaches.empty.emplace .player game.white.name whiteId

private theorem findOrInsert_white : Ensures (fun s : CallState moveHash => s = .fresh)
    (findOrInsertPlayer game.white) (FirstPlayer game) (fun _ => False) := by
  refine (findOrInsert_first (P := fun s => s = .fresh)).mono ?_ ?_ fun _ h => h
  · rintro s rfl
    exact ⟨rfl, rfl, rfl, rfl⟩
  · rintro id t ⟨hworks, hrow, s, rfl, hrows, hcaches⟩
    exact ⟨hworks, hrow, hrows, hcaches⟩

private theorem findOrInsert_black (whiteId : ℕ) : Ensures
    (fun s : CallState moveHash => FirstPlayer game whiteId s) (findOrInsertPlayer game.black)
    (fun blackId s => FirstPlayers game whiteId blackId s) (fun _ => False) := by
  by_cases hsame : game.black.name = game.white.name
  · refine (findOrInsert_remembered (P := FirstPlayer game whiteId) whiteId).mono ?_ ?_
      fun _ h => h
    · intro s hs
      refine ⟨hs, ?_⟩
      rw [hs.caches]
      simp [IdCaches.find, IdCaches.emplace, NameKind.nameOf, hsame]
    · rintro blackId s ⟨hs, rfl⟩
      refine ⟨hs.works, hs.white, ?_, ?_, ?_, ?_⟩
      · rw [blackRow, if_pos hsame]
        exact hs.white
      · rw [hs.rows]
        rfl
      · rw [hs.caches]
        rfl
      · rw [hs.rows]
        rfl
  · refine (findOrInsert_first (P := FirstPlayer game whiteId)).mono ?_ ?_ fun _ h => h
    · intro s hs
      refine ⟨hs, hs.works, ?_, ?_⟩
      · rw [hs.caches]
        simp [IdCaches.find, IdCaches.emplace, IdCaches.empty, NameKind.nameOf, Ne.symm hsame]
      · rw [hs.rows]
        simp [Rows.idOf, Rows.insertNamed, Rows.empty, NameKind.nameOf, Ne.symm hsame]
    · rintro blackId t ⟨hworks, hrow, s, hs, hrows, hcaches⟩
      have hgrows : s.db.toRows.Grows t.db.toRows := hrows ▸ @Rows.Grows.insertNamed _ .player game.black
      refine ⟨hworks, hgrows.rowOf hs.white, ?_, ?_, ?_, ?_⟩
      · rw [blackRow, if_neg hsame]
        exact hrow
      · rw [hrows, hs.rows]
        rfl
      · rw [hcaches, hs.caches]
        rfl
      · rw [hrows, hs.rows]
        rfl

/-- The players and the event of a game are there. -/
structure FirstNames (game : Game) (whiteId blackId : ℕ) (eventId : Option ℕ)
    (s : CallState moveHash) : Prop where
  works : s.Works
  white : s.db.rowOf .player whiteId = some game.white
  black : s.db.rowOf .player blackId = some (blackRow game)
  event : (eventId.map fun id => s.db.rowOf .event id) = game.eventDetails.map some
  noGames : s.db.games = []

private theorem eventIdOf_first (whiteId blackId : ℕ) : Ensures
    (fun s : CallState moveHash => FirstPlayers game whiteId blackId s)
    (eventIdOf game.eventDetails)
    (fun eventId s => FirstNames game whiteId blackId eventId s) (fun _ => False) := by
  cases hevent : game.eventDetails with
  | none =>
    refine Ensures.pure fun s hs => ⟨hs.works, hs.white, hs.black, ?_, hs.noGames⟩
    rw [hevent]
    rfl
  | some event =>
    refine Ensures.bind (Q := fun id s => FirstNames game whiteId blackId (some id) s)
      ((findOrInsert_first (P := FirstPlayers game whiteId blackId)).mono ?_ ?_ fun _ h => h)
      fun id => Ensures.pure fun _ h => h
    · intro s hs
      refine ⟨hs, hs.works, ?_, ?_⟩
      · rw [IdCaches.find, hs.noCached]
        rfl
      · rw [Rows.idOf, hs.noEvents]
        rfl
    · rintro eventId t ⟨hworks, hrow, s, hs, hrows, hcaches⟩
      have hgrows : s.db.toRows.Grows t.db.toRows := hrows ▸ @Rows.Grows.insertNamed _ .event event
      refine ⟨hworks, hgrows.rowOf hs.white, hgrows.rowOf hs.black, ?_, ?_⟩
      · rw [Option.map_some, hrow, hevent]
        rfl
      · rw [hrows]
        exact hs.noGames

/-- The row of the only game reads as the game, its tags apart. -/
def FirstRow (game : Game) (s : CallState moveHash) : Prop :=
  ∃ whiteId blackId eventId,
    s.db.games = [{ columnsOf game whiteId blackId eventId with id := 1 }] ∧
    s.db.rowOf .player whiteId = some game.white ∧
    s.db.rowOf .player blackId = some (blackRow game) ∧
    (eventId.map fun id => s.db.rowOf .event id) = game.eventDetails.map some

private theorem insertGame_first : Ensures (fun s : CallState moveHash => s = .fresh)
    (insertGame false game) (fun _ s => s.Works ∧ FirstRow game s) (fun _ => False) := by
  refine findOrInsert_white.bind fun whiteId => (findOrInsert_black whiteId).bind fun blackId =>
    (eventIdOf_first whiteId blackId).bind fun eventId => Ensures.read_bind fun id =>
    (exec_total ?_).bind fun _ => Ensures.pure fun _ h => h
  rintro s ⟨hs, -⟩
  have hrow : @insertGameRow moveHash false (columnsOf game whiteId blackId eventId) s.db.toRows =
      .ok (s.db.addGame { columnsOf game whiteId blackId eventId with id := 1 }) := by
    simp [insertGameRow, hs.noGames, nextCollision, Rows.nextGameId, Rows.nextRowId, columnsOf]
  refine ⟨hs.works, _, hrow, ?_, fun t hrows _ hworks => ⟨hworks, whiteId, blackId, eventId, ?_⟩⟩
  · refine s.db.consistent.addGame_of_empty hs.noGames ⟨?_, ?_⟩ ?_
    · exact Rows.mem_ids_of_rowOf hs.white
    · exact Rows.mem_ids_of_rowOf hs.black
    · rintro id hid
      obtain rfl : eventId = some id := hid
      obtain ⟨event, -, hevent⟩ := Option.map_eq_some_iff.mp hs.event.symm
      exact Rows.mem_ids_of_rowOf hevent.symm
  · rw [hrows]
    exact ⟨by rw [Rows.addGame, hs.noGames]; rfl, hs.white, hs.black, hs.event⟩

/-- What a game reads like when it is the only one. -/
def readBack (game : Game) : Game :=
  { game with black := { blackRow game with elo := game.black.elo } }

private theorem gameAt_of_firstRow {s t : CallState moveHash} (hs : FirstRow game s)
    (htags : TagsAdded s.db.toRows 1 game.extraTags t) (hnone : s.db.gameTags = []) :
    t.db.gameAt 1 = .ok (readBack game) := by
  obtain ⟨whiteId, blackId, eventId, hgames, hwhite, hblack, hevent⟩ := hs
  have hfound : t.db.findGame 1 =
      some { columnsOf game whiteId blackId eventId with id := 1 } := by
    rw [Rows.findGame, htags.games, hgames]
    rfl
  have hextra : t.db.extraTagsOf 1 = game.extraTags := by
    rw [htags.extraTagsOf s.db.consistent, if_pos rfl, Rows.extraTagsOf, hnone]
    rfl
  have hevent' : (eventId.bind fun id => t.db.rowOf .event id) = game.eventDetails := by
    cases eventId with
    | none => exact (Option.map_eq_none_iff.mp hevent.symm).symm
    | some id =>
      obtain ⟨event, hdetails, hrow⟩ := Option.map_eq_some_iff.mp hevent.symm
      rw [hdetails, Option.bind_some, htags.grows.rowOf hrow.symm]
  rw [Rows.gameAt, hfound]
  dsimp only [columnsOf]
  rw [htags.grows.rowOf hwhite, htags.grows.rowOf hblack, hextra]
  exact congrArg (fun event : Option Event =>
    (Except.ok { readBack game with eventDetails := event } : Result Game)) hevent'

/-- The first insert into an empty database is accepted when the tags have distinct names, and the
game is there as it was given, except that a black player of White's name is White. -/
theorem insert_first (hnames : (game.extraTags.map Prod.fst).Nodup) :
    ∃ s : CallState moveHash, Store.insert false game .fresh = (.ok 1, s) ∧
      s.db.gameAt 1 = .ok (readBack game) := by
  have hempty : (Rows.empty).Consistent moveHash := (Database.empty moveHash).consistent
  have hgame := (insertGame_spec hempty false game).and (@insertGame_first moveHash game)
  have hbody : Ensures (fun s : CallState moveHash => s = .fresh) (insertBody false game)
      (fun id s => (id = 1 ∧ s.db.gameAt 1 = .ok (readBack game)) ∧ s.Works) (fun _ => False) := by
    refine Ensures.bind (Q := fun id s => RowAdded .empty game id s ∧ s.Works ∧ FirstRow game s)
      (hgame.mono ?_ (fun _ _ h => h) fun _ h => h.2) fun id => ?_
    · rintro s rfl
      exact ⟨⟨⟨.refl, rfl, rfl, rfl⟩, Rows.cached_empty⟩, rfl⟩
    · refine Ensures.of_forall fun s ⟨hrow, hworks, hfirst⟩ => ?_
      obtain ⟨row, hgames, hid, hnext, -⟩ := hrow.row
      obtain rfl : id = 1 := by
        rw [hid, hnext]
        rfl
      have htags := ((@insertGameTags_spec moveHash s.db.toRows 1 game.extraTags []).and
        (insertGameTags_total hnames)).mono (S := fun t => t = s) ?_ (fun _ _ h => h) fun _ h => h.2
      · refine htags.bind fun _ => Ensures.pure fun t ht => ⟨⟨rfl, ?_⟩, ht.2⟩
        exact gameAt_of_firstRow hfirst ht.1 hrow.gameTags
      · rintro t rfl
        refine ⟨⟨.refl, hrow.cached, rfl, [], (List.append_nil _).symm, rfl⟩, ⟨?_, hrow.cached, ?_⟩,
          hworks⟩
        · rw [hgames]
          exact List.mem_map.mpr ⟨row, List.mem_append_right _ (List.mem_singleton_self _), hnext⟩
        · rw [hrow.gameTags]
          nofun
  have hworks : (CallState.fresh : CallState moveHash).Works := rfl
  obtain ⟨_, s, hrun, rfl, hget⟩ := guarded_total (R := fun id db =>
    id = 1 ∧ db.gameAt 1 = .ok (readBack game)) hworks hbody
  exact ⟨s, hrun, hget⟩

end First

end MotifChess.Db.Store
