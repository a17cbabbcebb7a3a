/- GID: MotifChess/Db/Store/RefinedInserts
   generality: implementation
   digest: An insert under ids does to the rows what the insert under names does to the tables. -/

import MotifChess.Db.Store.PatchedRows
import MotifChess.Db.Store.Refinement

set_option autoImplicit false
set_option relaxedAutoImplicit false

namespace MotifChess.Db.Store

open MotifChess.Order.FirstWins MotifChess.System Stateful

/-- The tables in which the name of a row was looked up, and the row added if there was none. -/
def lookUp : (kind : NameKind) → kind.Row → Tables → Tables
  | .player, player, t => t.findOrInsertPlayer player
  | .event, event, t => t.findOrInsertEvent event
  | .tag, _, t => t

variable {moveHash : List UInt16 → UInt64} {rows rows' : Rows} {t t' : Tables} {row : GameRow}
  {kind : NameKind} {id : ℕ}

section Names

theorem Rows.Refines.congr (h : rows.Refines t) (hplayers : t'.players = t.players)
    (hevents : t'.events = t.events) (hgames : t'.games = t.games)
    (hindex : t'.identityIndex = t.identityIndex) : rows.Refines t' :=
  ⟨hplayers.trans h.players, hevents.trans h.events, hgames.trans h.games,
    hindex.trans h.identityIndex⟩

@[simp] theorem lookUp_games (row : kind.Row) : (lookUp kind row t).games = t.games := by
  cases kind <;> rfl

@[simp] theorem lookUp_identityIndex (row : kind.Row) :
    (lookUp kind row t).identityIndex = t.identityIndex := by
  cases kind <;> rfl

private theorem mem_names {name : String} (hid : rows.idOf kind name = some id) :
    name ∈ (rows.named kind).map fun row => kind.nameOf row.2 := by
  obtain ⟨entry, hfound, -⟩ := Option.map_eq_some_iff.mp hid
  exact List.mem_map.mpr ⟨entry, List.mem_of_find?_eq_some hfound, by simpa using List.find?_some hfound⟩

private theorem notMem_names {name : String} (hid : rows.idOf kind name = none) :
    name ∉ (rows.named kind).map fun row => kind.nameOf row.2 := by
  intro hmem
  obtain ⟨entry, hentry, hname⟩ := List.mem_map.mp hmem
  rw [Rows.idOf, Option.map_eq_none_iff, List.find?_eq_none] at hid
  exact hid entry hentry (by simpa using hname)

/-- Looking up a name that is there changes nothing. -/
theorem Rows.Refines.lookUp_of_known (h : rows.Refines t) {found : kind.Row}
    (hid : rows.idOf kind (kind.nameOf found) = some id) : rows.Refines (lookUp kind found t) := by
  have hmem := mem_names hid
  cases kind with
  | player =>
    refine h.congr (insertNew_of_mem ?_) rfl rfl rfl
    rw [h.players, List.map_map]
    exact hmem
  | event =>
    refine h.congr rfl (insertNew_of_mem ?_) rfl rfl
    rw [h.events, List.map_map]
    exact hmem
  | tag => exact h

private theorem games_grows (h : rows.Refines t) (hrows : rows.Consistent moveHash)
    (hgrows : rows.Grows rows') (hgames : rows'.games = rows.games)
    (htags : rows'.gameTags = rows.gameTags) : t.games = rows'.games.map fun row => rows'.shown row := by
  rw [h.games, hgames]
  refine List.map_congr_left fun row hrow => ?_
  exact (hrows.shown_grows hgrows (hrows.refers hrow) (hrows.extraTagsOf_grows hgrows htags row.id)).symm

private theorem named_insertNamed (added : kind.Row) : (rows.insertNamed kind added).named kind =
    rows.named kind ++ [(rows.nextId kind, added)] := Function.update_self ..

private theorem named_insertNamed_of_ne {other : NameKind} (hne : other ≠ kind) (added : kind.Row) :
    (rows.insertNamed kind added).named other = rows.named other := Function.update_of_ne hne ..

/-- A row under a new name. -/
theorem Rows.Refines.insertNamed (h : rows.Refines t) (hrows : rows.Consistent moveHash)
    {added : kind.Row} (hid : rows.idOf kind (kind.nameOf added) = none) :
    (rows.insertNamed kind added).Refines (lookUp kind added t) := by
  have hnotMem := notMem_names hid
  have hgames := games_grows h hrows (.insertNamed added) rfl rfl
  cases kind with
  | player =>
    refine ⟨?_, ?_, hgames, h.identityIndex⟩
    · change insertNew Player.name t.players added = _
      rw [insertNew_of_not_mem, h.players, named_insertNamed, List.map_append]
      · rfl
      · rw [h.players, List.map_map]
        exact hnotMem
    · rw [named_insertNamed_of_ne (by decide)]
      exact h.events
  | event =>
    refine ⟨?_, ?_, hgames, h.identityIndex⟩
    · rw [named_insertNamed_of_ne (by decide)]
      exact h.players
    · change insertNew Event.name t.events added = _
      rw [insertNew_of_not_mem, h.events, named_insertNamed, List.map_append]
      · rfl
      · rw [h.events, List.map_map]
        exact hnotMem
  | tag =>
    refine ⟨?_, ?_, hgames, h.identityIndex⟩
    · rw [named_insertNamed_of_ne (by decide)]
      exact h.players
    · rw [named_insertNamed_of_ne (by decide)]
      exact h.events

end Names

section Statements

/-- The rows say what the tables say, the caches stand for names, and no statement fails by itself. -/
structure CallState.Mirrors (s : CallState moveHash) (t : Tables) : Prop where
  refines : s.db.toRows.Refines t
  cached : s.db.Cached s.caches
  works : s.Works

/-- Every constraint but the unique index. -/
def Rows.Linked (moveHash : List UInt16 → UInt64) (rows : Rows) : Prop :=
  Rows.Consistent moveHash { rows with identityIndex := false }

theorem Rows.Consistent.linked (h : rows.Consistent moveHash) : rows.Linked moveHash where
  ids := h.ids
  names := h.names
  gameIds := h.gameIds
  players := h.players
  events := h.events
  tagged := h.tagged
  tagKeys := h.tagKeys
  index := nofun

private theorem nodup_map_iff {α β γ : Type} {f : α → β} {g : α → γ} {l : List α}
    (hfg : ∀ a ∈ l, ∀ b ∈ l, f a = f b ↔ g a = g b) : (l.map f).Nodup ↔ (l.map g).Nodup := by
  rw [List.Nodup, List.Nodup, List.pairwise_map, List.pairwise_map]
  constructor
  · exact fun h => h.imp_of_mem fun ha hb hne heq => hne ((hfg _ ha _ hb).mpr heq)
  · exact fun h => h.imp_of_mem fun ha hb hne heq => hne ((hfg _ ha _ hb).mp heq)

/-- The rows keep every constraint exactly when the unique index of the tables holds. -/
theorem Rows.Linked.consistent_iff (h : rows.Linked moveHash) (hrefines : rows.Refines t) :
    rows.Consistent moveHash ↔ t.indexHolds moveHash = true := by
  have hunique : t.indexUnique moveHash = true ↔
      (rows.games.map fun row => (row.slot moveHash, row.identityCollision)).Nodup := by
    rw [Tables.indexUnique, decide_eq_true_iff, hrefines.games, List.map_map]
    refine nodup_map_iff fun row hrow row' hrow' => ?_
    exact h.indexKey_eq_iff (h.refers hrow) (h.refers hrow')
  have hholds : t.indexHolds moveHash = true ↔ (rows.identityIndex = true →
      (rows.games.map fun row => (row.slot moveHash, row.identityCollision)).Nodup) := by
    rw [Tables.indexHolds, hrefines.identityIndex, ← hunique]
    cases rows.identityIndex <;> simp
  rw [hholds]
  exact ⟨fun hrows => hrows.index, fun hindex =>
    ⟨h.ids, h.names, h.gameIds, h.players, h.events, h.tagged, h.tagKeys, hindex⟩⟩

variable {s : CallState moveHash}

theorem CallState.Mirrors.passed (h : s.Mirrors t) : s.passed.Mirrors t :=
  ⟨h.refines, h.cached, h.works.passed⟩

theorem CallState.Mirrors.exec_ok (h : s.Mirrors t) (change : Rows → Result Rows)
    (hchange : change s.db.toRows = .ok rows')
    (hrows : rows'.Consistent moveHash) (hgrows : s.db.Grows rows') (hrefines : rows'.Refines t') :
    ∃ s', exec change s = (.ok (), s') ∧ s'.Mirrors t' ∧ s'.db.toRows = rows' := by
  unfold exec
  rw [if_neg (by simp [h.works.nextWorks]), hchange]
  dsimp only
  rw [dif_pos hrows]
  exact ⟨_, rfl, ⟨hrefines, h.cached.grows hgrows, h.works.passed⟩, rfl⟩

theorem CallState.Mirrors.exec_broken (h : s.Mirrors t) (change : Rows → Result Rows)
    (hchange : change s.db.toRows = .ok rows')
    (hrows : ¬rows'.Consistent moveHash) :
    ∃ s', exec change s = (.error .ioFailure, s') ∧ s'.Mirrors t := by
  unfold exec
  rw [if_neg (by simp [h.works.nextWorks]), hchange]
  dsimp only
  rw [dif_neg hrows]
  exact ⟨_, rfl, h.passed⟩

/-- A statement that SQLite refuses for its own reasons. -/
theorem CallState.Mirrors.exec_error (h : s.Mirrors t) (change : Rows → Result Rows)
    {e : ErrorCode} (hchange : change s.db.toRows = .error e) :
    ∃ s', exec change s = (.error e, s') ∧ s'.Mirrors t := by
  unfold exec
  rw [if_neg (by simp [h.works.nextWorks]), hchange]
  exact ⟨_, rfl, h.passed⟩

/-- A lookup finds or adds the row of a name, in the rows as in the tables. -/
theorem CallState.Mirrors.findOrInsert (h : s.Mirrors t) (found : kind.Row) :
    ∃ id s', Store.findOrInsert kind found s = (.ok id, s') ∧ s'.Mirrors (lookUp kind found t) ∧
      s'.db.nameIn kind id = some (kind.nameOf found) ∧ NamesAdded s.db.toRows s' := by
  obtain ⟨s', hrun, hview, hworks⟩ := @findOrInsert_succeeds moveHash s kind found h.works
  have hstart : NamesAdded s.db.toRows s := ⟨⟨.refl, rfl, rfl, rfl⟩, h.cached⟩
  obtain ⟨hnames, hname⟩ := (findOrInsert_spec kind found).of_ok hstart hrun
  refine ⟨_, s', hrun, ⟨?_, hnames.cached, hworks⟩, hname, hnames⟩
  have hrows : s'.db.toRows = (s.view.lookedUp kind found).rows := congrArg View.rows hview
  rw [hrows, View.lookedUp_rows]
  split
  next hknown =>
    obtain ⟨id, hid⟩ := Option.isSome_iff_exists.mp hknown
    have hsame : s.db.idOf kind (kind.nameOf found) = some id := by
      rcases Option.or_eq_some_iff.mp hid with hcached | ⟨-, hstored⟩
      · exact s.db.consistent.idOf_of_nameIn (h.cached.find hcached)
      · exact hstored
    exact h.refines.lookUp_of_known hsame
  next hunknown =>
    refine h.refines.insertNamed s.db.consistent ?_
    simp only [View.known, Option.isSome_or, Bool.or_eq_true, not_or] at hunknown
    exact Option.not_isSome_iff_eq_none.mp hunknown.2

end Statements

section Rows

variable {game : Game} {whiteId blackId : ℕ} {eventId : Option ℕ} {collision : ℕ}

/-- The ids that an insert found lead to the names of the game. -/
structure FoundNames (game : Game) (whiteId blackId : ℕ) (eventId : Option ℕ) (rows : Rows) : Prop where
  white : rows.nameIn .player whiteId = some game.white.name
  black : rows.nameIn .player blackId = some game.black.name
  event : (eventId.bind fun id => rows.nameIn .event id) = game.eventDetails.map Event.name
  eventIds : ∀ id ∈ eventId, id ∈ rows.ids .event

/-- What the row of a game says before its tags are written. -/
def bare (game : Game) : StoredGame := { StoredGame.ofGame game with extraTags := [] }

private theorem FoundNames.refers (h : FoundNames game whiteId blackId eventId rows)
    (hids : row.whiteId = whiteId ∧ row.blackId = blackId ∧ row.eventId = eventId) :
    rows.Refers row := by
  obtain ⟨rfl, rfl, rfl⟩ := hids
  exact ⟨Rows.mem_ids_of_nameIn h.white, Rows.mem_ids_of_nameIn h.black, h.eventIds⟩

/-- The row of a game at its place in the table. -/
def placed (columns : GameRow) (id collision : ℕ) : GameRow :=
  { columns with id, identityCollision := collision }

private theorem FoundNames.shown (h : FoundNames game whiteId blackId eventId rows)
    (htags : rows.extraTagsOf id = []) :
    rows.shown (placed (columnsOf game whiteId blackId eventId) id collision) =
      ⟨id, collision, bare game⟩ := by
  simp only [Rows.shown, placed, columnsOf, h.white, h.black, h.event, htags, Option.getD_some]
  rfl

private theorem extraTagsOf_next (hrows : rows.Consistent moveHash) :
    rows.extraTagsOf rows.nextGameId = [] :=
  hrows.extraTagsOf_of_notMem (Rows.nextRowId_notMem _)

private theorem refines_addGame (collision : ℕ) (h : rows.Refines t) (hrows : rows.Consistent moveHash)
    (hnames : FoundNames game whiteId blackId eventId rows) :
    (rows.addGame (placed (columnsOf game whiteId blackId eventId) rows.nextGameId collision)).Refines
      (t.addRow collision (bare game)) := by
  refine ⟨h.players, h.events, ?_, h.identityIndex⟩
  have hshown := @FoundNames.shown rows _ game whiteId blackId eventId collision hnames
    (extraTagsOf_next hrows)
  change t.games ++ [⟨t.nextId, collision, bare game⟩] = (rows.games ++ [_]).map fun row => rows.shown row
  rw [List.map_append, List.map_singleton, h.games, h.nextId, hshown]

private theorem linked_addGame (hrows : rows.Consistent moveHash) (hrefers : rows.Refers row)
    (hid : row.id = rows.nextGameId) : (rows.addGame row).Linked moveHash := by
  refine ⟨hrows.ids, hrows.names, ?_, ?_, ?_, fun tag htag => ?_, hrows.tagKeys, nofun⟩
  · change ((rows.games ++ [row]).map GameRow.id).Nodup
    rw [List.map_append, List.map_singleton, hid]
    exact List.Nodup.append hrows.gameIds (List.nodup_singleton _)
      (List.disjoint_singleton.mpr (Rows.nextRowId_notMem _))
  · intro other hother
    rcases List.mem_append.mp hother with hold | hnew
    · exact hrows.players other hold
    · obtain rfl := List.mem_singleton.mp hnew
      exact ⟨hrefers.white, hrefers.black⟩
  · intro other hother
    rcases List.mem_append.mp hother with hold | hnew
    · exact hrows.events other hold
    · obtain rfl := List.mem_singleton.mp hnew
      exact hrefers.event
  · obtain ⟨hgame, htagId⟩ := hrows.tagged tag htag
    refine ⟨?_, htagId⟩
    change tag.gameId ∈ (rows.games ++ [row]).map GameRow.id
    rw [List.map_append]
    exact List.mem_append_left _ hgame

private theorem nextCollision_eq (h : rows.Refines t) (hrows : rows.Consistent moveHash)
    (hnames : FoundNames game whiteId blackId eventId rows) :
    nextCollision moveHash (columnsOf game whiteId blackId eventId) rows =
      t.nextCollision moveHash (StoredGame.ofGame game) := by
  have hshown := @FoundNames.shown rows _ game whiteId blackId eventId 0 hnames
    (extraTagsOf_next hrows)
  rw [nextCollision, Tables.nextCollision, h.games, List.foldl_map]
  refine List.foldl_ext _ _ _ fun m row hrow => ?_
  have hslot := hrows.sameSlot_shown (hrows.refers hrow) (hnames.refers ⟨rfl, rfl, rfl⟩ :
    rows.Refers (placed (columnsOf game whiteId blackId eventId) rows.nextGameId 0))
  rw [hshown] at hslot
  change Db.GameRow.sameSlot moveHash (rows.shown row).stored (StoredGame.ofGame game) =
    decide (row.slot moveHash = (columnsOf game whiteId blackId eventId).slot moveHash) at hslot
  rw [hslot]
  by_cases hsame : row.slot moveHash = (columnsOf game whiteId blackId eventId).slot moveHash
  · rw [if_pos hsame, if_pos (decide_eq_true hsame)]
    rfl
  · rw [if_neg hsame, if_neg]
    exact fun htrue => hsame (of_decide_eq_true htrue)

private theorem duplicate_iff (h : rows.Refines t) (hrows : rows.Consistent moveHash)
    (hnames : FoundNames game whiteId blackId eventId rows) :
    (rows.games.any fun row => sameGame moveHash row (columnsOf game whiteId blackId eventId)) =
      t.games.any fun row => row.identity = (StoredGame.ofGame game).identity := by
  have hshown := @FoundNames.shown rows _ game whiteId blackId eventId 0 hnames
    (extraTagsOf_next hrows)
  rw [h.games, List.any_map, Bool.eq_iff_iff, List.any_eq_true, List.any_eq_true]
  refine exists_congr fun row => and_congr_right fun hrow => ?_
  have hgame := hrows.sameGame_iff (hrows.refers hrow) (hnames.refers ⟨rfl, rfl, rfl⟩ :
    rows.Refers (placed (columnsOf game whiteId blackId eventId) rows.nextGameId 0))
  rw [hshown] at hgame
  exact hgame.symm.trans decide_eq_true_iff.symm

end Rows

section Tags

open Tables

variable {s : CallState moveHash} {stored : StoredGame} {collision : ℕ}

private theorem games_changeGame_addRow (change : StoredGame → StoredGame) :
    ((t.addRow collision stored).changeGame t.nextId change).games =
      (t.addRow collision (change stored)).games := by
  have hothers : (t.games.map fun row => (⟨row.id, row.identityCollision,
      if row.id = t.nextId then change row.stored else row.stored⟩ : Db.GameRow)) = t.games := by
    refine (List.map_congr_left fun row hrow => ?_).trans (List.map_id _)
    rw [if_neg (id_lt_nextId hrow).ne]
    rfl
  change (t.games ++ [_]).map _ = t.games ++ [_]
  rw [List.map_append, List.map_singleton]
  refine congrArg₂ _ hothers ?_
  dsimp only
  rw [if_pos rfl]

theorem Rows.Refines.insertGameTag (h : rows.Refines t) {tagId : ℕ} {name value : String}
    (hname : rows.nameIn .tag tagId = some name) :
    (rows.insertGameTag ⟨id, tagId, value⟩).Refines (t.changeGame id fun game =>
      { game with extraTags := game.extraTags ++ [(name, value)] }) := by
  refine ⟨h.players, h.events, ?_, h.identityIndex⟩
  change t.games.map _ = rows.games.map _
  rw [h.games, List.map_map]
  refine List.map_congr_left fun row _ => ?_
  obtain ⟨found, hfound, hsame⟩ := Option.map_eq_some_iff.mp hname
  obtain rfl : found = name := hsame
  have htags := @Rows.extraTagsOf_insertGameTag rows ⟨id, tagId, value⟩ row.id
  rw [Rows.tagOf, hfound] at htags
  simp only [Function.comp_apply, Rows.shown, htags]
  by_cases hrow : row.id = id
  · rw [if_pos hrow, if_pos hrow.symm]
    rfl
  · rw [if_neg hrow, if_neg (Ne.symm hrow)]
    simp only [Option.toList_none, List.append_nil]
    rfl

/-- A tag breaks a constraint exactly when its game has one of its name. -/
theorem insertGameTag_consistent_iff (hrows : rows.Consistent moveHash) {tagId : ℕ}
    {name : String} (hgame : id ∈ rows.games.map GameRow.id) (value : String)
    (hname : rows.nameIn .tag tagId = some name) :
    (rows.insertGameTag ⟨id, tagId, value⟩).Consistent moveHash ↔
      name ∉ (rows.extraTagsOf id).map Prod.fst := by
  have hfree : name ∉ (rows.extraTagsOf id).map Prod.fst ↔
      ∀ other ∈ rows.gameTags, other.gameId = id → other.tagId ≠ tagId := by
    refine ⟨fun hnot other hother hid hsame => hnot ?_, fun hfree hmem => ?_⟩
    · refine List.mem_map.mpr ⟨(name, other.value), List.mem_filterMap.mpr ⟨other, hother, ?_⟩, rfl⟩
      obtain ⟨found, hfound, hfound'⟩ := Option.map_eq_some_iff.mp hname
      obtain rfl : found = name := hfound'
      rw [Rows.tagOf, if_pos hid, hsame, hfound]
      rfl
    · obtain ⟨⟨found, text⟩, hpair, rfl⟩ := List.mem_map.mp hmem
      obtain ⟨other, hother, htag⟩ := List.mem_filterMap.mp hpair
      rw [Rows.tagOf] at htag
      split_ifs at htag with hid
      obtain ⟨tagName, hrow, hsame⟩ := Option.map_eq_some_iff.mp htag
      obtain ⟨rfl, -⟩ := Prod.mk.inj hsame
      have hother' : rows.nameIn .tag other.tagId = some tagName := by
        rw [Rows.nameIn, hrow]
        rfl
      exact hfree other hother hid
        (hrows.nameIn_inj (hrows.tagged other hother).2 (hother'.trans hname.symm))
  rw [hfree]
  refine ⟨fun hconsistent other hother hid hsame => ?_, fun hnew =>
    hrows.insertGameTag hgame (Rows.mem_ids_of_nameIn hname) hnew⟩
  have hkeys := hconsistent.tagKeys
  rw [Rows.insertGameTag, List.map_append, List.map_singleton] at hkeys
  refine (List.nodup_append.mp hkeys).2.2 _ (List.mem_map_of_mem hother) _
    (List.mem_singleton_self _) ?_
  rw [hid, hsame]

private theorem tagsBeforeRepeat_of_nodup {tags : List (String × String)} {seen : List String}
    (htags : (tags.map Prod.fst).Nodup) (hnew : ∀ tag ∈ tags, tag.1 ∉ seen) :
    tagsBeforeRepeat seen tags = tags := by
  induction tags generalizing seen with
  | nil => rfl
  | cons tag tags ih =>
    obtain ⟨hhead, htail⟩ := List.nodup_cons.mp htags
    rw [tagsBeforeRepeat, if_neg (hnew tag List.mem_cons_self), ih htail]
    intro other hother hmem
    rcases List.mem_cons.mp hmem with hsame | hmem
    · exact hhead (hsame ▸ List.mem_map_of_mem hother)
    · exact hnew other (List.mem_cons_of_mem _ hother) hmem

private theorem shown_added (h : rows.Refines (t.addRow collision stored)) :
    ∃ row ∈ rows.games, rows.shown row = ⟨t.nextId, collision, stored⟩ := by
  have hmem : (⟨t.nextId, collision, stored⟩ : Db.GameRow) ∈ (t.addRow collision stored).games :=
    List.mem_append_right _ (List.mem_singleton_self _)
  rw [h.games] at hmem
  exact List.mem_map.mp hmem

/-- Tags are written in their order, up to the first one whose name the game has already. -/
private theorem mirrors_insertGameTags (tags : List (String × String)) {seen : List String}
    (h : s.Mirrors (t.addRow collision stored)) (hdone : (stored.extraTags.map Prod.fst).Nodup)
    (hseen : ∀ name, name ∈ seen ↔ name ∈ stored.extraTags.map Prod.fst) :
    ∃ s', insertGameTags t.nextId tags s =
        (if ((stored.extraTags ++ tags).map Prod.fst).Nodup then .ok () else .error .ioFailure, s') ∧
      s'.Mirrors (t.addRow collision
        { stored with extraTags := stored.extraTags ++ tagsBeforeRepeat seen tags }) := by
  induction tags generalizing s stored seen with
  | nil =>
    rw [tagsBeforeRepeat, List.append_nil, if_pos hdone]
    exact ⟨s, rfl, h⟩
  | cons tag tags ih =>
    obtain ⟨name, value⟩ := tag
    obtain ⟨tagId, s₁, hfound, hmirrors, hname, -⟩ := @CallState.Mirrors.findOrInsert _ _ .tag s h name
    obtain ⟨row, hrow, hshown⟩ := shown_added hmirrors.refines
    have hid : row.id = t.nextId := congrArg Db.GameRow.id hshown
    have htags : s₁.db.extraTagsOf t.nextId = stored.extraTags := by
      rw [← hid]
      exact congrArg (fun row : Db.GameRow => row.stored.extraTags) hshown
    have hgame : t.nextId ∈ s₁.db.games.map GameRow.id := hid ▸ List.mem_map_of_mem hrow
    have hconsistent := insertGameTag_consistent_iff s₁.db.consistent hgame value hname
    rw [htags] at hconsistent
    by_cases hrepeat : name ∈ stored.extraTags.map Prod.fst
    · obtain ⟨s₂, hexec, hend⟩ := hmirrors.exec_broken
        (fun rows => .ok (rows.insertGameTag ⟨t.nextId, tagId, value⟩)) rfl
        fun hrows => hconsistent.mp hrows hrepeat
      refine ⟨s₂, ?_, ?_⟩
      · rw [Store.insertGameTags, findOrInsertTag, run_bind_of_ok hfound, run_bind_of_error hexec, if_neg]
        intro hnodup
        rw [List.map_append, List.map_cons] at hnodup
        exact (List.nodup_append.mp hnodup).2.2 name hrepeat name List.mem_cons_self rfl
      · rw [tagsBeforeRepeat, if_pos ((hseen name).mpr hrepeat), List.append_nil]
        exact hend
    · obtain ⟨s₂, hexec, hnext, -⟩ := hmirrors.exec_ok
        (fun rows => .ok (rows.insertGameTag ⟨t.nextId, tagId, value⟩)) rfl
        (hconsistent.mpr hrepeat) (fun _ => List.prefix_rfl)
        (hmirrors.refines.insertGameTag hname)
      have hnext : s₂.Mirrors (t.addRow collision
          { stored with extraTags := stored.extraTags ++ [(name, value)] }) :=
        ⟨hnext.refines.congr rfl rfl (@games_changeGame_addRow t stored collision fun game =>
          { game with extraTags := game.extraTags ++ [(name, value)] }).symm rfl,
          hnext.cached, hnext.works⟩
      obtain ⟨s₃, hrest, hend⟩ := @ih s₂ _ (name :: seen) hnext
        (by
          rw [List.map_append]
          exact List.Nodup.append hdone (List.nodup_singleton _)
            (List.disjoint_singleton.mpr hrepeat))
        (by
          intro other
          rw [List.mem_cons, hseen, List.map_append, List.mem_append, List.map_singleton,
            List.mem_singleton, or_comm])
      refine ⟨s₃, ?_, ?_⟩
      · rw [Store.insertGameTags, findOrInsertTag, run_bind_of_ok hfound, run_bind_of_ok hexec, hrest]
        simp only [List.append_assoc, List.singleton_append]
      · rw [tagsBeforeRepeat, if_neg fun hmem => hrepeat ((hseen name).mp hmem)]
        simp only [List.append_assoc, List.singleton_append] at hend
        exact hend

end Tags

section Inserts

open Tables

variable {s : CallState moveHash} {game : Game} {whiteId blackId : ℕ} {eventId : Option ℕ}
  {collision : ℕ}

private theorem mirrors_eventIdOf (h : s.Mirrors t) (event : Option Event) :
    ∃ eventId s', eventIdOf event s = (.ok eventId, s') ∧
      s'.Mirrors (match event with | none => t | some event => t.findOrInsertEvent event) ∧
      (eventId.bind fun id => s'.db.nameIn .event id) = event.map Event.name ∧
      (∀ id ∈ eventId, id ∈ s'.db.ids .event) ∧ NamesAdded s.db.toRows s' := by
  cases event with
  | none => exact ⟨none, s, rfl, h, rfl, nofun, ⟨⟨.refl, rfl, rfl, rfl⟩, h.cached⟩⟩
  | some event =>
    obtain ⟨id, s', hrun, hmirrors, hname, hadded⟩ := @CallState.Mirrors.findOrInsert _ _ .event s h event
    refine ⟨some id, s', ?_, hmirrors, hname, ?_, hadded⟩
    · rw [eventIdOf, findOrInsertEvent, run_bind_of_ok hrun]
      rfl
    · rintro _ ⟨⟩
      exact Rows.mem_ids_of_nameIn hname

/-- Once its names are there, a game is written into the rows as it is written into the tables. -/
private theorem mirrors_place (h : s.Mirrors t)
    (hnames : FoundNames game whiteId blackId eventId s.db.toRows) (hid : s.db.nextGameId < 4294967296)
    {change : Rows → Result Rows} (hchange : change s.db.toRows = .ok (s.db.addGame
      (placed (columnsOf game whiteId blackId eventId) s.db.nextGameId collision))) :
    ∃ s', (do
        exec change
        insertGameTags (toGameId s.db.nextGameId) game.extraTags
        return toGameId s.db.nextGameId : Call moveHash ℕ) s =
          ((t.insertRow moveHash collision (StoredGame.ofGame game)).2, s') ∧
      s'.Mirrors (t.insertRow moveHash collision (StoredGame.ofGame game)).1 := by
  have hnext : toGameId s.db.nextGameId = t.nextId := by
    rw [toGameId, Nat.mod_eq_of_lt hid, h.refines.nextId]
  have hrefines := refines_addGame collision h.refines s.db.consistent hnames
  have hrefers : s.db.Refers (placed (columnsOf game whiteId blackId eventId) s.db.nextGameId collision) :=
    hnames.refers ⟨rfl, rfl, rfl⟩
  have hlinked := linked_addGame s.db.consistent hrefers rfl
  have hholds : (t.addRow collision (bare game)).indexHolds moveHash =
      (t.addRow collision (StoredGame.ofGame game)).indexHolds moveHash := by
    simp only [indexHolds, indexUnique, addRow, List.map_append]
    rfl
  have hconsistent := hlinked.consistent_iff hrefines
  rw [hholds] at hconsistent
  rw [insertRow, hnext]
  by_cases hindex : (t.addRow collision (StoredGame.ofGame game)).indexHolds moveHash = true
  · obtain ⟨s₁, hexec, hmirrors, -⟩ := h.exec_ok change hchange (hconsistent.mpr hindex)
      (fun _ => List.prefix_rfl) hrefines
    obtain ⟨s₂, htags, hend⟩ := mirrors_insertGameTags game.extraTags hmirrors List.nodup_nil
      fun name => (Iff.rfl : name ∈ [] ↔ _)
    have hwritten : ({ bare game with
        extraTags := (bare game).extraTags ++ tagsBeforeRepeat [] game.extraTags } : StoredGame) =
          { StoredGame.ofGame game with
            extraTags := tagsBeforeRepeat [] (StoredGame.ofGame game).extraTags } := rfl
    rw [hwritten] at hend
    rw [if_neg (by simp [hindex]), run_bind_of_ok hexec]
    by_cases hnodup : ((StoredGame.ofGame game).extraTags.map Prod.fst).Nodup
    · rw [if_pos (show ((bare game).extraTags ++ game.extraTags).map Prod.fst |>.Nodup from hnodup)]
        at htags
      rw [tagsBeforeRepeat_of_nodup hnodup fun _ _ => List.not_mem_nil] at hend
      rw [if_pos (decide_eq_true hnodup), run_bind_of_ok htags]
      exact ⟨s₂, rfl, hend⟩
    · rw [if_neg (show ¬(((bare game).extraTags ++ game.extraTags).map Prod.fst).Nodup from hnodup)]
        at htags
      rw [if_neg fun htrue => hnodup (of_decide_eq_true htrue), run_bind_of_error htags]
      exact ⟨s₂, rfl, hend⟩
  · obtain ⟨s₁, hexec, hend⟩ := h.exec_broken change hchange fun hrows => hindex (hconsistent.mp hrows)
    rw [if_pos (by simpa using hindex), run_bind_of_error hexec]
    exact ⟨s₁, rfl, hend⟩

variable (moveHash) in
/-- A checked or a raw insert into the tables. -/
def inserted (raw : Bool) (game : Game) (t : Tables) : Tables × Result ℕ :=
  if raw then t.insertRaw moveHash game else t.insert moveHash game

/-- An insert gives the id or the error that the insert into the tables gives, and writes the same. -/
theorem CallState.Mirrors.insertBody (h : s.Mirrors t) (raw : Bool) (game : Game)
    (hid : s.db.nextGameId < 4294967296) :
    ∃ s', Store.insertBody raw game s = ((inserted moveHash raw game t).2, s') ∧
      s'.Mirrors (inserted moveHash raw game t).1 := by
  obtain ⟨whiteId, s₁, hwhite, hmirrors₁, hwhiteName, hadded₁⟩ :=
    @CallState.Mirrors.findOrInsert _ _ .player s h game.white
  obtain ⟨blackId, s₂, hblack, hmirrors₂, hblackName, hadded₂⟩ :=
    @CallState.Mirrors.findOrInsert _ _ .player s₁ hmirrors₁ game.black
  obtain ⟨eventId, s₃, hevent, hmirrors₃, heventName, heventIds, hadded₃⟩ :=
    mirrors_eventIdOf hmirrors₂ game.eventDetails
  have hnames : FoundNames game whiteId blackId eventId s₃.db.toRows :=
    ⟨hadded₃.grows.nameIn (hadded₂.grows.nameIn hwhiteName), hadded₃.grows.nameIn hblackName,
      heventName, heventIds⟩
  have hmirrors : s₃.Mirrors (t.findOrInsertNames game) := by
    rw [findOrInsertNames]
    cases hdetails : game.eventDetails <;> rw [hdetails] at hmirrors₃ <;> exact hmirrors₃
  have hnext : s₃.db.nextGameId < 4294967296 := by
    rw [Rows.nextGameId, hadded₃.games, hadded₂.games, hadded₁.games]
    exact hid
  unfold Store.insertBody insertGame
  simp only [bind_assoc, pure_bind]
  rw [findOrInsertPlayer, run_bind_of_ok hwhite, findOrInsertPlayer, run_bind_of_ok hblack,
    run_bind_of_ok hevent, run_read_bind]
  cases raw with
  | true => exact mirrors_place hmirrors hnames hnext rfl
  | false =>
    have hduplicate := duplicate_iff hmirrors.refines s₃.db.consistent hnames
    have hcollision := nextCollision_eq hmirrors.refines s₃.db.consistent hnames
    rw [inserted, if_neg Bool.false_ne_true, Tables.insert]
    by_cases hdup : ((t.findOrInsertNames game).games.any fun row =>
        row.identity = (StoredGame.ofGame game).identity) = true
    · rw [if_pos hdup]
      obtain ⟨s₄, hexec, hend⟩ := hmirrors.exec_error
        (@insertGameRow moveHash false (columnsOf game whiteId blackId eventId))
        (e := .duplicate) (by rw [insertGameRow, if_neg Bool.false_ne_true, if_pos (hduplicate.trans hdup)])
      rw [run_bind_of_error hexec]
      exact ⟨s₄, rfl, hend⟩
    · rw [if_neg hdup]
      refine mirrors_place hmirrors hnames hnext ?_
      rw [insertGameRow, if_neg Bool.false_ne_true, if_neg (by rw [hduplicate]; exact hdup), hcollision]
      rfl

end Inserts

end MotifChess.Db.Store
