/- GID: MotifChess/Db/Store/Inserts
   generality: implementation
   digest: What an insert that succeeds adds, and what one that fails leaves behind. -/

import MotifChess.Db.Store.Records

set_option autoImplicit false
set_option relaxedAutoImplicit false

namespace MotifChess.Db.Store

open MotifChess.System Stateful

variable {moveHash : List UInt16 → UInt64} {start : Rows}

section Statements

variable {P : CallState moveHash → Prop} {change : Rows → Result Rows}

theorem exec_spec : Ensures P (exec change)
    (fun _ s' => ∃ s, P s ∧ change s.db.toRows = .ok s'.db.toRows ∧ s'.caches = s.caches)
    (fun s' => ∃ s, P s ∧ s'.db = s.db ∧ s'.caches = s.caches) := by
  intro s hs
  unfold exec
  by_cases hworks : s.nextWorks
  · rw [if_neg (by simp [hworks])]
    cases hchange : change s.db.toRows with
    | error e => exact ⟨s, hs, rfl, rfl⟩
    | ok rows =>
      dsimp only
      split_ifs with hconsistent
      · exact ⟨s, hs, hchange, rfl⟩
      · exact ⟨s, hs, rfl, rfl⟩
  · rw [if_pos (by simp [hworks])]
    exact ⟨s, hs, rfl, rfl⟩

theorem exec_bind {α : Type} {f : Unit → Call moveHash α} {R : α → CallState moveHash → Prop}
    {E : CallState moveHash → Prop} (hE : ∀ s s', P s → s'.db = s.db → E s')
    (hf : Ensures (fun s' => ∃ s, P s ∧ change s.db.toRows = .ok s'.db.toRows ∧
      s'.caches = s.caches) (f ()) R E) : Ensures P (exec change >>= f) R E := by
  refine Ensures.bind (exec_spec.mono (fun _ h => h) (fun _ _ h => h) ?_) fun _ => hf
  rintro s' ⟨s, hs, hdb, -⟩
  exact hE s s' hs hdb

end Statements

section Names

/-- Names may have been added since the start, nothing else. -/
structure NamesOnly (start : Rows) (s : CallState moveHash) : Prop where
  grows : start.Grows s.db.toRows
  games : s.db.games = start.games
  gameTags : s.db.gameTags = start.gameTags
  identityIndex : s.db.identityIndex = start.identityIndex

/-- Names may have been added since the start, and the caches stand for names. -/
structure NamesAdded (start : Rows) (s : CallState moveHash) : Prop extends NamesOnly start s where
  cached : s.db.Cached s.caches

theorem NamesOnly.trans {s s' : CallState moveHash} (h : NamesOnly start s)
    (h' : NamesOnly s.db.toRows s') : NamesOnly start s' where
  grows := h.grows.trans h'.grows
  games := h'.games.trans h.games
  gameTags := h'.gameTags.trans h.gameTags
  identityIndex := h'.identityIndex.trans h.identityIndex

theorem NamesAdded.trans {s s' : CallState moveHash} (h : NamesAdded start s)
    (h' : NamesAdded s.db.toRows s') : NamesAdded start s' where
  toNamesOnly := h.toNamesOnly.trans h'.toNamesOnly
  cached := h'.cached

theorem NamesOnly.congr {s s' : CallState moveHash} (h : NamesOnly start s) (hdb : s'.db = s.db) :
    NamesOnly start s' where
  grows := hdb ▸ h.grows
  games := hdb ▸ h.games
  gameTags := hdb ▸ h.gameTags
  identityIndex := hdb ▸ h.identityIndex

theorem carry_names {α : Type} {x : Call moveHash α} {P : CallState moveHash → Prop}
    {Q : α → CallState moveHash → Prop} {E : CallState moveHash → Prop}
    (hx : ∀ start, Ensures (NamesAdded start) x (fun a s => NamesAdded start s ∧ Q a s)
      (NamesOnly start))
    (hP : ∀ s, P s → s.db.Cached s.caches)
    (hkeep : ∀ s s', P s → NamesAdded s.db.toRows s' → P s')
    (hE : ∀ s s', P s → NamesOnly s.db.toRows s' → E s') :
    Ensures P x (fun a s => P s ∧ Q a s) E := by
  refine Ensures.of_forall fun s hs => ?_
  refine (hx s.db.toRows).mono ?_ ?_ ?_
  · rintro _ rfl
    exact ⟨⟨.refl, rfl, rfl, rfl⟩, hP _ hs⟩
  · exact fun a s' ⟨hnames, ha⟩ => ⟨hkeep s s' hs hnames, ha⟩
  · exact fun s' hnames => hE s s' hs hnames

theorem NamesAdded.remember {s : CallState moveHash} (h : NamesAdded start s) {kind : NameKind}
    {name : String} {id : ℕ} (hname : s.db.nameIn kind id = some name) :
    NamesAdded start { s with caches := s.caches.emplace kind name id } where
  grows := h.grows
  cached := h.cached.emplace hname
  games := h.games
  gameTags := h.gameTags
  identityIndex := h.identityIndex

theorem insertNamed_rowOf {db db' : Database moveHash} {kind : NameKind} {row : kind.Row}
    (h : db'.toRows = db.insertNamed kind row) : db'.rowOf kind (db.nextId kind) = some row := by
  refine db'.consistent.rowOf_of_mem ?_
  rw [h, Rows.insertNamed]
  simp

private theorem insertNamed_nameIn {db db' : Database moveHash} {kind : NameKind} {row : kind.Row}
    (h : db'.toRows = db.insertNamed kind row) :
    db'.nameIn kind (db.nextId kind) = some (kind.nameOf row) := by
  rw [Rows.nameIn, insertNamed_rowOf h, Option.map_some]

private theorem remember_spec (kind : NameKind) (name : String) (id : ℕ)
    {E : CallState moveHash → Prop} :
    Ensures (fun s => NamesAdded start s ∧ s.db.nameIn kind id = some name)
      (do remember kind name id; return id)
      (fun id (s : CallState moveHash) =>
        NamesAdded start s ∧ s.db.nameIn kind id = some name) E :=
  Ensures.bind (Q := fun _ s => NamesAdded start s ∧ s.db.nameIn kind id = some name)
    (Ensures.modify fun _ ⟨hs, hname⟩ => ⟨hs.remember hname, hname⟩)
    fun _ => Ensures.pure fun _ hs => hs

theorem NamesAdded.insertNamed {s s' : CallState moveHash} (h : NamesAdded start s)
    {kind : NameKind} {row : kind.Row} (hrows : s'.db.toRows = s.db.insertNamed kind row)
    (hcaches : s'.caches = s.caches) : NamesAdded start s' where
  grows := by
    rw [hrows]
    exact h.grows.trans (.insertNamed row)
  cached := by
    rw [hrows, hcaches]
    exact h.cached.grows (.insertNamed row)
  games := by rw [hrows, ← h.games]; rfl
  gameTags := by rw [hrows, ← h.gameTags]; rfl
  identityIndex := by rw [hrows, ← h.identityIndex]; rfl

theorem findOrInsert_spec (kind : NameKind) (row : kind.Row) :
    Ensures (NamesAdded start) (findOrInsert kind row)
      (fun id (s : CallState moveHash) =>
        NamesAdded start s ∧ s.db.nameIn kind id = some (kind.nameOf row))
      (NamesOnly start) := by
  refine Ensures.read_bind fun cached => ?_
  cases cached with
  | some id => exact Ensures.pure fun s ⟨hs, hid⟩ => ⟨hs, hs.cached.find hid⟩
  | none =>
    refine Ensures.read_bind fun found => ?_
    cases found with
    | some id =>
      refine (remember_spec kind _ id).mono ?_ (fun _ _ h => h) fun _ h => h
      exact fun s ⟨⟨hs, _⟩, hid⟩ => ⟨hs, s.db.consistent.nameIn_of_idOf hid⟩
    | none =>
      refine Ensures.read_bind fun id => exec_bind ?_ ?_
      · rintro s s' ⟨⟨⟨hs, -⟩, -⟩, -⟩ hdb
        exact hs.congr hdb
      · refine (remember_spec kind _ id).mono ?_ (fun _ _ h => h) fun _ h => h
        rintro s ⟨s₀, ⟨⟨⟨hs, -⟩, -⟩, rfl⟩, hrows, hcaches⟩
        have hrows' := (Except.ok.inj hrows).symm
        exact ⟨hs.insertNamed hrows' hcaches, insertNamed_nameIn hrows'⟩

end Names

section Tags

/-- Tags were added to one game since the start, under names that may be new. -/
structure TagsAdded (start : Rows) (gameId : ℕ) (tags : List (String × String))
    (s : CallState moveHash) : Prop where
  grows : start.Grows s.db.toRows
  cached : s.db.Cached s.caches
  games : s.db.games = start.games
  gameTags : ∃ added, s.db.gameTags = start.gameTags ++ added ∧
    added.map (fun tag => (tag.gameId, s.db.nameIn .tag tag.tagId, tag.value)) =
      tags.map fun tag => (gameId, some tag.1, tag.2)

variable {gameId : ℕ} {done : List (String × String)}

theorem TagsAdded.names {s s' : CallState moveHash} (h : TagsAdded start gameId done s)
    (hnames : NamesAdded s.db.toRows s') : TagsAdded start gameId done s' where
  grows := h.grows.trans hnames.grows
  cached := hnames.cached
  games := hnames.games.trans h.games
  gameTags := by
    obtain ⟨added, htags, hadded⟩ := h.gameTags
    refine ⟨added, hnames.gameTags.trans htags, ?_⟩
    rw [← hadded]
    refine List.map_congr_left fun tag htag => ?_
    have hmem : (tag.gameId, s.db.nameIn .tag tag.tagId, tag.value) ∈
        done.map fun tag => (gameId, some tag.1, tag.2) := hadded ▸ List.mem_map_of_mem htag
    obtain ⟨⟨name, value⟩, -, heq⟩ := List.mem_map.mp hmem
    simp only [Prod.mk.injEq] at heq
    rw [hnames.grows.nameIn heq.2.1.symm, heq.2.1]

theorem TagsAdded.insertGameTag {s s' : CallState moveHash} (h : TagsAdded start gameId done s)
    {name value : String} {tagId : ℕ} (hname : s.db.nameIn .tag tagId = some name)
    (hrows : s'.db.toRows = s.db.insertGameTag ⟨gameId, tagId, value⟩)
    (hcaches : s'.caches = s.caches) : TagsAdded start gameId (done ++ [(name, value)]) s' := by
  obtain ⟨added, htags, hadded⟩ := h.gameTags
  refine ⟨?_, ?_, ?_, added ++ [⟨gameId, tagId, value⟩], ?_, ?_⟩
  · rw [hrows]
    exact h.grows
  · rw [hrows, hcaches]
    exact h.cached
  · rw [hrows]
    exact h.games
  · rw [hrows, ← List.append_assoc, ← htags]
    rfl
  · rw [hrows, List.map_append, List.map_append, ← hadded]
    exact congrArg _ (by simp [← hname]; rfl)

theorem insertGameTags_spec (gameId : ℕ) (tags done : List (String × String)) :
    Ensures (TagsAdded start gameId done) (insertGameTags gameId tags)
      (fun _ (s : CallState moveHash) => TagsAdded start gameId (done ++ tags) s)
      (fun s => start.Grows s.db.toRows) := by
  induction tags generalizing done with
  | nil => exact Ensures.pure fun s hs => by rwa [List.append_nil]
  | cons tag tags ih =>
    obtain ⟨name, value⟩ := tag
    have hname : Ensures (TagsAdded start gameId done) (findOrInsertTag name)
        (fun tagId s => TagsAdded start gameId done s ∧ s.db.nameIn .tag tagId = some name)
        (fun s : CallState moveHash => start.Grows s.db.toRows) :=
      carry_names (fun _ => findOrInsert_spec .tag name) (fun s hs => hs.cached)
        (fun s s' hs hnames => hs.names hnames) fun s s' hs hnames => hs.grows.trans hnames.grows
    refine hname.bind fun tagId => exec_bind ?_ ?_
    · rintro s s' ⟨hs, -⟩ hdb
      rw [hdb]
      exact hs.grows
    · have hrest := ih (done ++ [(name, value)])
      rw [List.append_assoc] at hrest
      refine hrest.mono ?_ (fun _ _ h => h) fun _ h => h
      rintro s ⟨s₀, ⟨hs, hid⟩, hrows, hcaches⟩
      exact hs.insertGameTag hid (Except.ok.inj hrows).symm hcaches

private theorem filterMap_tagOf {rows : Rows} {added : List GameTagRow}
    {tags : List (String × String)}
    (h : added.map (fun tag => (tag.gameId, rows.nameIn .tag tag.tagId, tag.value)) =
      tags.map fun tag => (gameId, some tag.1, tag.2)) (id : ℕ) :
    added.filterMap (rows.tagOf id) = if gameId = id then tags else [] := by
  induction added generalizing tags with
  | nil =>
    obtain rfl := List.map_eq_nil_iff.mp h.symm
    simp
  | cons tag added ih =>
    cases tags with
    | nil => cases h
    | cons first tags =>
      obtain ⟨name, value⟩ := first
      rw [List.map_cons, List.map_cons, List.cons.injEq] at h
      obtain ⟨hfirst, hrest⟩ := h
      obtain ⟨hgame, hname, hvalue⟩ := by simpa only [Prod.mk.injEq] using hfirst
      obtain ⟨found, hfound, hfound'⟩ := Option.map_eq_some_iff.mp hname
      obtain rfl : found = name := hfound'
      rw [List.filterMap_cons, ih hrest, Rows.tagOf, hgame, hfound, hvalue]
      by_cases hid : gameId = id
      · rw [if_pos hid, if_pos hid, if_pos hid]
        rfl
      · rw [if_neg hid, if_neg hid, if_neg hid]

theorem TagsAdded.extraTagsOf {s : CallState moveHash} {tags : List (String × String)}
    (h : TagsAdded start gameId tags s) (hstart : start.Consistent moveHash) (id : ℕ) :
    s.db.extraTagsOf id = start.extraTagsOf id ++ if gameId = id then tags else [] := by
  obtain ⟨added, htags, hadded⟩ := h.gameTags
  rw [Rows.extraTagsOf, htags, List.filterMap_append, filterMap_tagOf hadded]
  congr 1
  exact List.filterMap_congr fun tag htag => hstart.tagOf_grows h.grows htag id

end Tags

section Games

variable {game : Game}

/-- A game row without tags was added since the start. -/
structure RowAdded (start : Rows) (game : Game) (gameId : ℕ) (s : CallState moveHash) : Prop where
  grows : start.Grows s.db.toRows
  cached : s.db.Cached s.caches
  gameTags : s.db.gameTags = start.gameTags
  row : ∃ row, s.db.games = start.games ++ [row] ∧ gameId = toGameId row.id ∧
    row.id = start.nextGameId ∧
    s.db.recordOf row = some { GameRecord.ofGame game with extraTags := [] }

/-- A game with its tags was added since the start, the other games say what they said. -/
structure GameAdded (start : Rows) (game : Game) (gameId : ℕ) (s : CallState moveHash) : Prop where
  grows : start.Grows s.db.toRows
  cached : s.db.Cached s.caches
  row : ∃ row, s.db.games = start.games ++ [row] ∧ row.id = gameId ∧
    s.db.recordOf row = some (.ofGame game)
  others : ∀ row ∈ start.games, row.id ≠ gameId ∧ s.db.recordOf row = start.recordOf row

private theorem eventIdOf_spec (event : Option Event) :
    Ensures (NamesAdded start) (eventIdOf event)
      (fun _ (s : CallState moveHash) => NamesAdded start s ∧ True) (NamesOnly start) := by
  cases event with
  | none => exact Ensures.pure fun _ hs => ⟨hs, trivial⟩
  | some event =>
    exact (findOrInsert_spec .event event).bind fun id => Ensures.pure fun _ hs => ⟨hs.1, trivial⟩

private theorem insertGameRow_eq_ok {raw : Bool} {columns : GameRow} {rows rows' : Rows}
    (h : @insertGameRow moveHash raw columns rows = .ok rows') :
    ∃ identityCollision, rows' = rows.addGame
      { columns with id := rows.nextGameId, identityCollision } := by
  unfold insertGameRow at h
  dsimp only at h
  split_ifs at h
  · exact ⟨columns.identityCollision, (Except.ok.inj h).symm⟩
  · exact ⟨_, (Except.ok.inj h).symm⟩

theorem NamesAdded.addGame {s s' : CallState moveHash} (h : NamesAdded start s)
    (hstart : start.Consistent moveHash) {whiteId blackId : ℕ} {eventId : Option ℕ}
    (hwhite : s.db.nameIn .player whiteId = some game.white.name)
    (hblack : s.db.nameIn .player blackId = some game.black.name) {identityCollision : ℕ}
    (hrows : s'.db.toRows = s.db.addGame { columnsOf game whiteId blackId eventId with
      id := s.db.nextGameId, identityCollision })
    (hcaches : s'.caches = s.caches) :
    RowAdded start game (toGameId s.db.nextGameId) s' := by
  have hnext : s.db.nextGameId = start.nextGameId := by
    rw [Rows.nextGameId, Rows.nextGameId, h.games]
  have hgames : s'.db.games = start.games ++ [{ columnsOf game whiteId blackId eventId with
      id := s.db.nextGameId, identityCollision }] := by
    rw [hrows, ← h.games]
    rfl
  have hids := s'.db.consistent.gameIds
  rw [hgames, List.map_append, List.nodup_append] at hids
  have hnew : s.db.nextGameId ∉ start.games.map GameRow.id := fun hmem =>
    hids.2.2 _ hmem s.db.nextGameId (List.mem_singleton_self _) rfl
  have htags : s'.db.gameTags = start.gameTags := by
    rw [hrows]
    exact h.gameTags
  have hgrows : start.Grows s'.db.toRows := by
    rw [hrows]
    exact h.grows
  refine ⟨hgrows, ?_, htags, _, hgames, rfl, hnext, ?_⟩
  · rw [hrows, hcaches]
    exact h.cached
  · have hwhite' : s'.db.nameIn .player whiteId = some game.white.name := by
      rw [hrows]
      exact hwhite
    have hblack' : s'.db.nameIn .player blackId = some game.black.name := by
      rw [hrows]
      exact hblack
    have hnone : s'.db.extraTagsOf s.db.nextGameId = [] := by
      rw [hstart.extraTagsOf_grows hgrows htags, hstart.extraTagsOf_of_notMem hnew]
    simp only [Rows.recordOf, columnsOf, hwhite', hblack', hnone]
    rfl

theorem insertGame_spec (hstart : start.Consistent moveHash) (raw : Bool) (game : Game) :
    Ensures (NamesAdded start) (insertGame raw game)
      (fun id (s : CallState moveHash) => RowAdded start game id s) (NamesOnly start) := by
  refine (findOrInsert_spec .player game.white).bind fun whiteId => ?_
  refine (carry_names (fun _ => findOrInsert_spec .player game.black)
    (fun s hs => hs.1.cached)
    (fun s s' hs hnames => ⟨hs.1.trans hnames, hnames.grows.nameIn hs.2⟩)
    fun s s' hs hnames => hs.1.toNamesOnly.trans hnames).bind fun blackId => ?_
  refine (carry_names (fun _ => eventIdOf_spec game.eventDetails)
    (fun s hs => hs.1.1.cached)
    (fun s s' hs hnames =>
      ⟨⟨hs.1.1.trans hnames, hnames.grows.nameIn hs.1.2⟩, hnames.grows.nameIn hs.2⟩)
    fun s s' hs hnames => hs.1.1.toNamesOnly.trans hnames).bind fun eventId => ?_
  refine Ensures.read_bind fun id => exec_bind ?_ (Ensures.pure ?_)
  · rintro s s' ⟨⟨⟨⟨hs, -⟩, -⟩, -⟩, -⟩ hdb
    exact hs.congr hdb
  · rintro s ⟨s₀, ⟨⟨⟨⟨hs, hwhite⟩, hblack⟩, -⟩, rfl⟩, hrows, hcaches⟩
    obtain ⟨identityCollision, hadded⟩ := insertGameRow_eq_ok hrows
    exact hs.addGame hstart hwhite hblack hadded hcaches

theorem RowAdded.tagged {s s' : CallState moveHash} {id : ℕ} (h : RowAdded start game id s)
    (hstart : start.Consistent moveHash) (hid : start.nextGameId < 4294967296)
    (htags : TagsAdded s.db.toRows id game.extraTags s') : GameAdded start game id s' := by
  obtain ⟨row, hgames, hrowId, hnext, hrecord⟩ := h.row
  have hsame : row.id = id := by
    rw [hrowId, hnext, toGameId, Nat.mod_eq_of_lt hid]
  have hmem : row ∈ s.db.games := by
    rw [hgames]
    exact List.mem_append_right _ (List.mem_singleton_self _)
  have hids := s.db.consistent.gameIds
  rw [hgames, List.map_append, List.nodup_append] at hids
  refine ⟨h.grows.trans htags.grows, htags.cached,
    ⟨row, htags.games.trans hgames, hsame, ?_⟩, fun other hother => ⟨?_, ?_⟩⟩
  · obtain ⟨white, hwhite, hrest⟩ := Option.bind_eq_some_iff.mp hrecord
    obtain ⟨black, hblack, hrest⟩ := Option.bind_eq_some_iff.mp hrest
    have hnone : s.db.extraTagsOf row.id = [] :=
      congrArg GameRecord.extraTags (Option.some.inj hrest)
    have hadded := htags.extraTagsOf s.db.consistent row.id
    rw [hnone, hsame, if_pos rfl, List.nil_append, ← hsame] at hadded
    rw [Rows.recordOf, htags.grows.nameIn hwhite, htags.grows.nameIn hblack, hadded]
    have hfields := Option.some.inj hrest
    rw [GameRecord.mk.injEq] at hfields
    obtain ⟨h₁, h₂, h₃, h₄, h₅, h₆, h₇, h₈, -⟩ := hfields
    simp only [h₁, h₂, h₃, h₄, h₅, h₆, h₇, h₈]
    rfl
  · rw [← hsame]
    exact hids.2.2 _ (List.mem_map_of_mem hother) row.id (List.mem_singleton_self _)
  · have hne : id ≠ other.id := by
      rw [← hsame]
      exact (hids.2.2 _ (List.mem_map_of_mem hother) row.id (List.mem_singleton_self _)).symm
    have hkept : s'.db.extraTagsOf other.id = start.extraTagsOf other.id := by
      rw [htags.extraTagsOf s.db.consistent, if_neg hne, List.append_nil,
        hstart.extraTagsOf_grows h.grows h.gameTags]
    exact hstart.recordOf_grows (h.grows.trans htags.grows) hother hkept

theorem insertBody_spec (hstart : start.Consistent moveHash) (hid : start.nextGameId < 4294967296)
    (raw : Bool) (game : Game) :
    Ensures (NamesAdded start) (insertBody raw game)
      (fun id (s : CallState moveHash) => GameAdded start game id s)
      (fun s => start.Grows s.db.toRows) := by
  have hgame := (insertGame_spec hstart raw game).mono (fun _ h => h) (fun _ _ h => h)
    fun _ h => h.grows
  refine hgame.bind fun id => Ensures.of_forall fun s hs => ?_
  have htags := @insertGameTags_spec moveHash s.db.toRows id game.extraTags []
  refine (htags.mono ?_ (fun _ _ h => h) ?_).bind fun _ => Ensures.pure fun s' htags => ?_
  · rintro _ rfl
    exact ⟨.refl, hs.cached, rfl, [], (List.append_nil _).symm, rfl⟩
  · exact fun s' hgrows => hs.grows.trans hgrows
  · exact hs.tagged hstart hid htags

end Games

end MotifChess.Db.Store
