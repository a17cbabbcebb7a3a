/- GID: MotifChess/Db/Store/Totality
   generality: implementation
   digest: Statements that SQLite carries out, and the constraints that they cannot break. -/

import MotifChess.Db.Store.Patches

set_option autoImplicit false
set_option relaxedAutoImplicit false

namespace MotifChess.Db.Store

open MotifChess.System Stateful

variable {moveHash : List UInt16 → UInt64} {rows rows' start : Rows} {kind : NameKind} {id : ℕ}

section Ids

private theorem le_foldl_max (ids : List ℕ) (m : ℕ) :
    m ≤ ids.foldl max m ∧ ∀ id ∈ ids, id ≤ ids.foldl max m := by
  induction ids generalizing m with
  | nil => simp
  | cons first ids ih =>
    obtain ⟨hstart, hrest⟩ := ih (max m first)
    rw [List.foldl_cons]
    refine ⟨(le_max_left _ _).trans hstart, ?_⟩
    intro id hid
    rcases List.mem_cons.mp hid with rfl | hid
    · exact (le_max_right _ _).trans hstart
    · exact hrest id hid

theorem Rows.nextRowId_notMem (ids : List ℕ) : Rows.nextRowId ids ∉ ids := by
  intro hmem
  have hle := (le_foldl_max ids 0).2 _ hmem
  unfold Rows.nextRowId at hle
  omega

theorem Rows.Grows.ids_subset (h : rows.Grows rows') (kind : NameKind) :
    rows.ids kind ⊆ rows'.ids kind :=
  List.map_subset _ (h kind).subset

theorem Rows.mem_ids_of_rowOf {row : kind.Row} (h : rows.rowOf kind id = some row) :
    id ∈ rows.ids kind := by
  obtain ⟨found, hfound, -⟩ := Option.map_eq_some_iff.mp h
  refine List.mem_map.mpr ⟨found, List.mem_of_find?_eq_some hfound, ?_⟩
  simpa using List.find?_some hfound

theorem Rows.mem_ids_of_nameIn {name : String} (h : rows.nameIn kind id = some name) :
    id ∈ rows.ids kind := by
  obtain ⟨row, hrow, -⟩ := Option.map_eq_some_iff.mp h
  exact mem_ids_of_rowOf hrow

end Ids

namespace Rows.Consistent

variable (h : rows.Consistent moveHash)

include h

/-- A row under a new name breaks no constraint. -/
theorem insertNamed {row : kind.Row} (hname : rows.idOf kind (kind.nameOf row) = none) :
    (rows.insertNamed kind row).Consistent moveHash := by
  have hgrows : rows.Grows (rows.insertNamed kind row) := .insertNamed row
  have hnamed : (rows.insertNamed kind row).named kind =
      rows.named kind ++ [(rows.nextId kind, row)] := Function.update_self ..
  have hother : ∀ other, other ≠ kind →
      (rows.insertNamed kind row).named other = rows.named other := fun other hne =>
    Function.update_of_ne hne ..
  refine ⟨fun other => ?_, fun other => ?_, h.gameIds, fun row hrow => ?_, fun row hrow id hid => ?_,
    fun tag htag => ?_, h.tagKeys, h.index⟩
  · by_cases hkind : other = kind
    · subst hkind
      rw [Rows.ids, hnamed, List.map_append]
      exact List.Nodup.append (h.ids other) (List.nodup_singleton _)
        (List.disjoint_singleton.mpr (Rows.nextRowId_notMem _))
    · rw [Rows.ids, hother other hkind]
      exact h.ids other
  · by_cases hkind : other = kind
    · subst hkind
      rw [hnamed, List.map_append]
      refine List.Nodup.append (h.names other) (List.nodup_singleton _)
        (List.disjoint_singleton.mpr fun hmem => ?_)
      obtain ⟨⟨id, found⟩, hfound, hsame⟩ := List.mem_map.mp hmem
      have hid := h.idOf_of_mem hfound
      dsimp only at hsame
      rw [hsame, hname] at hid
      contradiction
    · rw [hother other hkind]
      exact h.names other
  · exact ⟨hgrows.ids_subset _ (h.players row hrow).1, hgrows.ids_subset _ (h.players row hrow).2⟩
  · exact hgrows.ids_subset _ (h.events row hrow id hid)
  · exact ⟨(h.tagged tag htag).1, hgrows.ids_subset _ (h.tagged tag htag).2⟩

theorem addGame_of_empty {row : GameRow} (hgames : rows.games = [])
    (hplayers : row.whiteId ∈ rows.ids .player ∧ row.blackId ∈ rows.ids .player)
    (hevents : ∀ id ∈ row.eventId, id ∈ rows.ids .event) :
    (rows.addGame row).Consistent moveHash := by
  have hone : (rows.addGame row).games = [row] := by
    rw [Rows.addGame, hgames]
    rfl
  refine ⟨h.ids, h.names, ?_, ?_, ?_, ?_, h.tagKeys, fun _ => ?_⟩
  · rw [hone]
    exact List.nodup_singleton _
  · rw [hone]
    intro other hother
    obtain rfl := List.mem_singleton.mp hother
    exact hplayers
  · rw [hone]
    intro other hother
    obtain rfl := List.mem_singleton.mp hother
    exact hevents
  · intro tag htag
    have hnone := (h.tagged tag htag).1
    rw [hgames] at hnone
    cases hnone
  · rw [hone]
    exact List.nodup_singleton _

theorem insertGameTag {tag : GameTagRow} (hgame : tag.gameId ∈ rows.games.map GameRow.id)
    (htag : tag.tagId ∈ rows.ids .tag)
    (hnew : ∀ other ∈ rows.gameTags, other.gameId = tag.gameId → other.tagId ≠ tag.tagId) :
    (rows.insertGameTag tag).Consistent moveHash where
  ids := h.ids
  names := h.names
  gameIds := h.gameIds
  players := h.players
  events := h.events
  tagged := by
    intro other hother
    rcases List.mem_append.mp hother with hother | hother
    · exact h.tagged other hother
    · obtain rfl := List.mem_singleton.mp hother
      exact ⟨hgame, htag⟩
  tagKeys := by
    rw [Rows.insertGameTag, List.map_append]
    refine List.Nodup.append h.tagKeys (List.nodup_singleton _)
      (List.disjoint_singleton.mpr fun hmem => ?_)
    obtain ⟨other, hother, hsame⟩ := List.mem_map.mp hmem
    obtain ⟨hgameId, htagId⟩ := Prod.mk.inj hsame
    exact hnew other hother hgameId htagId
  index := h.index

theorem deleteGameTags (name : String) :
    (rows.deleteGameTags id name).Consistent moveHash where
  ids := h.ids
  names := h.names
  gameIds := h.gameIds
  players := h.players
  events := h.events
  tagged := fun tag htag => h.tagged tag (List.mem_of_mem_filter htag)
  tagKeys := h.tagKeys.sublist (List.filter_sublist.map _)
  index := h.index

/-- The update of a game row that keeps its id, that refers to rows that are there and whose index
entry no other game has. -/
theorem updateGame {change : GameRow → GameRow} (hid : ∀ row, (change row).id = row.id)
    (hplayers : ∀ row ∈ rows.games, row.id = id →
      (change row).whiteId ∈ rows.ids .player ∧ (change row).blackId ∈ rows.ids .player)
    (hevents : ∀ row ∈ rows.games, row.id = id →
      ∀ eventId ∈ (change row).eventId, eventId ∈ rows.ids .event)
    (hindex : rows.identityIndex = true → ∀ row ∈ rows.games, row.id = id →
      ∀ other ∈ rows.games, other.id ≠ id →
        (other.slot moveHash, other.identityCollision) ≠
          ((change row).slot moveHash, (change row).identityCollision)) :
    (rows.updateGame id change).Consistent moveHash := by
  have hids : (rows.updateGame id change).games.map GameRow.id = rows.games.map GameRow.id := by
    rw [Rows.updateGame, List.map_map]
    refine List.map_congr_left fun row _ => ?_
    dsimp only [Function.comp]
    split
    · exact hid row
    · rfl
  refine ⟨h.ids, h.names, hids ▸ h.gameIds, ?_, ?_, fun tag htag => ?_, h.tagKeys,
    fun hexists => ?_⟩
  · intro row hrow
    obtain ⟨before, hbefore, rfl⟩ := List.mem_map.mp hrow
    split
    next hsame => exact hplayers before hbefore hsame
    next => exact h.players before hbefore
  · intro row hrow
    obtain ⟨before, hbefore, rfl⟩ := List.mem_map.mp hrow
    split
    next hsame => exact hevents before hbefore hsame
    next => exact h.events before hbefore
  · rw [hids]
    exact h.tagged tag htag
  · have hentries := List.pairwise_map.mp (h.index hexists)
    have hdistinct := List.pairwise_map.mp h.gameIds
    rw [Rows.updateGame, List.map_map, List.Nodup, List.pairwise_map]
    refine (hentries.and hdistinct).imp_of_mem ?_
    rintro a b ha hb ⟨hentry, hne⟩
    dsimp only [Function.comp]
    by_cases haid : a.id = id
    · have hbid : b.id ≠ id := fun hbid => hne (haid.trans hbid.symm)
      rw [if_pos haid, if_neg hbid]
      exact (hindex hexists a ha haid b hb hbid).symm
    · rw [if_neg haid]
      by_cases hbid : b.id = id
      · rw [if_pos hbid]
        exact hindex hexists b hb hbid a ha haid
      · rw [if_neg hbid]
        exact hentry

end Rows.Consistent

section Statements

variable {P Q : CallState moveHash → Prop} {change : Rows → Result Rows} {α : Type}

/-- No statement to come fails on its own. -/
def CallState.Works (s : CallState moveHash) : Prop := s.works = []

theorem CallState.Works.nextWorks {s : CallState moveHash} (h : s.Works) : s.nextWorks = true := by
  rw [CallState.nextWorks, h]
  rfl

theorem CallState.Works.passed {s : CallState moveHash} (h : s.Works) : s.passed.Works := by
  rw [CallState.Works, CallState.passed, h]
  rfl

theorem exec_total (h : ∀ s, P s → s.Works ∧ ∃ rows, change s.db.toRows = .ok rows ∧
    rows.Consistent moveHash ∧ ∀ s', s'.db.toRows = rows → s'.caches = s.caches → s'.Works → Q s') :
    Ensures P (exec change) (fun _ => Q) (fun _ => False) := by
  intro s hs
  obtain ⟨hworks, rows, hrows, hconsistent, hQ⟩ := h s hs
  unfold exec
  rw [if_neg (by simp [hworks.nextWorks]), hrows]
  dsimp only
  rw [dif_pos hconsistent]
  exact hQ _ rfl rfl hworks.passed

private theorem exec_works : Ensures CallState.Works (exec change)
    (fun _ (s : CallState moveHash) => s.Works) (fun _ => True) := by
  intro s hs
  unfold exec
  rw [if_neg (by simp [hs.nextWorks])]
  cases change s.db.toRows with
  | error e => trivial
  | ok rows =>
    dsimp only
    split_ifs
    · exact hs.passed
    · trivial

private theorem remember_works (kind : NameKind) (name : String) (id : ℕ) :
    Ensures CallState.Works (do remember kind name id; return id)
      (fun _ (s : CallState moveHash) => s.Works) (fun _ => False) :=
  Ensures.bind (Q := fun _ s => s.Works) (Ensures.modify fun _ hs => hs)
    fun _ => Ensures.pure fun _ hs => hs

theorem findOrInsert_total (kind : NameKind) (row : kind.Row) :
    Ensures CallState.Works (findOrInsert kind row)
      (fun _ (s : CallState moveHash) => s.Works) (fun _ => False) := by
  refine Ensures.read_bind fun cached => ?_
  cases cached with
  | some id => exact Ensures.pure fun s hs => hs.1
  | none =>
    refine Ensures.read_bind fun found => ?_
    cases found with
    | some id => exact (remember_works kind _ id).mono (fun s hs => hs.1.1) (fun _ _ h => h) fun _ h => h
    | none =>
      refine Ensures.read_bind fun id => Ensures.bind (exec_total ?_) fun _ =>
        remember_works kind _ id
      rintro s ⟨⟨⟨hworks, -⟩, hnone⟩, -⟩
      exact ⟨hworks, _, rfl, s.db.consistent.insertNamed hnone, fun s' _ _ hworks' => hworks'⟩

end Statements

section Inserts

variable {game : Game} {gameId : ℕ} {tags : List (String × String)}

/-- The tags of a game that is there have none of the names that are to come. -/
structure Taggable (gameId : ℕ) (names : List String) (s : CallState moveHash) : Prop where
  game : gameId ∈ s.db.games.map GameRow.id
  cached : s.db.Cached s.caches
  fresh : ∀ tag ∈ s.db.gameTags, tag.gameId = gameId →
    ∀ name ∈ names, s.db.nameIn .tag tag.tagId ≠ some name

theorem Taggable.names {names : List String} {s s' : CallState moveHash}
    (h : Taggable gameId names s) (hnames : NamesAdded s.db.toRows s') :
    Taggable gameId names s' where
  game := hnames.games ▸ h.game
  cached := hnames.cached
  fresh := by
    intro tag htag hgame name hname hsame
    rw [hnames.gameTags] at htag
    obtain ⟨found, hfound⟩ := s.db.consistent.nameIn_isSome (s.db.consistent.tagged tag htag).2
    rw [hnames.grows.nameIn hfound] at hsame
    exact h.fresh tag htag hgame name hname (hfound.trans hsame)

theorem insertGameTags_total (hnames : (tags.map Prod.fst).Nodup) :
    Ensures (fun s : CallState moveHash => Taggable gameId (tags.map Prod.fst) s ∧ s.Works)
      (insertGameTags gameId tags) (fun _ s => s.Works) (fun _ => False) := by
  induction tags with
  | nil => exact Ensures.pure fun _ hs => hs.2
  | cons tag tags ih =>
    obtain ⟨name, value⟩ := tag
    obtain ⟨hname, hnames⟩ := List.nodup_cons.mp hnames
    have hfound : Ensures
        (fun s : CallState moveHash => Taggable gameId (name :: tags.map Prod.fst) s ∧ s.Works)
        (findOrInsertTag name)
        (fun tagId s => (Taggable gameId (name :: tags.map Prod.fst) s ∧
          s.db.nameIn .tag tagId = some name) ∧ s.Works) (fun s => True ∧ False) :=
      (carry_names (fun _ => findOrInsert_spec .tag name) (fun s hs => hs.cached)
        (fun s s' hs hadded => hs.names hadded) fun _ _ _ _ => trivial).and
        (findOrInsert_total .tag name)
    refine (hfound.mono (fun _ h => h) (fun _ _ h => h) fun _ h => h.2).bind fun tagId =>
      Ensures.bind (exec_total ?_) fun _ => ih hnames
    rintro s ⟨⟨htaggable, htagId⟩, hworks⟩
    refine ⟨hworks, _, rfl, s.db.consistent.insertGameTag htaggable.game
      (Rows.mem_ids_of_nameIn htagId) ?_, fun s' hrows hcaches hworks' => ⟨?_, hworks'⟩⟩
    · intro other hother hgame hsame
      refine htaggable.fresh other hother hgame name (List.mem_cons_self ..) ?_
      rw [hsame]
      exact htagId
    · refine ⟨?_, ?_, ?_⟩
      · rw [hrows]
        exact htaggable.game
      · rw [hrows, hcaches]
        exact htaggable.cached
      · rw [hrows]
        intro other hother hgame later hlater
        rcases List.mem_append.mp hother with hother | hother
        · exact htaggable.fresh other hother hgame later (List.mem_cons_of_mem _ hlater)
        · obtain rfl := List.mem_singleton.mp hother
          intro hsame
          have hsame' : some name = some later := htagId.symm.trans hsame
          exact hname (Option.some.inj hsame' ▸ hlater)

private theorem insertGame_works (raw : Bool) (game : Game) :
    Ensures CallState.Works (insertGame raw game)
      (fun _ (s : CallState moveHash) => s.Works) (fun _ => True) := by
  have hname := fun kind (row : NameKind.Row kind) =>
    (@findOrInsert_total moveHash kind row).mono (fun _ h => h) (fun _ _ h => h)
      fun _ h => (h.elim : True)
  refine (hname .player game.white).bind fun whiteId =>
    (hname .player game.black).bind fun blackId => Ensures.bind (Q := fun _ s => s.Works) ?_
      fun eventId => Ensures.read_bind fun id => ?_
  · cases game.eventDetails with
    | none => exact Ensures.pure fun _ hs => hs
    | some event => exact (hname .event event).bind fun id => Ensures.pure fun _ hs => hs
  · exact (exec_works.mono (fun s hs => hs.1) (fun _ _ h => h) fun _ h => h).bind
      fun _ => Ensures.pure fun _ hs => hs

theorem insertBody_safe (hstart : start.Consistent moveHash)
    (hid : start.nextGameId < 4294967296) (raw : Bool)
    (hnames : (game.extraTags.map Prod.fst).Nodup) :
    Ensures (fun s : CallState moveHash => NamesAdded start s ∧ s.Works) (insertBody raw game)
      (fun _ _ => True) (NamesOnly start) := by
  have hgame := ((insertGame_spec hstart raw game).and (insertGame_works raw game)).mono
    (fun _ h => h) (fun _ _ h => h) fun _ h => h.1
  refine hgame.bind fun gameId => ((insertGameTags_total hnames).mono ?_ (fun _ _ h => h)
    fun _ h => h.elim).bind fun _ => Ensures.pure fun _ _ => trivial
  rintro s ⟨hrow, hworks⟩
  obtain ⟨row, hgames, hrowId, hnext, -⟩ := hrow.row
  have hsame : gameId = start.nextGameId := by
    rw [hrowId, hnext, toGameId, Nat.mod_eq_of_lt hid]
  refine ⟨⟨?_, hrow.cached, ?_⟩, hworks⟩
  · rw [hgames, hsame, ← hnext]
    simp
  · intro tag htag htagGame
    rw [hrow.gameTags] at htag
    have hmem := (hstart.tagged tag htag).1
    rw [htagGame, hsame] at hmem
    exact absurd hmem (Rows.nextRowId_notMem _)

end Inserts

section Patches

/-- While the unique index exists, no other game has the move hash and the collision number of the
game, so that none can have its index entry. -/
def Lone (moveHash : List UInt16 → UInt64) (id : ℕ) (rows : Rows) : Prop :=
  rows.identityIndex = true → ∀ row ∈ rows.games, row.id = id → ∀ other ∈ rows.games,
    other.id ≠ id → moveHash other.moves = moveHash row.moves →
      other.identityCollision ≠ row.identityCollision

instance : Decidable (Lone moveHash id rows) := by
  unfold Lone
  infer_instance

/-- The patch sets a column of the unique index. -/
def touchesIdentity (patch : GamePatch) : Bool :=
  patch.whiteName.isSome || patch.blackName.isSome || patch.event.isSome || patch.site.isSome ||
    patch.date.isSome || patch.result.isSome

/-- The game is there, and it is alone if columns of the index will be set. -/
structure Patchable (id : ℕ) (touches : Bool) (s : CallState moveHash) : Prop where
  game : id ∈ s.db.games.map GameRow.id
  cached : s.db.Cached s.caches
  lone : touches = true → Lone moveHash id s.db.toRows

variable {touches : Bool} {P : CallState moveHash → Prop} {change : GameRow → GameRow}

theorem Patchable.names {s s' : CallState moveHash} (h : Patchable id touches s)
    (hnames : NamesAdded s.db.toRows s') : Patchable id touches s' where
  game := hnames.games ▸ h.game
  cached := hnames.cached
  lone := by
    intro htouches
    have hlone := h.lone htouches
    unfold Lone at hlone ⊢
    rw [hnames.identityIndex, hnames.games]
    exact hlone

/-- An update of other columns than the id, the moves and the collision number. -/
structure KeepsGame (change : GameRow → GameRow) : Prop where
  id : ∀ row, (change row).id = row.id
  moves : ∀ row, (change row).moves = row.moves
  identityCollision : ∀ row, (change row).identityCollision = row.identityCollision

/-- An update of other columns than the players and the event. -/
structure KeepsNames (change : GameRow → GameRow) : Prop where
  white : ∀ row, (change row).whiteId = row.whiteId
  black : ∀ row, (change row).blackId = row.blackId
  event : ∀ row, (change row).eventId = row.eventId

/-- An update that keeps its index entry if nothing else protects it, and refers to rows that
are there. -/
structure Admissible (touches : Bool) (change : GameRow → GameRow) (s : CallState moveHash) :
    Prop extends KeepsGame change where
  slot : touches = true ∨ ∀ row, (change row).slot moveHash = row.slot moveHash
  players : ∀ row ∈ s.db.games, (change row).whiteId ∈ s.db.ids .player ∧
    (change row).blackId ∈ s.db.ids .player
  events : ∀ row ∈ s.db.games, ∀ eventId ∈ (change row).eventId, eventId ∈ s.db.ids .event

theorem Patchable.updateGame {s s' : CallState moveHash} (h : Patchable id touches s)
    (hchange : Admissible touches change s) (hrows : s'.db.toRows = s.db.updateGame id change)
    (hcaches : s'.caches = s.caches) : Patchable id touches s' := by
  have hkept : ∀ row : GameRow, (if row.id = id then change row else row).id = row.id ∧
      (if row.id = id then change row else row).moves = row.moves ∧
      (if row.id = id then change row else row).identityCollision = row.identityCollision := by
    intro row
    split
    · exact ⟨hchange.id row, hchange.moves row, hchange.identityCollision row⟩
    · exact ⟨rfl, rfl, rfl⟩
  refine ⟨?_, ?_, fun htouches => ?_⟩
  · rw [hrows]
    obtain ⟨row, hrow, hid⟩ := List.mem_map.mp h.game
    exact List.mem_map.mpr ⟨_, List.mem_map_of_mem hrow, (hkept row).1.trans hid⟩
  · rw [hrows, hcaches]
    exact h.cached
  · have hlone := h.lone htouches
    rw [hrows]
    intro hindex row hrow hid other hother hother' hhash
    obtain ⟨before, hbefore, rfl⟩ := List.mem_map.mp hrow
    obtain ⟨before', hbefore', rfl⟩ := List.mem_map.mp hother
    rw [(hkept before).1] at hid
    rw [(hkept before').1] at hother'
    rw [(hkept before).2.1, (hkept before').2.1] at hhash
    rw [(hkept before).2.2, (hkept before').2.2]
    exact hlone hindex before hbefore hid before' hbefore' hother' hhash

private theorem updateGame_total (h : ∀ s, P s → Patchable id touches s ∧ Admissible touches change s ∧
    s.Works) : Ensures P (updateGame id change) (fun _ s => Patchable id touches s ∧ s.Works)
      (fun _ => False) := by
  refine exec_total fun s hs => ?_
  obtain ⟨hpatchable, hchange, hworks⟩ := h s hs
  refine ⟨hworks, _, rfl, s.db.consistent.updateGame hchange.id (fun row hrow _ =>
    hchange.players row hrow) (fun row hrow _ => hchange.events row hrow) ?_,
    fun s' hrows hcaches hworks' => ⟨hpatchable.updateGame hchange hrows hcaches, hworks'⟩⟩
  intro hindex row hrow hid other hother hother' hsame
  obtain ⟨hslot, hcollision⟩ := Prod.mk.inj hsame
  rw [hchange.identityCollision] at hcollision
  rcases hchange.slot with htouches | hkept
  · refine hpatchable.lone htouches hindex row hrow hid other hother hother' ?_ hcollision
    have hhash := congrArg Slot.moveHash hslot
    simpa only [GameRow.slot, hchange.moves] using hhash
  · rw [hkept] at hslot
    have hentry := List.inj_on_of_nodup_map (s.db.consistent.index hindex) hother hrow
      (Prod.ext hslot hcollision)
    exact hother' (hentry ▸ hid)

private theorem updateField_total {α : Type} {value : Option α} {set : α → GameRow → GameRow}
    (hgame : ∀ a, KeepsGame (set a)) (hnames : ∀ a, KeepsNames (set a))
    (hslot : value.isSome = true → touches = true ∨
      ∀ a row, (set a row).slot moveHash = row.slot moveHash) :
    Ensures (fun s : CallState moveHash => Patchable id touches s ∧ s.Works)
      (updateField id value set) (fun _ s => Patchable id touches s ∧ s.Works)
      (fun _ => False) := by
  cases value with
  | none => exact Ensures.pure fun _ hs => hs
  | some a =>
    refine updateGame_total fun s ⟨hs, hworks⟩ => ⟨hs, ⟨hgame a, ?_, ?_, ?_⟩, hworks⟩
    · exact (hslot rfl).imp_right fun h => h a
    · intro row hrow
      rw [(hnames a).white, (hnames a).black]
      exact s.db.consistent.players row hrow
    · intro row hrow
      rw [(hnames a).event]
      exact s.db.consistent.events row hrow

private theorem findOrInsert_patchable (kind : NameKind) (row : kind.Row) :
    Ensures (fun s : CallState moveHash => Patchable id touches s ∧ s.Works)
      (findOrInsert kind row) (fun rowId s => (Patchable id touches s ∧
        s.db.nameIn kind rowId = some (kind.nameOf row)) ∧ s.Works) (fun _ => False) :=
  ((carry_names (fun _ => findOrInsert_spec kind row) (fun _ hs => hs.cached)
    (fun _ _ hs hadded => hs.names hadded) fun _ _ _ _ => (trivial : True)).and
    (findOrInsert_total kind row)).mono (fun _ h => h) (fun _ _ h => h) fun _ h => h.2

private theorem patchPlayer_total {setId : ℕ → GameRow → GameRow} {setElo : Int32 → GameRow → GameRow}
    (hsetElo : ∀ elo, KeepsGame (setElo elo)) (hnames : ∀ elo, KeepsNames (setElo elo))
    (hslot : ∀ elo row, (setElo elo row).slot moveHash = row.slot moveHash)
    (hsetId : ∀ playerId, KeepsGame (setId playerId))
    (hwhite : ∀ playerId row,
      (setId playerId row).whiteId = playerId ∨ (setId playerId row).whiteId = row.whiteId)
    (hblack : ∀ playerId row,
      (setId playerId row).blackId = playerId ∨ (setId playerId row).blackId = row.blackId)
    (hevent : ∀ playerId row, (setId playerId row).eventId = row.eventId)
    (current : Player) {name : Option String} (elo : Option Int32)
    (htouches : name.isSome = true → touches = true) :
    Ensures (fun s : CallState moveHash => Patchable id touches s ∧ s.Works)
      (patchPlayer id setId setElo current name elo)
      (fun _ s => Patchable id touches s ∧ s.Works) (fun _ => False) := by
  refine (updateField_total hsetElo hnames fun _ => .inr hslot).bind fun _ => ?_
  cases name with
  | none => exact Ensures.pure fun _ hs => hs
  | some name =>
    refine (findOrInsert_patchable .player { current with name }).bind fun playerId =>
      updateGame_total fun s ⟨⟨hs, hname⟩, hworks⟩ =>
        ⟨hs, ⟨hsetId playerId, .inl (htouches rfl), ?_, ?_⟩, hworks⟩
    · intro row hrow
      have hid := Rows.mem_ids_of_nameIn hname
      obtain ⟨hwhite', hblack'⟩ := s.db.consistent.players row hrow
      refine ⟨(hwhite playerId row).elim ?_ ?_, (hblack playerId row).elim ?_ ?_⟩
      · exact fun hsame => by rwa [hsame]
      · exact fun hsame => by rwa [hsame]
      · exact fun hsame => by rwa [hsame]
      · exact fun hsame => by rwa [hsame]
    · intro row hrow
      rw [hevent]
      exact s.db.consistent.events row hrow

private theorem patchEvent_total (current : Option Event) (event site : Option String)
    (htouches : touches = true) :
    Ensures (fun s : CallState moveHash => Patchable id touches s ∧ s.Works)
      (patchEvent id current event site)
      (fun _ s => Patchable id touches s ∧ s.Works) (fun _ => False) := by
  unfold patchEvent
  by_cases hname : event.getD (current.elim "" Event.name) = ""
  · rw [if_pos hname]
    exact Ensures.pure fun _ hs => hs
  · rw [if_neg hname]
    refine (findOrInsert_patchable .event _).bind fun eventId =>
      updateGame_total fun s ⟨⟨hs, hevent⟩, hworks⟩ => ⟨hs, ?_, hworks⟩
    refine ⟨⟨fun _ => rfl, fun _ => rfl, fun _ => rfl⟩, .inl htouches,
      fun row hrow => s.db.consistent.players row hrow, fun row hrow eventId' hid => ?_⟩
    obtain rfl := Option.some.inj hid
    exact Rows.mem_ids_of_nameIn hevent

variable {patch : GamePatch}

private theorem patchScalars_total (htouches : patch.date.isSome = true ∨ patch.result.isSome = true →
    touches = true) :
    Ensures (fun s : CallState moveHash => Patchable id touches s ∧ s.Works)
      (patchScalars id patch) (fun _ s => Patchable id touches s ∧ s.Works) (fun _ => False) := by
  unfold patchScalars
  refine (updateField_total ?_ ?_ fun hdate => .inl (htouches (.inl hdate))).bind
    fun _ => (updateField_total ?_ ?_ fun hresult => .inl (htouches (.inr hresult))).bind
    fun _ => (updateField_total ?_ ?_ ?_).bind fun _ => (updateField_total ?_ ?_ ?_).bind
    fun _ => updateField_total ?_ ?_ ?_
  all_goals first
    | exact fun _ => ⟨fun _ => rfl, fun _ => rfl, fun _ => rfl⟩
    | exact fun _ => .inr fun _ _ => rfl

private theorem patchNotes_total (notes : Option String) :
    Ensures (fun s : CallState moveHash => Patchable id touches s ∧ s.Works)
      (patchNotes id notes) (fun _ _ => True) (fun _ => False) := by
  cases notes with
  | none => exact Ensures.pure fun _ _ => trivial
  | some notes =>
    refine Ensures.bind (Q := fun _ s => Taggable id ["_notes"] s ∧ s.Works)
      (exec_total fun s ⟨hs, hworks⟩ => ?_) fun _ => ?_
    · refine ⟨hworks, _, rfl, s.db.consistent.deleteGameTags "_notes",
        fun s' hrows hcaches hworks' => ⟨⟨?_, ?_, ?_⟩, hworks'⟩⟩
      · rw [hrows]
        exact hs.game
      · rw [hrows, hcaches]
        exact hs.cached
      · rw [hrows]
        intro tag htag hgame name hname hsame
        obtain rfl := List.mem_singleton.mp hname
        obtain ⟨htag, hkept⟩ := List.mem_filter.mp htag
        simp [hgame, s.db.consistent.idOf_of_nameIn hsame] at hkept
    · by_cases hempty : notes = ""
      · rw [if_pos hempty]
        exact Ensures.pure fun _ _ => trivial
      · rw [if_neg hempty]
        have hnames : ([("_notes", notes)].map Prod.fst).Nodup := List.nodup_singleton _
        exact (insertGameTags_total hnames).mono (fun _ h => h) (fun _ _ _ => trivial) fun _ h => h

private theorem patchJoined_total (current : Game) : Ensures
    (fun s : CallState moveHash => Patchable id (touchesIdentity patch) s ∧ s.Works)
    (patchJoined id patch current)
    (fun _ s => Patchable id (touchesIdentity patch) s ∧ s.Works) (fun _ => False) := by
  unfold patchJoined
  have hwhite : patch.whiteName.isSome = true → touchesIdentity patch = true := fun h => by
    simp [touchesIdentity, h]
  have hblack : patch.blackName.isSome = true → touchesIdentity patch = true := fun h => by
    simp [touchesIdentity, h]
  have hevent : Ensures
      (fun s : CallState moveHash => Patchable id (touchesIdentity patch) s ∧ s.Works)
      (if (patch.event.isSome || patch.site.isSome) = true then
        patchEvent id current.eventDetails patch.event patch.site
      else Pure.pure () : Call moveHash Unit)
      (fun _ s => Patchable id (touchesIdentity patch) s ∧ s.Works) (fun _ => False) := by
    split
    next hevent =>
      refine patchEvent_total _ _ _ ?_
      rcases Bool.or_eq_true_iff.mp hevent with h | h <;> simp [touchesIdentity, h]
    next => exact Ensures.pure fun _ hs => hs
  refine (patchPlayer_total ?_ ?_ ?_ ?_ ?_ ?_ ?_ _ _ hwhite).bind fun _ =>
    (patchPlayer_total ?_ ?_ ?_ ?_ ?_ ?_ ?_ _ _ hblack).bind fun _ => hevent
  all_goals first
    | exact fun _ => ⟨fun _ => rfl, fun _ => rfl, fun _ => rfl⟩
    | exact fun _ _ => rfl
    | exact fun _ _ => .inl rfl
    | exact fun _ _ => .inr rfl

theorem patchBody_total : Ensures
    (fun s : CallState moveHash => Patchable id (touchesIdentity patch) s ∧ s.Works)
    (patchBody id patch) (fun _ _ => True) (fun _ => False) := by
  have hrest : Ensures
      (fun s : CallState moveHash => Patchable id (touchesIdentity patch) s ∧ s.Works)
      (do patchScalars id patch; patchNotes id patch.notes) (fun _ _ => True) (fun _ => False) := by
    refine (patchScalars_total fun htouches => ?_).bind fun _ => patchNotes_total patch.notes
    rcases htouches with h | h <;> simp [touchesIdentity, h]
  unfold patchBody
  by_cases hneeds : needsGame patch
  · simp only [if_pos hneeds]
    refine Ensures.read_bind fun game => ?_
    cases game with
    | error e =>
      rintro s ⟨⟨hs, -⟩, hget⟩
      obtain ⟨row, hrow, rfl⟩ := List.mem_map.mp hs.game
      obtain ⟨game, -, hgame, -⟩ := s.db.consistent.get_of_mem hrow
      rw [hgame] at hget
      contradiction
    | ok current =>
      exact ((patchJoined_total current).mono (fun _ h => h.1) (fun _ _ h => h) fun _ h => h).bind
        fun _ => hrest
  · simp only [if_neg hneeds]
    exact hrest

end Patches

end MotifChess.Db.Store
