/- GID: MotifChess/Db/Store/Records
   generality: implementation
   digest: What a stored game says by names, and what keeps it as the name tables grow. -/

import MotifChess.Db.Store.GameStore

set_option autoImplicit false
set_option relaxedAutoImplicit false

namespace MotifChess.Db.Store

open MotifChess.Codec

/-- What an insert says about a game: names, ratings, date, result, moves and extra tags. -/
structure GameRecord where
  white : String
  black : String
  whiteElo : Option Int32
  blackElo : Option Int32
  date : Option String
  result : String
  eco : Option String
  moves : List UInt16
  extraTags : List (String × String)
  deriving DecidableEq

def GameRecord.ofGame (game : Game) : GameRecord where
  white := game.white.name
  black := game.black.name
  whiteElo := game.white.elo
  blackElo := game.black.elo
  date := game.date
  result := game.result
  eco := game.eco
  moves := game.moves
  extraTags := game.extraTags

/-- A record as it is read back: every text ends at its first NUL. -/
def GameRecord.read (record : GameRecord) : GameRecord where
  white := cString record.white
  black := cString record.black
  whiteElo := record.whiteElo
  blackElo := record.blackElo
  date := record.date.map cString
  result := cString record.result
  eco := record.eco.map cString
  moves := record.moves
  extraTags := record.extraTags.map (Prod.map cString cString)

namespace Rows

/-- The name that an id stands for. -/
def nameIn (kind : NameKind) (id : ℕ) (rows : Rows) : Option String :=
  (rows.rowOf kind id).map kind.nameOf

/-- A game row by names. -/
def recordOf (row : GameRow) (rows : Rows) : Option GameRecord := do
  let white ← rows.nameIn .player row.whiteId
  let black ← rows.nameIn .player row.blackId
  return {
    white, black
    whiteElo := row.whiteElo
    blackElo := row.blackElo
    date := row.date
    result := row.result
    eco := row.eco
    moves := row.moves
    extraTags := rows.extraTagsOf row.id }

/-- The name tables only got new rows. -/
def Grows (rows rows' : Rows) : Prop := ∀ kind, rows.named kind <+: rows'.named kind

/-- Every id in the caches stands for the name that it is remembered by. -/
def Cached (rows : Rows) (caches : IdCaches) : Prop :=
  ∀ kind, ∀ entry ∈ caches kind, rows.nameIn kind entry.2 = some entry.1

instance {rows : Rows} {caches : IdCaches} : Decidable (rows.Cached caches) := by
  unfold Cached
  infer_instance

end Rows

theorem IdCaches.find_emplace (kind : NameKind) (name : String) (id : ℕ) (caches : IdCaches)
    (other : String) : (caches.emplace kind name id).find kind other =
      if name = other then some id else caches.find kind other := by
  unfold IdCaches.find IdCaches.emplace
  rw [Function.update_self, List.find?_cons]
  by_cases hname : name = other <;> simp [hname]

section Growing

variable {moveHash : List UInt16 → UInt64} {rows rows' rows'' : Rows} {kind : NameKind} {id : ℕ}

namespace Rows

theorem Grows.refl : Grows rows rows := fun _ => List.prefix_rfl

theorem Grows.trans (h : Grows rows rows') (h' : Grows rows' rows'') : Grows rows rows'' :=
  fun kind => (h kind).trans (h' kind)

theorem Grows.of_named (h : rows'.named = rows.named) : Grows rows rows' := by
  intro kind
  rw [h]

theorem Grows.insertNamed (row : kind.Row) : Grows rows (rows.insertNamed kind row) := by
  intro kind'
  by_cases hkind : kind' = kind
  · subst hkind
    simp only [Rows.insertNamed, Function.update_self]
    exact List.prefix_append _ _
  · simp only [Rows.insertNamed, Function.update_of_ne hkind]
    exact List.prefix_rfl

theorem Grows.rowOf (h : Grows rows rows') {row : kind.Row} (hrow : rows.rowOf kind id = some row) :
    rows'.rowOf kind id = some row := by
  obtain ⟨found, hfound, rfl⟩ := Option.map_eq_some_iff.mp hrow
  obtain ⟨more, hmore⟩ := h kind
  rw [Rows.rowOf, ← hmore, List.find?_append, hfound]
  rfl

theorem Grows.nameIn (h : Grows rows rows') {name : String}
    (hname : rows.nameIn kind id = some name) : rows'.nameIn kind id = some name := by
  obtain ⟨row, hrow, rfl⟩ := Option.map_eq_some_iff.mp hname
  rw [Rows.nameIn, h.rowOf hrow, Option.map_some]

theorem Grows.recordOf (h : Grows rows rows') {row : GameRow} {record : GameRecord}
    (hrecord : rows.recordOf row = some record) :
    rows'.recordOf row = some { record with extraTags := rows'.extraTagsOf row.id } := by
  obtain ⟨white, hwhite, hrest⟩ := Option.bind_eq_some_iff.mp hrecord
  obtain ⟨black, hblack, hrest⟩ := Option.bind_eq_some_iff.mp hrest
  obtain rfl := Option.some.inj hrest
  rw [Rows.recordOf, h.nameIn hwhite, h.nameIn hblack]
  rfl

theorem Cached.grows {caches : IdCaches} (h : Cached rows caches) (hgrows : Grows rows rows') :
    Cached rows' caches := fun kind entry hentry => hgrows.nameIn (h kind entry hentry)

theorem cached_empty : Cached rows .empty := nofun

theorem Cached.find {caches : IdCaches} (h : Cached rows caches) {name : String}
    (hid : caches.find kind name = some id) : rows.nameIn kind id = some name := by
  obtain ⟨entry, hentry, rfl⟩ := Option.map_eq_some_iff.mp hid
  have hname : entry.1 = name := by simpa using List.find?_some hentry
  rw [← hname]
  exact h kind entry (List.mem_of_find?_eq_some hentry)

theorem Cached.emplace {caches : IdCaches} (h : Cached rows caches) {name : String}
    (hname : rows.nameIn kind id = some name) : Cached rows (caches.emplace kind name id) := by
  intro kind' entry hentry
  unfold IdCaches.emplace at hentry
  by_cases hkind : kind' = kind
  · subst hkind
    rw [Function.update_self] at hentry
    rcases List.mem_cons.mp hentry with rfl | hentry
    · exact hname
    · exact h kind' entry hentry
  · rw [Function.update_of_ne hkind] at hentry
    exact h kind' entry hentry

end Rows

theorem find?_of_nodup_keys {α κ : Type} [DecidableEq κ] {key : α → κ} {l : List α}
    (hkeys : (l.map key).Nodup) {a : α} (ha : a ∈ l) :
    (l.find? fun other => key other = key a) = some a := by
  have hfound : (l.find? fun other => key other = key a).isSome := by
    rw [List.find?_isSome]
    exact ⟨a, ha, by simp⟩
  obtain ⟨found, hfound⟩ := Option.isSome_iff_exists.mp hfound
  have hkey : key found = key a := by simpa using List.find?_some hfound
  rw [hfound, List.inj_on_of_nodup_map hkeys (List.mem_of_find?_eq_some hfound) ha hkey]

theorem Rows.extraTagsOf_insertGameTag {tag : GameTagRow} (other : ℕ) :
    (rows.insertGameTag tag).extraTagsOf other =
      rows.extraTagsOf other ++ (rows.tagOf other tag).toList := by
  rw [Rows.extraTagsOf, Rows.insertGameTag, List.filterMap_append]
  change rows.gameTags.filterMap (rows.tagOf other) ++ [tag].filterMap (rows.tagOf other) = _
  cases h : rows.tagOf other tag <;> simp [h, Rows.extraTagsOf]

namespace Rows.Consistent

variable (h : rows.Consistent moveHash)

include h

/-- An id belongs to one row only. -/
theorem rowOf_of_mem {row : kind.Row} (hmem : (id, row) ∈ rows.named kind) :
    rows.rowOf kind id = some row := by
  rw [Rows.rowOf, find?_of_nodup_keys (h.ids kind) hmem]
  rfl

theorem exists_rowOf (hid : id ∈ rows.ids kind) : ∃ row, rows.rowOf kind id = some row := by
  obtain ⟨⟨id', row⟩, hmem, rfl⟩ := List.mem_map.mp hid
  exact ⟨row, h.rowOf_of_mem hmem⟩

theorem idOf_of_mem {row : kind.Row} (hmem : (id, row) ∈ rows.named kind) :
    rows.idOf kind (kind.nameOf row) = some id := by
  rw [Rows.idOf, find?_of_nodup_keys (h.names kind) hmem]
  rfl

theorem nameIn_of_idOf {name : String} (hid : rows.idOf kind name = some id) :
    rows.nameIn kind id = some name := by
  obtain ⟨⟨id', row⟩, hfound, hid'⟩ := Option.map_eq_some_iff.mp hid
  obtain rfl : id' = id := hid'
  rw [Rows.nameIn, h.rowOf_of_mem (List.mem_of_find?_eq_some hfound), Option.map_some]
  exact congrArg some (by simpa using List.find?_some hfound)

theorem idOf_of_nameIn {name : String} (hname : rows.nameIn kind id = some name) :
    rows.idOf kind name = some id := by
  obtain ⟨row, hrow, rfl⟩ := Option.map_eq_some_iff.mp hname
  obtain ⟨⟨id', row'⟩, hfound, hrow'⟩ := Option.map_eq_some_iff.mp hrow
  obtain rfl : row' = row := hrow'
  obtain rfl : id' = id := by simpa using List.find?_some hfound
  exact h.idOf_of_mem (List.mem_of_find?_eq_some hfound)

theorem nameIn_isSome (hid : id ∈ rows.ids kind) : ∃ name, rows.nameIn kind id = some name := by
  obtain ⟨row, hrow⟩ := h.exists_rowOf hid
  exact ⟨kind.nameOf row, by rw [Rows.nameIn, hrow, Option.map_some]⟩

theorem findGame_of_mem {row : GameRow} (hmem : row ∈ rows.games) :
    rows.findGame row.id = some row :=
  find?_of_nodup_keys h.gameIds hmem

theorem recordOf_isSome {row : GameRow} (hmem : row ∈ rows.games) :
    ∃ record, rows.recordOf row = some record := by
  obtain ⟨hwhite, hblack⟩ := h.players row hmem
  obtain ⟨white, hwhite⟩ := h.nameIn_isSome hwhite
  obtain ⟨black, hblack⟩ := h.nameIn_isSome hblack
  exact ⟨_, by rw [Rows.recordOf, hwhite, hblack]; rfl⟩

private theorem gameAt_of_mem {row : GameRow} (hmem : row ∈ rows.games) :
    ∃ game, rows.gameAt row.id = .ok game ∧ rows.recordOf row = some (.ofGame game) := by
  obtain ⟨record, hrecord⟩ := h.recordOf_isSome hmem
  obtain ⟨white, hwhite, hrecord⟩ := Option.bind_eq_some_iff.mp hrecord
  obtain ⟨black, hblack, hrecord⟩ := Option.bind_eq_some_iff.mp hrecord
  obtain ⟨whiteRow, hwhiteRow, rfl⟩ := Option.map_eq_some_iff.mp hwhite
  obtain ⟨blackRow, hblackRow, rfl⟩ := Option.map_eq_some_iff.mp hblack
  rw [Rows.gameAt, h.findGame_of_mem hmem]
  dsimp only
  rw [hwhiteRow, hblackRow]
  refine ⟨_, rfl, ?_⟩
  rw [Rows.recordOf, hwhite, hblack]
  rfl

/-- What `get` returns for a stored game is its record as it is read back. -/
theorem get_of_mem {row : GameRow} (hmem : row ∈ rows.games) :
    ∃ game record, rows.get row.id = .ok game ∧ rows.recordOf row = some record ∧
      .ofGame game = record.read := by
  obtain ⟨game, hgame, hrecord⟩ := h.gameAt_of_mem hmem
  refine ⟨game.read, _, ?_, hrecord, rfl⟩
  rw [Rows.get, hgame]
  rfl

theorem tagOf_grows (hgrows : rows.Grows rows') {tag : GameTagRow} (htag : tag ∈ rows.gameTags)
    (id : ℕ) : rows'.tagOf id tag = rows.tagOf id tag := by
  obtain ⟨⟨id', name⟩, hmem, hid⟩ := List.mem_map.mp (h.tagged tag htag).2
  obtain rfl : id' = tag.tagId := hid
  have hrow := h.rowOf_of_mem hmem
  rw [Rows.tagOf, Rows.tagOf, hrow, hgrows.rowOf hrow]

theorem extraTagsOf_grows (hgrows : rows.Grows rows')
    (htags : rows'.gameTags = rows.gameTags) (id : ℕ) :
    rows'.extraTagsOf id = rows.extraTagsOf id := by
  rw [Rows.extraTagsOf, Rows.extraTagsOf, htags]
  exact List.filterMap_congr fun tag htag => h.tagOf_grows hgrows htag id

theorem extraTagsOf_of_notMem (hid : id ∉ rows.games.map GameRow.id) :
    rows.extraTagsOf id = [] := by
  rw [Rows.extraTagsOf, List.filterMap_eq_nil_iff]
  intro tag htag
  rw [Rows.tagOf, if_neg]
  rintro rfl
  exact hid (h.tagged tag htag).1

private theorem tagOf_of_mem {tag : GameTagRow} (htag : tag ∈ rows.gameTags) (name : String) :
    ∃ found : String, rows.tagOf tag.gameId tag = some (found, tag.value) ∧
      (rows.idOf .tag name = some tag.tagId ↔ found = name) := by
  obtain ⟨⟨tagId, found⟩, hmem, hid⟩ := List.mem_map.mp (h.tagged tag htag).2
  obtain rfl : tagId = tag.tagId := hid
  refine ⟨found, ?_, fun hfound => ?_, fun hsame => hsame ▸ h.idOf_of_mem hmem⟩
  · rw [Rows.tagOf, if_pos rfl, h.rowOf_of_mem hmem]
    rfl
  · have hsame := h.nameIn_of_idOf hfound
    rw [Rows.nameIn, h.rowOf_of_mem hmem] at hsame
    exact Option.some.inj hsame

theorem extraTagsOf_deleteGameTags (gameId : ℕ) (name : String) (id : ℕ) :
    (rows.deleteGameTags gameId name).extraTagsOf id =
      if id = gameId then (rows.extraTagsOf id).filter fun tag => tag.1 != name
      else rows.extraTagsOf id := by
  have hrest : (rows.deleteGameTags gameId name).extraTagsOf id =
      rows.gameTags.filterMap fun tag =>
        if tag.gameId = gameId ∧ rows.idOf .tag name = some tag.tagId then none
        else rows.tagOf id tag := by
    rw [Rows.extraTagsOf, Rows.deleteGameTags, List.filterMap_filter]
    refine List.filterMap_congr fun tag _ => ?_
    by_cases hdeleted : tag.gameId = gameId ∧ rows.idOf .tag name = some tag.tagId
    · simp [hdeleted]
    · rw [if_neg hdeleted, if_pos (by simpa using not_and_or.mp hdeleted)]
      rfl
  rw [hrest]
  by_cases hid : id = gameId
  · subst hid
    rw [if_pos rfl, Rows.extraTagsOf, List.filter_filterMap]
    refine List.filterMap_congr fun tag htag => ?_
    by_cases hgame : tag.gameId = id
    · obtain ⟨found, htagOf, hname⟩ := h.tagOf_of_mem htag name
      rw [← hgame, htagOf]
      by_cases hsame : found = name
      · rw [if_pos ⟨rfl, hname.mpr hsame⟩, hsame, Option.filter_some_neg (by simp)]
      · rw [if_neg fun hdeleted => hsame (hname.mp hdeleted.2), Option.filter_some_pos]
        simpa using hsame
    · simp [Rows.tagOf, hgame]
  · rw [if_neg hid]
    refine List.filterMap_congr fun tag _ => ?_
    by_cases hgame : tag.gameId = gameId
    · have hother : ¬tag.gameId = id := fun hsame => hid (hsame ▸ hgame)
      rw [Rows.tagOf, if_neg hother, ite_self]
    · rw [if_neg fun hdeleted => hgame hdeleted.1]

/-- New names leave the records of the stored games as they are. -/
theorem recordOf_grows (hgrows : rows.Grows rows') {row : GameRow} (hmem : row ∈ rows.games)
    (htags : rows'.extraTagsOf row.id = rows.extraTagsOf row.id) :
    rows'.recordOf row = rows.recordOf row := by
  obtain ⟨record, hrecord⟩ := h.recordOf_isSome hmem
  obtain ⟨white, hwhite, hrest⟩ := Option.bind_eq_some_iff.mp hrecord
  obtain ⟨black, hblack, hrest⟩ := Option.bind_eq_some_iff.mp hrest
  rw [hgrows.recordOf hrecord, htags, hrecord, ← Option.some.inj hrest]

end Rows.Consistent

end Growing

end MotifChess.Db.Store
