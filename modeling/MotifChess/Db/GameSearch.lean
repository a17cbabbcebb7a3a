/- GID: MotifChess/Db/GameSearch
   generality: implementation
   digest: The searches over the game table: what a filter keeps, how a page is sorted and cut. -/

import MotifChess.Db.ReplayGame
import MotifChess.Db.SearchFilter
import MotifChess.Search.OpeningTree.Slice
import Mathlib.Data.List.Infix
import Mathlib.Data.String.Basic
import Mathlib.Order.WithBot

set_option autoImplicit false
set_option relaxedAutoImplicit false

namespace MotifChess.Db

open MotifChess.Codec MotifChess.Order MotifChess.Search.OpeningTree

section Texts

/-- The text with its ASCII letters in lower case. -/
def nocase (text : String) : String := text.map Char.toLower

/-- `instr` of the lowered texts is positive. -/
def containsText (part text : String) : Bool := decide ((nocase part).toList <:+: (nocase text).toList)

/-- A percent sign stands for any text and an underscore for any one character. -/
def like : List Char → List Char → Bool
  | [], text => text.isEmpty
  | c :: pattern, text =>
    if c = '%' then text.tails.any (like pattern)
    else text.head?.any (fun d => c = '_' || c.toLower = d.toLower) && like pattern text.tail

example : like ['b', '_', '%'] ['B', '9', '0'] = true := by decide

/-- `LIKE`, which takes its operands as C strings. -/
def textLike (pattern text : String) : Bool := like (cString pattern).toList (cString text).toList

/-- The order of `NOCASE`: up to the first NUL, then by the number of bytes. -/
def nocaseKey (text : String) : String ×ₗ ℕ := toLex (nocase (cString text), text.utf8ByteSize)

end Texts

def maxSearchLimit : ℕ := 500

/-- The largest limit or offset that a statement can be given. -/
def sqliteMax : ℕ := 2 ^ 63 - 1

namespace SearchFilter

def namesPlayer (filter : SearchFilter) (game : StoredGame) (name : String) : Bool :=
  match filter.playerColor with
  | .white => containsText name game.white
  | .black => containsText name game.black
  | .either => containsText name game.white || containsText name game.black

/-- The metadata part of the filter. A game without a rating is in no rating range. -/
def keeps (filter : SearchFilter) (game : StoredGame) : Bool :=
  filter.playerName.all (filter.namesPlayer game) &&
    filter.result.all (fun result => game.result = result) &&
    filter.ecoPrefix.all (fun text => game.eco.any (textLike (text ++ "%"))) &&
    filter.minElo.all (fun elo => game.whiteElo.any (elo ≤ ·) && game.blackElo.any (elo ≤ ·)) &&
    filter.maxElo.all (fun elo => game.whiteElo.any (· ≤ elo) && game.blackElo.any (· ≤ elo))

def effectiveLimit (filter : SearchFilter) : ℕ := min filter.limit maxSearchLimit

end SearchFilter

/-- The text that a column sorts by; an absent one comes before every text. -/
def GameSortColumn.sortText (game : StoredGame) : GameSortColumn → WithBot (String ×ₗ ℕ)
  | .id => ⊥
  | .white => nocaseKey game.white
  | .black => nocaseKey game.black
  | .result => nocaseKey game.result
  | .event => game.event.map nocaseKey
  | .date => game.date.map nocaseKey
  | .eco => game.eco.map nocaseKey

/-- `game_order_clause`: by the column, then by the id. -/
def GameSortColumn.orderKey (column : GameSortColumn) (row : GameRow) :
    WithBot (String ×ₗ ℕ) ×ₗ ℕ :=
  toLex (column.sortText row.stored, row.id)

/-- The rows in the order of a filter; descending order reverses both parts of the key. -/
def SearchFilter.inOrder (filter : SearchFilter) (rows : List GameRow) : List GameRow :=
  if filter.sortAscending then sortBy filter.sortColumn.orderKey rows
  else sortBy (fun row => OrderDual.toDual (filter.sortColumn.orderKey row)) rows

structure GameListEntry where
  id : UInt32
  white : String
  black : String
  whiteElo : Option Int32
  blackElo : Option Int32
  result : String
  event : String
  date : String
  eco : String
  sourceType : String
  sourceLabel : Option String
  reviewStatus : String
  deriving DecidableEq

/-- `read_game_list_entry`. -/
def GameRow.listEntry (row : GameRow) : GameListEntry where
  id := UInt32.ofNat row.id
  white := cString row.stored.white
  black := cString row.stored.black
  whiteElo := row.stored.whiteElo
  blackElo := row.stored.blackElo
  result := row.readResult
  event := cString (row.stored.event.getD "")
  date := cString (row.stored.date.getD "")
  eco := cString (row.stored.eco.getD "")
  sourceType := row.stored.provenance.read.sourceType
  sourceLabel := row.stored.provenance.read.sourceLabel
  reviewStatus := row.stored.provenance.read.reviewStatus

/-- The row that `get_game_contexts` reads of a game. -/
def GameRow.context (row : GameRow) : GameContext where
  eco := row.stored.eco.map cString
  openingName := (row.stored.extraTags.lookup "Opening").map cString
  moves := row.stored.moves

structure GameListResult where
  games : List GameListEntry := []
  totalCount : ℕ := 0
  deriving DecidableEq

/-- The rows that the metadata part of a filter keeps. -/
def SearchFilter.selected (filter : SearchFilter) (rows : List GameRow) : List GameRow :=
  rows.filter fun row => filter.keeps row.stored

/-- `fetch_game_list_page`. -/
def fetchGameListPage (rows : List GameRow) (filter : SearchFilter) (limit : ℕ) :
    List GameListEntry :=
  (((filter.inOrder (filter.selected rows)).drop filter.offset).take limit).map GameRow.listEntry

namespace Tables

variable (t : Tables)

/-- `game_store::find_games`. Without a metadata filter the games are counted without it. -/
def findGames (filter : SearchFilter) : Result GameListResult :=
  if sqliteMax < filter.effectiveLimit ∨ sqliteMax < filter.offset then .error .ioFailure
  else
    let totalCount := if filter.hasMetadataFilter then (filter.selected t.games).length
      else t.countGames
    if totalCount = 0 ∨ filter.effectiveLimit = 0 then .ok ⟨[], totalCount⟩
    else .ok ⟨fetchGameListPage t.games filter filter.effectiveLimit, totalCount⟩

/-- The games joined with the temporary table of ids. -/
def withIds (ids : List UInt32) : List GameRow :=
  t.games.filter fun row => decide (row.id ∈ ids.map UInt32.toNat)

/-- `populate_position_temp_table`: the id is the primary key, so a repeated one fails. -/
def populatePositionTempTable (ids : List UInt32) : Result Unit :=
  if ids.Nodup then .ok () else .error .ioFailure

/-- `game_store::find_games_with_ids`. -/
def findGamesWithIds (ids : List UInt32) (filter : SearchFilter) : Result GameListResult :=
  if ids.isEmpty then .ok {}
  else if sqliteMax < filter.effectiveLimit ∨ sqliteMax < filter.offset then .error .ioFailure
  else do
    populatePositionTempTable ids
    let totalCount := (filter.selected (t.withIds ids)).length
    if totalCount = 0 ∨ filter.effectiveLimit = 0 then return ⟨[], totalCount⟩
    return ⟨fetchGameListPage (t.withIds ids) filter filter.effectiveLimit, totalCount⟩

/-- `game_store::find_game_ids_with_filter`: the kept ids in ascending order. -/
def findGameIdsWithFilter (ids : List UInt32) (filter : SearchFilter) : Result (List UInt32) :=
  if ids.isEmpty then .ok []
  else do
    populatePositionTempTable ids
    return (filter.selected (t.withIds ids)).map fun row => UInt32.ofNat row.id

/-- `game_store::get_game_contexts`. -/
def getGameContexts (ids : List UInt32) : Result (List (UInt32 × GameContext)) :=
  .ok ((t.withIds ids).map fun row => (UInt32.ofNat row.id, row.context))

/-- The ids of the stored games are values of the program's 32-bit `game_id`. -/
def IdsFit : Prop := ∀ row ∈ t.games, row.id < 2 ^ 32

end Tables

namespace SearchFilter

section Order

variable (filter : SearchFilter)

/-- One row is listed before another. -/
def Before (a b : GameRow) : Prop :=
  if filter.sortAscending then filter.sortColumn.orderKey a < filter.sortColumn.orderKey b
  else filter.sortColumn.orderKey b < filter.sortColumn.orderKey a

variable {filter} {rows : List GameRow}

theorem inOrder_perm : (filter.inOrder rows).Perm rows := by
  unfold inOrder
  split_ifs
  · exact sortBy_perm _ _
  · exact sortBy_perm _ _

@[simp] theorem length_selected_inOrder :
    (filter.inOrder (filter.selected rows)).length = (filter.selected rows).length :=
  inOrder_perm.length_eq

private theorem nodup_orderKey {column : GameSortColumn} (h : (rows.map GameRow.id).Nodup) :
    (rows.map column.orderKey).Nodup := by
  refine List.Nodup.of_map (fun key => (ofLex key).2) ?_
  rw [List.map_map]
  exact h

theorem pairwise_inOrder (h : (rows.map GameRow.id).Nodup) :
    (filter.inOrder rows).Pairwise filter.Before := by
  have hkeys : (rows.map filter.sortColumn.orderKey).Nodup := nodup_orderKey h
  unfold inOrder Before
  split_ifs
  · exact List.pairwise_map.mp (pairwise_lt_map_sortBy hkeys)
  · have hdual : (rows.map fun row => OrderDual.toDual (filter.sortColumn.orderKey row)).Nodup := hkeys
    exact List.pairwise_map.mp (pairwise_lt_map_sortBy hdual)

theorem inOrder_eq_self (hcolumn : filter.sortColumn = .id) (hascending : filter.sortAscending = true)
    (h : rows.Pairwise fun a b => a.id < b.id) : filter.inOrder rows = rows := by
  rw [inOrder, if_pos hascending, hcolumn, sortBy]
  refine List.Pairwise.insertionSort_eq (h.imp fun hlt => ?_)
  rw [GameSortColumn.orderKey, GameSortColumn.orderKey, Prod.Lex.toLex_le_toLex]
  exact .inr ⟨rfl, hlt.le⟩

theorem keeps_of_not_hasMetadataFilter (h : filter.hasMetadataFilter = false) (game : StoredGame) :
    filter.keeps game = true := by
  simp only [hasMetadataFilter, Bool.or_eq_false_iff, Option.isSome_eq_false_iff,
    Option.isNone_iff_eq_none] at h
  obtain ⟨⟨⟨⟨hname, hresult⟩, heco⟩, hmin⟩, hmax⟩ := h
  rw [keeps, hname, hresult, heco, hmin, hmax]
  rfl

theorem selected_eq_self (h : filter.hasMetadataFilter = false) : filter.selected rows = rows :=
  List.filter_eq_self.mpr fun row _ => keeps_of_not_hasMetadataFilter h row.stored

end Order

/-- The page of a filter among some rows, with the number of rows that it keeps. -/
def page (filter : SearchFilter) (rows : List GameRow) : GameListResult :=
  ⟨fetchGameListPage rows filter filter.effectiveLimit, (filter.selected rows).length⟩

private theorem effectiveLimit_le (filter : SearchFilter) : filter.effectiveLimit ≤ sqliteMax :=
  (min_le_right _ _).trans (by decide)

private theorem page_of_no_games {filter : SearchFilter} {rows : List GameRow}
    (h : (filter.selected rows).length = 0 ∨ filter.effectiveLimit = 0) :
    filter.page rows = ⟨[], (filter.selected rows).length⟩ := by
  have hnone : fetchGameListPage rows filter filter.effectiveLimit = [] := by
    rw [fetchGameListPage, List.map_eq_nil_iff, List.take_eq_nil_iff, List.drop_eq_nil_iff,
      length_selected_inOrder]
    omega
  rw [page, hnone]

end SearchFilter

namespace Tables

variable {t : Tables} {filter : SearchFilter} {ids : List UInt32}

theorem findGames_eq_page (hoffset : filter.offset ≤ sqliteMax) :
    t.findGames filter = .ok (filter.page t.games) := by
  have hlimit := filter.effectiveLimit_le
  have hcount : (if filter.hasMetadataFilter then (filter.selected t.games).length
      else t.countGames) = (filter.selected t.games).length := by
    split_ifs with hmetadata
    · rfl
    · rw [SearchFilter.selected_eq_self (by simpa using hmetadata)]
      rfl
  rw [findGames, if_neg (by omega)]
  dsimp only
  rw [hcount]
  split_ifs with hnone
  · rw [SearchFilter.page_of_no_games hnone]
  · rfl

theorem findGamesWithIds_eq_page (hids : ids.Nodup) (hoffset : filter.offset ≤ sqliteMax) :
    t.findGamesWithIds ids filter = .ok (filter.page (t.withIds ids)) := by
  have hlimit := filter.effectiveLimit_le
  rw [findGamesWithIds]
  by_cases hempty : ids.isEmpty
  · have hrows : t.withIds ids = [] := by
      rw [List.isEmpty_iff.mp hempty]
      simp [withIds]
    rw [if_pos hempty, hrows, SearchFilter.page_of_no_games (.inl rfl)]
    rfl
  · rw [if_neg hempty, if_neg (by omega), populatePositionTempTable, if_pos hids, ok_bind]
    dsimp only
    split_ifs with hnone
    · rw [SearchFilter.page_of_no_games hnone]
      rfl
    · rfl

theorem nodup_ids (t : Tables) : (t.games.map GameRow.id).Nodup :=
  List.pairwise_map.mpr (t.ascending.imp ne_of_lt)

theorem withIds_sublist (ids : List UInt32) : (t.withIds ids).Sublist t.games := List.filter_sublist

theorem IdsFit.toNat_id (hfit : t.IdsFit) {row : GameRow} (h : row ∈ t.games) :
    (UInt32.ofNat row.id).toNat = row.id := Nat.mod_eq_of_lt (hfit row h)

theorem IdsFit.eq_of_id (hfit : t.IdsFit) {row other : GameRow} (hrow : row ∈ t.games)
    (hother : other ∈ t.games) (hid : UInt32.ofNat row.id = UInt32.ofNat other.id) : row = other := by
  refine List.inj_on_of_nodup_map t.nodup_ids hrow hother ?_
  rw [← hfit.toNat_id hrow, hid, hfit.toNat_id hother]

theorem mem_withIds (hfit : t.IdsFit) {row : GameRow} :
    row ∈ t.withIds ids ↔ row ∈ t.games ∧ UInt32.ofNat row.id ∈ ids := by
  rw [withIds, List.mem_filter, decide_eq_true_eq, List.mem_map]
  refine and_congr_right fun hrow => ?_
  constructor
  · rintro ⟨id, hid, hsame⟩
    rw [← hsame, UInt32.ofNat_toNat]
    exact hid
  · intro hid
    exact ⟨_, hid, hfit.toNat_id hrow⟩

theorem withIds_map {rows : List GameRow} (hfit : t.IdsFit) (hrows : rows.Sublist t.games) :
    t.withIds (rows.map fun row => UInt32.ofNat row.id) = rows := by
  have hgames : t.games.Nodup := t.nodup_ids.of_map
  have hmem : ∀ row, row ∈ t.withIds (rows.map fun row => UInt32.ofNat row.id) ↔ row ∈ rows := by
    intro row
    rw [mem_withIds hfit, List.mem_map]
    constructor
    · rintro ⟨hrow, other, hother, hid⟩
      obtain rfl := hfit.eq_of_id (hrows.subset hother) hrow hid
      exact hother
    · intro hrow
      exact ⟨hrows.subset hrow, row, hrow, rfl⟩
  have hperm := (List.perm_ext_iff_of_nodup ((withIds_sublist _).nodup hgames)
    (hrows.nodup hgames)).mpr hmem
  exact hperm.eq_of_pairwise (fun a b _ _ hab hba => absurd hab hba.not_gt)
    (t.ascending.sublist (withIds_sublist _)) (t.ascending.sublist hrows)

private theorem lookup_map_context {rows : List GameRow} (hfit : t.IdsFit)
    (hrows : rows.Sublist t.games) {row : GameRow} (hrow : row ∈ rows) :
    (rows.map fun row => (UInt32.ofNat row.id, row.context)).lookup (UInt32.ofNat row.id) =
      some row.context := by
  induction rows with
  | nil => cases hrow
  | cons first rows ih =>
    rw [List.map_cons, List.lookup_cons]
    by_cases hid : UInt32.ofNat row.id = UInt32.ofNat first.id
    · obtain rfl := hfit.eq_of_id (hrows.subset hrow) (hrows.subset List.mem_cons_self) hid
      rw [beq_self_eq_true]
    · rw [beq_false_of_ne hid]
      refine ih ((List.sublist_cons_self _ _).trans hrows) ?_
      rcases List.mem_cons.mp hrow with rfl | hmem
      · exact absurd rfl hid
      · exact hmem

/-- The context of a stored game is found under its id. -/
theorem lookup_of_getGameContexts (hfit : t.IdsFit) {contexts : List (UInt32 × GameContext)}
    (h : t.getGameContexts ids = .ok contexts) {row : GameRow} (hrow : row ∈ t.games)
    (hid : UInt32.ofNat row.id ∈ ids) : contexts.lookup (UInt32.ofNat row.id) = some row.context := by
  obtain rfl := Except.ok.inj h
  exact lookup_map_context hfit (withIds_sublist _) ((mem_withIds hfit).mpr ⟨hrow, hid⟩)

end Tables

section Pages

theorem flatMap_pages {α : Type} (l : List α) (offset size n : ℕ) :
    ((List.range n).flatMap fun i => (l.drop (offset + i * size)).take size) =
      (l.drop offset).take (n * size) := by
  induction n with
  | zero => simp
  | succ n ih =>
    rw [List.range_succ, List.flatMap_append, ih, List.flatMap_singleton, Nat.succ_mul,
      List.take_add, List.drop_drop]

end Pages

end MotifChess.Db
