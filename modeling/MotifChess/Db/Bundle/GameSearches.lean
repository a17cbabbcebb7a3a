/- GID: MotifChess/Db/Bundle/GameSearches
   generality: implementation
   digest: Game searches by position: the fast path, the slow path, and the pages of a search. -/

import MotifChess.Db.Bundle.Freshness
import MotifChess.Db.GameSearch
import MotifChess.Db.OpeningTreeIndex.Independence

set_option autoImplicit false
set_option relaxedAutoImplicit false

namespace MotifChess.Db

open PositionPostings OpeningTreeIndex

namespace PositionPostings

section Listed

theorem Answers.distinctGameIdsPage {reader : Reader} {file : List UInt8} {rows : List PositionRow}
    (h : Answers reader file rows) (hash : UInt64) (limit offset : ℕ) :
    reader.distinctGameIdsPage file hash.toNat limit offset =
      .ok (window limit offset (gameIdsAt rows hash)) := by
  rw [Reader.distinctGameIdsPage, h.distinctGameIds, ok_bind]
  unfold window
  split_ifs with hpast hlimit hlimit
  · rw [List.drop_eq_nil_of_le hpast]
    rfl
  · rw [List.drop_eq_nil_of_le hpast, List.take_nil]
    rfl
  · rfl
  · dsimp only
    rw [← List.take_take, List.take_length]
    rfl

theorem summaryAt_eq_none {rows : List PositionRow} {hash : UInt64} (h : summaryAt rows hash = none) :
    gameIdsAt rows hash = [] := by
  by_contra hids
  obtain ⟨summary, hsummary⟩ := exists_summaryAt (mt List.length_eq_zero_iff.mp hids)
  rw [h] at hsummary
  cases hsummary

private theorem pairwise_gameIdsAt (rows : List PositionRow) (hash : UInt64) :
    (gameIdsAt rows hash).Pairwise fun a c => a.toNat < c.toNat := by
  have hsorted : ((occurrencesAt rows hash).map Occurrence.id).Pairwise fun a c =>
      a.toNat ≤ c.toNat := by
    rw [List.pairwise_map]
    refine pairwise_occurrencesAt.imp fun hlt => ?_
    rcases Occurrence.lt_iff.mp hlt with hless | ⟨hsame, -⟩
    · exact hless.le
    · rw [hsame]
  refine List.Pairwise.imp₂ (fun a c hle hne => ?_) (hsorted.sublist (List.dedup_sublist _))
    (List.nodup_dedup _)
  exact lt_of_le_of_ne hle (mt UInt32.toNat_inj.mp hne)

end Listed

end PositionPostings

/-- Whether a search by position can take its page from the postings. -/
def SearchFilter.fastPathEligible (filter : SearchFilter) : Bool :=
  !filter.hasMetadataFilter && filter.sortColumn = .id && filter.sortAscending

namespace Bundle

variable {rules : Chess.Rules} {Tree : Type}
  {buildTree : List ReplayGame → Reader → List UInt8 → Result (List UInt8)}
  {openTree : List UInt8 → Result Tree} {sourceGameCount : Tree → ℕ}

section Searches

variable (b : Bundle (.ofRules rules Tree buildTree openTree sourceGameCount))

/-- The page of a position whose games the postings list, without reading the others. -/
def findGamesFast (filter : SearchFilter) (hash : UInt64) : Result GameListResult :=
  b.askPostings fun reader file => do
    let summary ← reader.summary file hash.toNat
    match summary with
    | none => return {}
    | some summary =>
      let ids ← reader.distinctGameIdsPage file hash.toNat filter.limit filter.offset
      let page ← b.tables.findGamesWithIds ids { filter with position := none, offset := 0 }
      return { page with totalCount := summary.distinctGameCount }

/-- The games of a position, searched in the game table. -/
def findGamesSlow (filter : SearchFilter) (hash : UInt64) : Result GameListResult := do
  let ids ← b.positionGameIds hash
  b.tables.findGamesWithIds ids { filter with position := none }

/-- `database_manager::find_games`. -/
def findGames (filter : SearchFilter) : Result GameListResult :=
  if b.manager.isNone then .error .ioFailure
  else
    match filter.position with
    | none => b.tables.findGames filter
    | some hash =>
      if filter.fastPathEligible then b.findGamesFast filter hash else b.findGamesSlow filter hash

/-- The rows among which a search looks: those of its position, if it has one. -/
def searchedRows (filter : SearchFilter) : List GameRow :=
  filter.position.elim b.tables.games fun hash => b.tables.withIds (gameIdsAt b.replayedRows hash)

end Searches

section Answers

variable {b : Bundle (.ofRules rules Tree buildTree openTree sourceGameCount)}

theorem ValidPostings.replayed (h : b.ValidPostings) : Replayed rules b.tables.replayGames := by
  obtain ⟨reader, bytes, -, hbuild, -⟩ := h
  exact replayed_of_build (by decide) hbuild

theorem ValidPostings.ask (h : b.ValidPostings) : ∃ reader bytes,
    Answers reader bytes b.replayedRows ∧ ∀ {α : Type} (query : Reader → List UInt8 → Result α),
      b.askPostings query = query reader bytes := by
  obtain ⟨reader, bytes, hasked, hanswers⟩ := h.answers
  refine ⟨reader, bytes, hanswers, fun query => ?_⟩
  rw [askPostings, hasked]

theorem ValidPostings.isSome_manager (h : b.ValidPostings) : b.manager.isNone = false := by
  obtain ⟨reader, bytes, hasked, -⟩ := h
  obtain ⟨v, hv, -⟩ := Option.bind_eq_some_iff.mp hasked
  obtain ⟨m, hm, -⟩ := Option.map_eq_some_iff.mp hv
  rw [hm]
  rfl

theorem ValidPostings.positionGameIds (h : b.ValidPostings) (hash : UInt64) :
    b.positionGameIds hash = .ok (gameIdsAt b.replayedRows hash) := by
  obtain ⟨reader, bytes, hanswers, hask⟩ := h.ask
  rw [Bundle.positionGameIds, hask, hanswers.distinctGameIds]

private theorem map_id_withIds (h : b.ValidPostings) (hfit : b.tables.IdsFit) (hash : UInt64) :
    (b.tables.withIds (gameIdsAt b.replayedRows hash)).map (fun row => UInt32.ofNat row.id) =
      gameIdsAt b.replayedRows hash := by
  have hsublist := Tables.withIds_sublist (t := b.tables) (gameIdsAt b.replayedRows hash)
  have hascending : ((b.tables.withIds (gameIdsAt b.replayedRows hash)).map
      fun row => UInt32.ofNat row.id).Pairwise fun a c => a.toNat < c.toNat := by
    rw [List.pairwise_map]
    refine (b.tables.ascending.sublist hsublist).imp_of_mem fun ha hc hlt => ?_
    rw [hfit.toNat_id (hsublist.subset ha), hfit.toNat_id (hsublist.subset hc)]
    exact hlt
  have hmem : ∀ id, id ∈ (b.tables.withIds (gameIdsAt b.replayedRows hash)).map
      (fun row => UInt32.ofNat row.id) ↔ id ∈ gameIdsAt b.replayedRows hash := by
    intro id
    rw [List.mem_map]
    constructor
    · rintro ⟨row, hmem, rfl⟩
      exact ((Tables.mem_withIds hfit).mp hmem).2
    · intro hid
      obtain ⟨row, hposition, -, rfl⟩ := mem_gameIdsAt.mp hid
      obtain ⟨game, hgame, hsame⟩ := List.mem_map.mp
        ((mem_map_gameId h.replayed.rows).mp (List.mem_map_of_mem hposition))
      obtain ⟨stored, hstored, rfl⟩ := List.mem_map.mp hgame
      exact ⟨stored, (Tables.mem_withIds hfit).mpr ⟨hstored, hsame.symm ▸ hid⟩, hsame⟩
  have hperm := (List.perm_ext_iff_of_nodup (hascending.imp fun hlt heq => hlt.ne (congrArg _ heq))
    (nodup_gameIdsAt _ _)).mpr hmem
  exact hperm.eq_of_pairwise (fun a c _ _ hac hca => absurd hac hca.not_gt) hascending
    (pairwise_gameIdsAt _ _)

end Answers

section Agreement

variable (b : Bundle (.ofRules rules Tree buildTree openTree sourceGameCount))

/-- The full result of a search: the searched games that the filter keeps, each once, in the order
of its sort column with ties broken by the id. -/
structure IsFullResult (filter : SearchFilter) (rows : List GameRow) : Prop where
  sorted : rows.Pairwise filter.Before
  mem_iff : ∀ row, row ∈ rows ↔ row ∈ b.tables.games ∧ filter.keeps row.stored = true ∧
    ∀ hash ∈ filter.position, UInt32.ofNat row.id ∈ gameIdsAt b.replayedRows hash

/-- The pages of a search, one after another from an offset on. -/
def pagesFrom (filter : SearchFilter) (offset n : ℕ) : Result (List GameListResult) :=
  (List.range n).mapM fun i =>
    b.findGames { filter with offset := offset + i * filter.effectiveLimit }

/-- The two ways to search a position agree, and the pages of every search are its full result. -/
structure SearchesAgree : Prop where
  fast : ∀ filter hash, filter.position = some hash → filter.fastPathEligible = true →
    filter.offset ≤ sqliteMax → b.findGames filter = b.findGamesSlow filter hash
  pages : ∀ filter, ∃ rows, b.IsFullResult filter rows ∧
    (∀ offset n, (∀ i < n, offset + i * filter.effectiveLimit ≤ sqliteMax) →
      ∃ pages, b.pagesFrom filter offset n = .ok pages ∧
        (∀ page ∈ pages, page.totalCount = rows.length) ∧
        pages.flatMap GameListResult.games =
          ((rows.drop offset).take (n * filter.effectiveLimit)).map GameRow.listEntry) ∧
    (filter.limit ≠ 0 → ∃ n pages, b.pagesFrom filter 0 n = .ok pages ∧
      pages.flatMap GameListResult.games = rows.map GameRow.listEntry)

variable {b}

private theorem findGamesSlow_eq_page (h : b.ValidPostings) {filter : SearchFilter} {hash : UInt64}
    (hposition : filter.position = some hash) (hoffset : filter.offset ≤ sqliteMax) :
    b.findGamesSlow filter hash = .ok (filter.page (b.searchedRows filter)) := by
  rw [findGamesSlow, h.positionGameIds, ok_bind, searchedRows, hposition]
  exact Tables.findGamesWithIds_eq_page (nodup_gameIdsAt _ _) hoffset

private theorem findGamesFast_eq_page (h : b.ValidPostings) (hfit : b.tables.IdsFit)
    {filter : SearchFilter} {hash : UInt64} (hposition : filter.position = some hash)
    (hfast : filter.fastPathEligible = true) :
    b.findGamesFast filter hash = .ok (filter.page (b.searchedRows filter)) := by
  simp only [SearchFilter.fastPathEligible, Bool.and_eq_true, Bool.not_eq_true',
    decide_eq_true_eq] at hfast
  obtain ⟨⟨hmetadata, hcolumn⟩, hascending⟩ := hfast
  obtain ⟨reader, bytes, hanswers, hask⟩ := h.ask
  set rows := b.tables.withIds (gameIdsAt b.replayedRows hash) with hrows
  have hids : rows.map (fun row => UInt32.ofNat row.id) = gameIdsAt b.replayedRows hash :=
    map_id_withIds h hfit hash
  have hsublist : rows.Sublist b.tables.games := Tables.withIds_sublist _
  have hsearched : b.searchedRows filter = rows := by
    rw [searchedRows, hposition]
    rfl
  -- Without a metadata filter and in the default order, the page is a window of the rows.
  have hpage : ∀ (f : SearchFilter) (l : List GameRow), f.hasMetadataFilter = false →
      f.sortColumn = .id → f.sortAscending = true → l.Sublist b.tables.games →
        f.page l = ⟨((l.drop f.offset).take f.effectiveLimit).map GameRow.listEntry, l.length⟩ := by
    intro f l hf hid hup hl
    rw [SearchFilter.page, fetchGameListPage, SearchFilter.selected_eq_self hf,
      SearchFilter.inOrder_eq_self hid hup (b.tables.ascending.sublist hl)]
  rw [findGamesFast, hask, hanswers.summary, ok_bind, hsearched,
    hpage filter rows hmetadata hcolumn hascending hsublist]
  cases hsummary : summaryAt b.replayedRows hash with
  | none =>
    have hnil : rows = [] := by
      rw [hrows, summaryAt_eq_none hsummary]
      simp [Tables.withIds]
    rw [hnil, List.drop_nil, List.take_nil]
    rfl
  | some summary =>
    have hwindow : window filter.limit filter.offset (gameIdsAt b.replayedRows hash) =
        (window filter.limit filter.offset rows).map fun row => UInt32.ofNat row.id := by
      rw [← hids, window, window]
      split_ifs
      · rw [List.map_drop]
      · rw [List.map_take, List.map_drop]
    have hpart : (window filter.limit filter.offset rows).Sublist rows := by
      unfold window
      split_ifs
      · exact List.drop_sublist _ _
      · exact (List.take_sublist _ _).trans (List.drop_sublist _ _)
    have hnodup : (window filter.limit filter.offset (gameIdsAt b.replayedRows hash)).Nodup := by
      unfold window
      split_ifs
      · exact (nodup_gameIdsAt _ _).sublist (List.drop_sublist _ _)
      · exact (nodup_gameIdsAt _ _).sublist
          ((List.take_sublist _ _).trans (List.drop_sublist _ _))
    have hcut : (window filter.limit filter.offset rows).take filter.effectiveLimit =
        (rows.drop filter.offset).take filter.effectiveLimit := by
      unfold window SearchFilter.effectiveLimit
      split_ifs with hlimit
      · rfl
      · rw [List.take_take, min_eq_left (min_le_left _ _)]
    dsimp only
    rw [hanswers.distinctGameIdsPage, ok_bind,
      Tables.findGamesWithIds_eq_page hnodup (Nat.zero_le _), ok_bind, hwindow,
      Tables.withIds_map hfit (hpart.trans hsublist),
      hpage { filter with position := none, offset := 0 } _ hmetadata hcolumn hascending (hpart.trans hsublist)]
    have hcount : summary.distinctGameCount = rows.length := by
      rw [distinctGameCount_of_summaryAt hsummary, ← hids, List.length_map]
    have hgames : ((window filter.limit filter.offset rows).drop 0).take filter.effectiveLimit =
        (rows.drop filter.offset).take filter.effectiveLimit := hcut
    exact congrArg Except.ok (GameListResult.mk.injEq .. |>.mpr
      ⟨congrArg (List.map GameRow.listEntry) hgames, hcount⟩)

theorem findGames_eq_page_of_none (hopen : b.manager.isNone = false) {filter : SearchFilter}
    (hposition : filter.position = none) (hoffset : filter.offset ≤ sqliteMax) :
    b.findGames filter = .ok (filter.page (b.searchedRows filter)) := by
  have hsearched : b.searchedRows filter = b.tables.games := by
    rw [searchedRows, hposition]
    rfl
  rw [findGames, hopen, if_neg Bool.false_ne_true, hposition, hsearched]
  exact Tables.findGames_eq_page hoffset

theorem findGames_of_queriedPostings_none (hnone : b.queriedPostings = none) {filter : SearchFilter}
    (hposition : filter.position.isSome = true) : b.findGames filter = .error .ioFailure := by
  obtain ⟨hash, hhash⟩ := Option.isSome_iff_exists.mp hposition
  rw [findGames, hhash]
  split
  · rfl
  · dsimp only
    split
    · rw [findGamesFast, askPostings, hnone]
    · rw [findGamesSlow, Bundle.positionGameIds, askPostings, hnone]
      rfl

theorem findGames_eq_page (h : b.ValidPostings) (hfit : b.tables.IdsFit) {filter : SearchFilter}
    (hoffset : filter.offset ≤ sqliteMax) :
    b.findGames filter = .ok (filter.page (b.searchedRows filter)) := by
  have hopen := h.isSome_manager
  cases hposition : filter.position with
  | none => exact findGames_eq_page_of_none hopen hposition hoffset
  | some hash =>
    rw [findGames, hopen, if_neg Bool.false_ne_true, hposition]
    dsimp only
    split_ifs with hfast
    · exact findGamesFast_eq_page h hfit hposition hfast
    · exact findGamesSlow_eq_page h hposition hoffset

theorem searchedRows_sublist (filter : SearchFilter) :
    (b.searchedRows filter).Sublist b.tables.games := by
  unfold searchedRows
  cases filter.position with
  | none => exact List.Sublist.refl _
  | some hash => exact Tables.withIds_sublist _

theorem isFullResult (hfit : b.tables.IdsFit) (filter : SearchFilter) :
    b.IsFullResult filter (filter.inOrder (filter.selected (b.searchedRows filter))) where
  sorted := by
    apply SearchFilter.pairwise_inOrder
    have hsublist := (List.filter_sublist (p := fun row : GameRow => filter.keeps row.stored)).trans
      (b.searchedRows_sublist filter)
    exact b.tables.nodup_ids.sublist (hsublist.map _)
  mem_iff := by
    intro row
    rw [SearchFilter.inOrder_perm.mem_iff, SearchFilter.selected, List.mem_filter, searchedRows]
    cases filter.position with
    | none => simp
    | some hash =>
      simp only [Option.elim_some, Option.mem_def, Option.some.injEq, forall_eq',
        Tables.mem_withIds hfit, and_assoc, and_comm]

private theorem pagesFrom_eq (h : b.ValidPostings) (hfit : b.tables.IdsFit) (filter : SearchFilter)
    {offset n : ℕ} (hoffsets : ∀ i < n, offset + i * filter.effectiveLimit ≤ sqliteMax) :
    b.pagesFrom filter offset n = .ok ((List.range n).map fun i =>
      { filter with offset := offset + i * filter.effectiveLimit }.page (b.searchedRows filter)) := by
  rw [pagesFrom]
  refine mapM_eq_map fun i hi => ?_
  exact findGames_eq_page h hfit (hoffsets i (List.mem_range.mp hi))

private theorem pages_of_fullResult (h : b.ValidPostings) (hfit : b.tables.IdsFit) (filter : SearchFilter)
    {offset n : ℕ} (hoffsets : ∀ i < n, offset + i * filter.effectiveLimit ≤ sqliteMax) :
    ∃ pages, b.pagesFrom filter offset n = .ok pages ∧
      (∀ page ∈ pages, page.totalCount =
        (filter.inOrder (filter.selected (b.searchedRows filter))).length) ∧
      pages.flatMap GameListResult.games =
        (((filter.inOrder (filter.selected (b.searchedRows filter))).drop offset).take
          (n * filter.effectiveLimit)).map GameRow.listEntry := by
  refine ⟨_, pagesFrom_eq h hfit filter hoffsets, ?_, ?_⟩
  · intro page hpage
    obtain ⟨i, -, rfl⟩ := List.mem_map.mp hpage
    rw [SearchFilter.length_selected_inOrder]
    rfl
  · rw [List.flatMap_map, ← flatMap_pages, List.map_flatMap]
    rfl

private theorem offsets_le_sqliteMax {rows : List GameRow} (hfit : b.tables.IdsFit)
    (hrows : rows.Sublist b.tables.games) {filter : SearchFilter} {i : ℕ} (hi : i < rows.length) :
    i * filter.effectiveLimit ≤ sqliteMax := by
  have hids : (rows.map GameRow.id).Nodup := b.tables.nodup_ids.sublist (hrows.map _)
  have hsubset : rows.map GameRow.id ⊆ List.range (2 ^ 32) := by
    intro id hid
    obtain ⟨row, hrow, rfl⟩ := List.mem_map.mp hid
    exact List.mem_range.mpr (hfit row (hrows.subset hrow))
  have hlength := (hids.subperm hsubset).length_le
  rw [List.length_map, List.length_range] at hlength
  have hlimit : filter.effectiveLimit ≤ 500 := min_le_right _ _
  calc i * filter.effectiveLimit ≤ 2 ^ 32 * 500 := Nat.mul_le_mul (hi.le.trans hlength) hlimit
    _ ≤ sqliteMax := by decide

/-- With valid postings a search by position gives the same result on both of its paths, and
stepping through the pages of any search gives its full result without a gap or a repetition. -/
theorem searchesAgree (h : b.ValidPostings) (hfit : b.tables.IdsFit) : b.SearchesAgree where
  fast := by
    intro filter hash hposition _ hoffset
    rw [findGames_eq_page h hfit hoffset, findGamesSlow_eq_page h hposition hoffset]
  pages := by
    intro filter
    refine ⟨_, isFullResult hfit filter, ?_, ?_⟩
    · intro offset n hoffsets
      exact pages_of_fullResult h hfit filter hoffsets
    · intro hlimit
      set rows := filter.inOrder (filter.selected (b.searchedRows filter)) with hrows
      have hlength : rows.length = (filter.selected (b.searchedRows filter)).length :=
        SearchFilter.length_selected_inOrder
      have hoffsets : ∀ i < rows.length, 0 + i * filter.effectiveLimit ≤ sqliteMax := by
        intro i hi
        rw [hlength] at hi
        rw [Nat.zero_add]
        exact offsets_le_sqliteMax hfit (List.filter_sublist.trans (b.searchedRows_sublist filter)) hi
      obtain ⟨pages, hpages, -, hgames⟩ := pages_of_fullResult h hfit filter hoffsets
      refine ⟨rows.length, pages, hpages, hgames.trans ?_⟩
      have hpositive : 1 ≤ filter.effectiveLimit := by
        rw [SearchFilter.effectiveLimit, maxSearchLimit]
        omega
      rw [List.drop_zero, List.take_of_length_le (Nat.le_mul_of_pos_right _ hpositive)]

end Agreement

section Sample

/-- Two entered games that start from the same position, with their postings. -/
def searchedSample : Option (Bundle (.withoutTree .ofSums)) :=
  System.run (step fun _ => 0) Powered (created "sample" "2024-01-01T00:00:00Z")
    [.open {}, .insertGame {} true enteredGame,
      .insertGame {} true { enteredGame with result := "0-1" }, .rebuildPositionPostings {}]

private theorem lawful_withoutTree (rules : Chess.Rules) : (Indexes.withoutTree rules).Lawful := by
  refine lawful_ofRules fun games pbytes p bytes tree _ _ hbuild => ?_
  cases hbuild

theorem covered_of_reaches {b : Bundle (.withoutTree rules)} {moveHash : List UInt16 → UInt64}
    {name createdAt : String} (h : Reaches moveHash Powered name createdAt b) :
    Covered (b.manager = none) b :=
  Reaches.covered (lawful_withoutTree rules) (System.Reaches.mono h fun _ _ => Powered.survivorsFit)

theorem validPostings_of_reaches {b : Bundle (.withoutTree rules)}
    {moveHash : List UInt16 → UInt64} {name createdAt : String}
    (h : Reaches moveHash Powered name createdAt b) (hfound : b.queriedPostings.isSome = true) :
    b.ValidPostings := by
  obtain ⟨⟨reader, file⟩, hasked⟩ := Option.isSome_iff_exists.mp hfound
  exact (covered_of_reaches h).postingsValid hasked

/-- The second page of the two games, one game long. -/
theorem searchesAgree_sample : ∃ b ∈ searchedSample, b.SearchesAgree ∧
    (b.findGames { position := some 0, limit := 1, offset := 1 }).map
      (fun found => (found.games.map GameListEntry.id, found.totalCount)) = .ok ([2], 2) := by
  have hrun : (searchedSample.map fun b => (b.queriedPostings.isSome,
      b.tables.games.all fun row => row.id < 2 ^ 32,
      (b.findGames { position := some 0, limit := 1, offset := 1 }).map
        fun found => (found.games.map GameListEntry.id, found.totalCount))) =
      some (true, true, .ok ([2], 2)) := by
    decide +kernel
  obtain ⟨b, hb, heq⟩ := Option.map_eq_some_iff.mp hrun
  obtain ⟨hfound, hids, hpage⟩ := by simpa only [Prod.mk.injEq] using heq
  refine ⟨b, hb, searchesAgree (validPostings_of_reaches (System.reaches_of_run hb) hfound) ?_, hpage⟩
  intro row hrow
  exact of_decide_eq_true (List.all_eq_true.mp hids row hrow)

end Sample

end Bundle

end MotifChess.Db
