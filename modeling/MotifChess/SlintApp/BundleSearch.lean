/- GID: MotifChess/SlintApp/BundleSearch
   generality: implementation
   digest: A search of a bundle lists each game at its first visit, and opening a match shows it. -/

import MotifChess.Db.Bundle.PositionMatches
import MotifChess.SlintApp.BoardPresenter
import MotifChess.SlintApp.GameBrowserPresenter
import Mathlib.Data.Finset.Max

set_option autoImplicit false
set_option relaxedAutoImplicit false

namespace MotifChess.Db.PositionPostings

section Firsts

variable {rows : List PositionRow} {hash : UInt64} {requested : List UInt32}

private theorem mem_firstOccurrencesAt {o : Occurrence} :
    o ∈ firstOccurrencesAt rows hash requested ↔ o ∈ occurrencesAt rows hash ∧ o.id ∈ requested ∧
      ∀ o' ∈ occurrencesAt rows hash, o'.id = o.id → o.ply ≤ o'.ply := by
  rw [firstOccurrencesAt, List.mem_filter, decide_eq_true_iff]

private theorem nodup_firstOccurrencesAt :
    ((firstOccurrencesAt rows hash requested).map Occurrence.id).Nodup := by
  have hdistinct : (firstOccurrencesAt rows hash requested).Nodup :=
    (pairwise_occurrencesAt.imp fun hlt => hlt.ne).filter _
  refine hdistinct.map_on fun o ho o' ho' hid => ?_
  obtain ⟨hmem, -, hfirst⟩ := mem_firstOccurrencesAt.mp ho
  obtain ⟨hmem', -, hfirst'⟩ := mem_firstOccurrencesAt.mp ho'
  have hply : o.ply = o'.ply := UInt16.le_antisymm (hfirst o' hmem' hid.symm) (hfirst' o hmem hid)
  cases o
  cases o'
  exact congrArg₂ Occurrence.mk hid hply

private theorem exists_firstOccurrence {id : UInt32} (hid : id ∈ gameIdsAt rows hash)
    (hrequested : id ∈ requested) : ∃ o ∈ firstOccurrencesAt rows hash requested, o.id = id := by
  rw [gameIdsAt, List.mem_dedup, List.mem_map] at hid
  obtain ⟨o, ho, rfl⟩ := hid
  have hvisits : ((occurrenceSet rows hash).filter fun o' => o'.id = o.id).Nonempty :=
    ⟨o, Finset.mem_filter.mpr ⟨(Finset.mem_sort _).mp ho, rfl⟩⟩
  obtain ⟨first, hfirst, hleast⟩ := Finset.exists_min_image _
    (fun o' : Occurrence => o'.ply.toNat) hvisits
  obtain ⟨hmem, hsame⟩ := Finset.mem_filter.mp hfirst
  refine ⟨first, mem_firstOccurrencesAt.mpr ⟨(Finset.mem_sort _).mpr hmem, hsame ▸ hrequested, ?_⟩,
    hsame⟩
  intro o' ho' hid'
  exact UInt16.le_iff_toNat_le.mpr
    (hleast o' (Finset.mem_filter.mpr ⟨(Finset.mem_sort _).mp ho', hid'.trans hsame⟩))

private theorem length_firstOccurrencesAt (hnodup : requested.Nodup)
    (hvisits : ∀ id ∈ requested, id ∈ gameIdsAt rows hash) :
    (firstOccurrencesAt rows hash requested).length = requested.length := by
  have hmem : ∀ id, id ∈ (firstOccurrencesAt rows hash requested).map Occurrence.id ↔
      id ∈ requested := by
    intro id
    rw [List.mem_map]
    constructor
    · rintro ⟨o, ho, rfl⟩
      exact (mem_firstOccurrencesAt.mp ho).2.1
    · intro hid
      exact exists_firstOccurrence (hvisits id hid) hid
  have hperm := (List.perm_ext_iff_of_nodup nodup_firstOccurrencesAt hnodup).mpr hmem
  rw [← hperm.length_eq, List.length_map]

end Firsts

end MotifChess.Db.PositionPostings

namespace MotifChess.SlintApp

open MotifChess.Db MotifChess.Db.PositionPostings MotifChess.Navigator

section Join

variable {Database Entry Continuation : Type}

private theorem mapM_ok {ε α β : Type} {f : α → Except ε β} {g : β → α} {P : β → Prop} {l : List α}
    (h : ∀ a ∈ l, ∃ b, f a = .ok b ∧ g b = a ∧ P b) :
    ∃ bs, l.mapM f = .ok bs ∧ bs.map g = l ∧ ∀ b ∈ bs, P b := by
  induction l with
  | nil => exact ⟨[], rfl, rfl, fun b hb => absurd hb List.not_mem_nil⟩
  | cons a l ih =>
    obtain ⟨b, hb, hsource, hP⟩ := h a List.mem_cons_self
    obtain ⟨bs, hbs, hsources, hall⟩ := ih fun a ha => h a (List.mem_cons_of_mem _ ha)
    refine ⟨b :: bs, ?_, by rw [List.map_cons, hsource, hsources], List.forall_mem_cons.mpr ⟨hP, hall⟩⟩
    rw [List.mapM_cons, hb, hbs]
    rfl

private theorem joinMatches_ok (reads : Reads Database Entry Continuation) {games : List Entry}
    {found : List PositionMatch}
    (hlength : found.length = games.length)
    (hfound : ∀ game ∈ games, ∃ m ∈ found, m.gameId = reads.gameId game) :
    ∃ matchList, joinMatches reads games found = .ok matchList ∧
      matchList.map SearchMatch.game = games ∧ ∀ m ∈ matchList, ∃ source ∈ found,
        source.gameId = reads.gameId m.game ∧ source.ply = m.ply := by
  rw [joinMatches, if_neg (not_ne_iff.mpr hlength)]
  refine mapM_ok fun game hgame => ?_
  have hsome : (found.find? fun m => m.gameId = reads.gameId game).isSome := by
    rw [List.find?_isSome]
    obtain ⟨m, hm, hid⟩ := hfound game hgame
    exact ⟨m, hm, decide_eq_true hid⟩
  obtain ⟨source, hsource⟩ := Option.isSome_iff_exists.mp hsome
  have hid : source.gameId = reads.gameId game := by simpa using List.find?_some hsource
  rw [hsource]
  exact ⟨⟨game, source.ply⟩, rfl, rfl, source, List.mem_of_find?_eq_some hsource, hid, rfl⟩

end Join

section Bundles

variable (library : Chess.Library) {Tree Continuation : Type}
  {buildTree : List ReplayGame → Reader → List UInt8 → Result (List UInt8)}
  {openTree : List UInt8 → Result Tree} {sourceGameCount : Tree → ℕ}

/-- `from_database_error`. -/
def searchFailure (code : ErrorCode) : SearchError := ⟨.databaseFailure, errorCodeName code⟩

/-- The reads of a search on a bundle, with the statistics of its openings. -/
def bundleReads
    (stats : Bundle (.ofRules library.toRules Tree buildTree openTree sourceGameCount) → UInt64 →
      SearchFilter → Except SearchError (OpeningStats Continuation)) :
    Reads (Bundle (.ofRules library.toRules Tree buildTree openTree sourceGameCount)) GameListEntry
      Continuation where
  gameId := GameListEntry.id
  findGames b filter := ((b.findGames filter).mapError searchFailure).map fun found =>
    (found.games, (found.totalCount : ℤ))
  firstMatches b hash ids := (b.queryPositionFirstMatches hash ids).mapError searchFailure
  openingStats := stats

/-- A match that is exact: its game is stored and visits the position at its ply and at no earlier
one, and a board on which the game is loaded at that ply shows the position. -/
structure IsExact (b : Bundle (.ofRules library.toRules Tree buildTree openTree sourceGameCount))
    (hash : UInt64) (m : SearchMatch GameListEntry) : Prop where
  stored : ∃ row ∈ b.tables.games, m.game = row.listEntry ∧
    ReachesAt library.toRules row.stored.moves hash m.ply.toNat ∧
    ∀ ply, ReachesAt library.toRules row.stored.moves hash ply → m.ply.toNat ≤ ply
  shown : ∃ game, b.tables.get m.game.id.toNat = .ok game ∧ ∀ p : BoardPresenter,
    (p.applyLoadedGameAt library m.game.id game m.ply.toNat).state.currentHash = some hash ∧
    (p.applyLoadedGameAt library m.game.id game m.ply.toNat).state.currentPly = m.ply.toNat

/-- The exact answer to a query: its page of the games that the filter keeps and that visit the
position, with the number of all of them, each game with an exact match. -/
structure IsExactPage (b : Bundle (.ofRules library.toRules Tree buildTree openTree sourceGameCount))
    (query : SearchQuery) (page : SearchPage GameListEntry Continuation) : Prop where
  answers : page.generation = query.generation ∧ page.hash = query.hash ∧ page.filter = query.filter
  listed : ∃ rows, b.IsFullResult query.filter rows ∧ page.totalMatches = rows.length ∧
    page.matchList.map SearchMatch.game = ((rows.drop query.filter.offset).take
      query.filter.effectiveLimit).map GameRow.listEntry
  exact : ∀ m ∈ page.matchList, IsExact library b query.hash m

variable {b : Bundle (.ofRules library.toRules Tree buildTree openTree sourceGameCount)}
  (stats : Bundle (.ofRules library.toRules Tree buildTree openTree sourceGameCount) → UInt64 →
    SearchFilter → Except SearchError (OpeningStats Continuation))

private theorem applyLoadedGameAt_shows (game : Game) {ply : ℕ} (hply : ply ≤ game.moves.length)
    (hlength : game.moves.length ≤ 65535) (gameId : UInt32) (p : BoardPresenter) :
    (p.applyLoadedGameAt library gameId game ply).state.currentHash =
        some (library.hash (library.play library.start (game.moves.take ply))) ∧
      (p.applyLoadedGameAt library gameId game ply).state.currentPly = ply := by
  have hclamped : min ply game.moves.length = ply := Nat.min_eq_left hply
  have hhash := GameNavigator.currentHash_eq (n := (GameNavigator.load game).navigateTo ply) library
    (Nat.min_le_right _ _) hlength
  have hmoves : ((GameNavigator.load game).navigateTo ply).moves.take
      ((GameNavigator.load game).navigateTo ply).ply = game.moves.take ply :=
    congrArg (game.moves.take ·) hclamped
  rw [hmoves] at hhash
  exact ⟨hhash, hclamped⟩

private theorem isExact_of_first (h : b.ValidPostings) (hfit : b.tables.IdsFit) {row : GameRow}
    (hrow : row ∈ b.tables.games) {hash : UInt64} {requested : List UInt32} {o : Occurrence}
    (ho : o ∈ firstOccurrencesAt b.replayedRows hash requested)
    (hid : o.id = UInt32.ofNat row.id) : IsExact library b hash ⟨row.listEntry, o.ply⟩ := by
  obtain ⟨hmem, -, hleast⟩ := mem_firstOccurrencesAt.mp ho
  obtain ⟨game, hgame, hgameId, hreaches⟩ := (mem_occurrencesAt_gameRows h.replayed).mp hmem
  obtain ⟨visitor, hvisitor, rfl⟩ := List.mem_map.mp hgame
  obtain rfl := hfit.eq_of_id hvisitor hrow (hgameId.trans hid)
  obtain ⟨call, hcall⟩ := h.replayed.rows _ (List.mem_map_of_mem hrow)
  obtain ⟨(hlength : visitor.stored.moves.length ≤ 65535), -⟩ := mem_replayRows hcall
  refine ⟨⟨visitor, hrow, rfl, hreaches, fun ply hply => ?_⟩, (b.tables.gameOf visitor).read, ?_, ?_⟩
  · have hle := hleast _ (h.mem_occurrencesAt hrow hply) hid.symm
    rw [UInt16.le_iff_toNat_le, h.toNat_ply hrow hply] at hle
    exact hle
  · have hrowId : visitor.listEntry.id.toNat = visitor.id := hfit.toNat_id hrow
    rw [hrowId]
    exact Tables.get_of_mem hrow
  · intro p
    obtain ⟨hhash, hply⟩ := applyLoadedGameAt_shows library (b.tables.gameOf visitor).read
      hreaches.1 hlength visitor.listEntry.id p
    refine ⟨hhash.trans (congrArg some hreaches.2), hply⟩

/-- A query on a bundle with valid postings has an exact answer, unless the statistics of the openings
fail: the two searches that it makes never disagree. -/
theorem executeQuery_exact (h : b.ValidPostings) (hfit : b.tables.IdsFit) {query : SearchQuery}
    (hposition : query.filter.position = some query.hash)
    (hoffset : query.filter.offset ≤ sqliteMax) :
    (∃ e, stats b query.hash query.filter = .error e ∧
        executeQuery (bundleReads library stats) b b b query = .error e) ∨
      ∃ page, IsExactPage library b query page ∧
        executeQuery (bundleReads library stats) b b b query = .ok page := by
  set rows := query.filter.inOrder (query.filter.selected (b.searchedRows query.filter)) with hrows
  set shown := (rows.drop query.filter.offset).take query.filter.effectiveLimit with hshown
  have hfull : b.IsFullResult query.filter rows := b.isFullResult hfit query.filter
  have hsubset : ∀ row ∈ shown, row ∈ b.tables.games ∧
      UInt32.ofNat row.id ∈ gameIdsAt b.replayedRows query.hash := by
    intro row hrow
    obtain ⟨hstored, -, hvisits⟩ := (hfull.mem_iff row).mp
      (List.mem_of_mem_drop (List.mem_of_mem_take hrow))
    exact ⟨hstored, hvisits query.hash hposition⟩
  have hids : ((shown.map GameRow.listEntry).map GameListEntry.id).Nodup := by
    have hsublist : shown.Sublist rows := (List.take_sublist _ _).trans (List.drop_sublist _ _)
    have hnodup : (rows.map GameRow.id).Nodup := by
      refine (SearchFilter.inOrder_perm.map _).nodup_iff.mpr ?_
      exact b.tables.nodup_ids.sublist
        ((List.filter_sublist.trans (b.searchedRows_sublist query.filter)).map _)
    rw [List.map_map]
    refine (List.Nodup.of_map _ (hnodup.sublist (hsublist.map _))).map_on fun row hrow other hother hid => ?_
    exact hfit.eq_of_id (hsubset row hrow).1 (hsubset other hother).1 hid
  have hvisits : ∀ id ∈ (shown.map GameRow.listEntry).map GameListEntry.id,
      id ∈ gameIdsAt b.replayedRows query.hash := by
    intro id hid
    rw [List.map_map] at hid
    obtain ⟨row, hrow, rfl⟩ := List.mem_map.mp hid
    exact (hsubset row hrow).2
  have hgames : (bundleReads library stats).findGames b query.filter =
      .ok (shown.map GameRow.listEntry, (rows.length : ℤ)) := by
    change ((b.findGames query.filter).mapError _).map _ = _
    rw [Bundle.findGames_eq_page h hfit hoffset, hrows, SearchFilter.length_selected_inOrder]
    rfl
  obtain ⟨reader, bytes, hanswers, hask⟩ := h.ask
  set firsts := firstOccurrencesAt b.replayedRows query.hash
    ((shown.map GameRow.listEntry).map GameListEntry.id) with hfirsts
  have hfirst : (bundleReads library stats).firstMatches b query.hash
      ((shown.map GameRow.listEntry).map (bundleReads library stats).gameId) =
      .ok (firsts.map (matchAt b.replayedRows)) := by
    change (b.queryPositionFirstMatches _ _).mapError _ = _
    rw [Bundle.queryPositionFirstMatches, hask, hanswers.firstOccurrences]
    rfl
  have hlength : (firsts.map (matchAt b.replayedRows)).length =
      (shown.map GameRow.listEntry).length := by
    rw [List.length_map, length_firstOccurrencesAt hids hvisits, List.length_map]
  have hfound : ∀ game ∈ shown.map GameRow.listEntry,
      ∃ m ∈ firsts.map (matchAt b.replayedRows), m.gameId = game.id := by
    intro game hgame
    have hmem : game.id ∈ (shown.map GameRow.listEntry).map GameListEntry.id :=
      List.mem_map_of_mem hgame
    obtain ⟨o, ho, hid⟩ := exists_firstOccurrence (hvisits _ hmem) hmem
    exact ⟨_, List.mem_map_of_mem ho, hid⟩
  obtain ⟨matchList, hjoin, hlisted, hmatches⟩ :=
    joinMatches_ok (bundleReads library stats) hlength hfound
  have hexact : ∀ m ∈ matchList, IsExact library b query.hash m := by
    intro m hm
    obtain ⟨source, hsource, hid, hply⟩ := hmatches m hm
    obtain ⟨o, ho, rfl⟩ := List.mem_map.mp hsource
    have hgame : m.game ∈ shown.map GameRow.listEntry := hlisted ▸ List.mem_map_of_mem hm
    obtain ⟨row, hrow, hentry⟩ := List.mem_map.mp hgame
    have hrowId : o.id = UInt32.ofNat row.id := hid.trans (congrArg GameListEntry.id hentry.symm)
    have hmatch : m = ⟨row.listEntry, o.ply⟩ := by
      cases m
      exact congrArg₂ SearchMatch.mk hentry.symm hply.symm
    rw [hmatch]
    exact isExact_of_first library h hfit (hsubset row hrow).1 ho hrowId
  have hopening : (bundleReads library stats).openingStats b query.hash query.filter =
      stats b query.hash query.filter := rfl
  unfold executeQuery
  rw [hgames]
  change (∃ e, _ ∧ ((bundleReads library stats).firstMatches b query.hash _ >>= _) = _) ∨
    ∃ page, _ ∧ ((bundleReads library stats).firstMatches b query.hash _ >>= _) = _
  rw [hfirst]
  change (∃ e, _ ∧ (joinMatches _ _ _ >>= _) = _) ∨ ∃ page, _ ∧ (joinMatches _ _ _ >>= _) = _
  rw [hjoin]
  change (∃ e, _ ∧ ((bundleReads library stats).openingStats b query.hash query.filter >>= _) = _) ∨
    ∃ page, _ ∧ ((bundleReads library stats).openingStats b query.hash query.filter >>= _) = _
  rw [hopening]
  cases stats b query.hash query.filter with
  | error e => exact .inl ⟨e, rfl, rfl⟩
  | ok continuations =>
    exact .inr ⟨_, ⟨⟨rfl, rfl, rfl⟩, ⟨rows, hfull, rfl, hlisted⟩, hexact⟩, rfl⟩

/-- The chess library of the samples: its positions have no text. -/
private def sums : Chess.Library where
  toRules := .ofSums
  writeFen _ := ""
  parseFen _ := none
  legalMoves _ := []

private def secondPage : SearchQuery := ⟨1, 0, { position := some 0, limit := 1, offset := 1 }⟩

private def noStats : Bundle (.withoutTree .ofSums) → UInt64 → SearchFilter →
    Except SearchError (OpeningStats Unit) := fun _ _ _ => .ok ⟨[], 2⟩

/-- The second page of two games, one game long. -/
theorem executeQuery_exact_sample : ∃ b ∈ Bundle.searchedSample, ∃ page,
    IsExactPage sums b secondPage page ∧
      executeQuery (bundleReads sums noStats) b b b secondPage = .ok page := by
  have hrun : (Bundle.searchedSample.map fun b => (b.queriedPostings.isSome,
      b.tables.games.all fun row => row.id < 2 ^ 32)) = some (true, true) := by
    decide +kernel
  obtain ⟨b, hb, heq⟩ := Option.map_eq_some_iff.mp hrun
  obtain ⟨hfound, hids⟩ := Prod.mk.inj heq
  have hvalid := Bundle.validPostings_of_reaches (System.reaches_of_run hb) hfound
  have hfit : b.tables.IdsFit := fun row hrow => of_decide_eq_true (List.all_eq_true.mp hids row hrow)
  have hposition : secondPage.filter.position = some secondPage.hash := rfl
  refine ⟨b, hb, ?_⟩
  rcases executeQuery_exact sums noStats hvalid hfit hposition (by decide) with ⟨e, he, -⟩ | hpage
  · have hok : (.ok ⟨[], 2⟩ : Except SearchError (OpeningStats Unit)) = .error e := he
    cases hok
  · exact hpage

end Bundles

end MotifChess.SlintApp
