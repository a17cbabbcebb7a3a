/- GID: MotifChess/SlintApp/GameBrowserRuns
   generality: implementation
   digest: Interleavings of queries, selections and activations keep the game browser consistent. -/

import MotifChess.SlintApp.GameBrowserPresenter
import MotifChess.System.Run
import Mathlib.Tactic.Linarith

set_option autoImplicit false
set_option relaxedAutoImplicit false

namespace MotifChess.SlintApp

open MotifChess.Db

variable {Database Entry Game : Type}

section State

namespace GameBrowserState

variable (entryId : Entry → UInt32)

/-- A selected row is on the shown page and has the selected game, and the page buttons agree with the
page index, the page size and the total count. -/
structure Consistent (s : GameBrowserState Entry Game) : Prop where
  selected : ∀ row, s.selectedRow = some row → s.hasSelection = true ∧
    ∃ entry, s.games[row]? = some entry ∧ entryId entry = s.selectedGameId
  hasPrevious : s.hasPreviousPage = true ↔ 0 < s.pageIndex
  hasNext : s.hasNextPage = true ↔ ((s.pageIndex + 1) * browserPageSize : ℕ) < s.totalCount

/-- The page and the total count are within what a database can hold. -/
structure Bounded (s : GameBrowserState Entry Game) : Prop where
  page : s.pageIndex * browserPageSize ≤ 2 ^ 48
  total : s.totalCount ≤ 2 ^ 48

/-- A state that shows what another one shows: only filters, texts, generations and column widths
differ. -/
structure SameView (s t : GameBrowserState Entry Game) : Prop where
  games : t.games = s.games
  totalCount : t.totalCount = s.totalCount
  pageIndex : t.pageIndex = s.pageIndex
  hasPreviousPage : t.hasPreviousPage = s.hasPreviousPage
  hasNextPage : t.hasNextPage = s.hasNextPage
  selectedRow : t.selectedRow = s.selectedRow
  selectedGameId : t.selectedGameId = s.selectedGameId
  hasSelection : t.hasSelection = s.hasSelection
  activeGameId : t.activeGameId = s.activeGameId
  activeGame : t.activeGame = s.activeGame

variable {entryId} {s t u : GameBrowserState Entry Game}

theorem SameView.refl : SameView s s := ⟨rfl, rfl, rfl, rfl, rfl, rfl, rfl, rfl, rfl, rfl⟩

private theorem sameView_fail {α : Type} (message : String) :
    SameView s (s.fail (α := α) message).1 := ⟨rfl, rfl, rfl, rfl, rfl, rfl, rfl, rfl, rfl, rfl⟩

theorem SameView.consistent (h : SameView s t) (hs : s.Consistent entryId) :
    t.Consistent entryId where
  selected := by
    intro row hrow
    rw [h.games, h.selectedGameId, h.hasSelection]
    exact hs.selected row (h.selectedRow ▸ hrow)
  hasPrevious := by
    rw [h.hasPreviousPage, h.pageIndex]
    exact hs.hasPrevious
  hasNext := by
    rw [h.hasNextPage, h.pageIndex, h.totalCount]
    exact hs.hasNext

private theorem SameView.bounded (h : SameView s t) (hs : s.Bounded) : t.Bounded :=
  ⟨h.pageIndex ▸ hs.page, h.totalCount ▸ hs.total⟩

/-- What the preparation of a query does: it fails and changes no generation, or the query has the next
generation and an offset in the database. -/
structure PreparesQuery (s : GameBrowserState Entry Game)
    (outcome : GameBrowserState Entry Game × Except BrowserError BrowserQuery) : Prop where
  view : SameView s outcome.1
  activation : outcome.1.activationGeneration = s.activationGeneration
  failed : ∀ e, outcome.2 = .error e → outcome.1.queryGeneration = s.queryGeneration
  made : ∀ query, outcome.2 = .ok query → outcome.1.queryGeneration = s.queryGeneration + 1 ∧
    query.generation = s.queryGeneration + 1 ∧ query.filter.offset ≤ 2 ^ 48

private theorem preparesQuery_fail (message : String) : PreparesQuery s (s.fail message) where
  view := sameView_fail message
  activation := rfl
  failed _ _ := rfl
  made _ h := by cases h

private theorem preparesQuery_makeQuery {pageIndex : ℕ} (h : pageIndex * browserPageSize ≤ 2 ^ 48) :
    PreparesQuery s (s.makeQuery pageIndex) := by
  unfold makeQuery
  split
  · exact preparesQuery_fail _
  · refine ⟨⟨rfl, rfl, rfl, rfl, rfl, rfl, rfl, rfl, rfl, rfl⟩, rfl, fun e he => ?_,
      fun query hquery => ?_⟩
    · cases he
    · obtain rfl := Except.ok.inj hquery
      exact ⟨rfl, rfl, (Nat.mod_le _ _).trans h⟩

private theorem preparesQuery_first : PreparesQuery s (s.makeQuery 0) :=
  preparesQuery_makeQuery (by decide)

theorem PreparesQuery.of_view {outcome : GameBrowserState Entry Game × Except BrowserError BrowserQuery}
    (h : PreparesQuery t outcome) (hview : SameView s t)
    (hquery : t.queryGeneration = s.queryGeneration)
    (hactivation : t.activationGeneration = s.activationGeneration) : PreparesQuery s outcome where
  view := {
    games := h.view.games.trans hview.games
    totalCount := h.view.totalCount.trans hview.totalCount
    pageIndex := h.view.pageIndex.trans hview.pageIndex
    hasPreviousPage := h.view.hasPreviousPage.trans hview.hasPreviousPage
    hasNextPage := h.view.hasNextPage.trans hview.hasNextPage
    selectedRow := h.view.selectedRow.trans hview.selectedRow
    selectedGameId := h.view.selectedGameId.trans hview.selectedGameId
    hasSelection := h.view.hasSelection.trans hview.hasSelection
    activeGameId := h.view.activeGameId.trans hview.activeGameId
    activeGame := h.view.activeGame.trans hview.activeGame }
  activation := h.activation.trans hactivation
  failed e he := (h.failed e he).trans hquery
  made query hmade := by
    rw [← hquery]
    exact h.made query hmade

private theorem preparesQuery_setPage (h : s.Bounded) (pageIndex : ℕ) :
    PreparesQuery s (s.setPage pageIndex) := by
  unfold setPage
  dsimp only
  by_cases hpage : (if s.totalCount.toNat = 0 then 1 else
      (s.totalCount.toNat - 1) / browserPageSize + 1) ≤ pageIndex
  · rw [if_pos hpage]
    exact preparesQuery_fail _
  · rw [if_neg hpage]
    apply preparesQuery_makeQuery
    have htotal := h.total
    unfold browserPageSize at hpage ⊢
    split at hpage <;> omega

private theorem preparesQuery_nextPage (h : s.Bounded) (hs : s.Consistent entryId) :
    PreparesQuery s s.nextPage := by
  unfold nextPage
  split
  · next hnext =>
    apply preparesQuery_makeQuery
    have htotal := h.total
    have hbelow := hs.hasNext.mp hnext
    unfold browserPageSize at hbelow ⊢
    omega
  · exact preparesQuery_fail _

private theorem preparesQuery_previousPage (h : s.Bounded) (hs : s.Consistent entryId) :
    PreparesQuery s s.previousPage := by
  unfold previousPage
  split
  · next hprevious =>
    apply preparesQuery_makeQuery
    have hpage := h.page
    have hpositive := hs.hasPrevious.mp hprevious
    unfold browserPageSize at hpage ⊢
    omega
  · exact preparesQuery_fail _

/-- What the preparation of an activation does: it fails and changes no generation, or the request has
the next generation. -/
structure PreparesActivation (s : GameBrowserState Entry Game)
    (outcome : GameBrowserState Entry Game × Except BrowserError ActivationRequest) : Prop where
  view : SameView s outcome.1
  query : outcome.1.queryGeneration = s.queryGeneration
  failed : ∀ e, outcome.2 = .error e → outcome.1.activationGeneration = s.activationGeneration
  made : ∀ request, outcome.2 = .ok request →
    outcome.1.activationGeneration = s.activationGeneration + 1 ∧
      request.generation = s.activationGeneration + 1

private theorem preparesActivation_external (gameId : UInt32) :
    PreparesActivation s (s.prepareExternalActivation gameId) where
  view := ⟨rfl, rfl, rfl, rfl, rfl, rfl, rfl, rfl, rfl, rfl⟩
  query := rfl
  failed _ h := by cases h
  made request h := by
    obtain rfl := Except.ok.inj h
    exact ⟨rfl, rfl⟩

private theorem preparesActivation_selected : PreparesActivation s s.prepareActivation := by
  unfold prepareActivation
  split
  · exact preparesActivation_external s.selectedGameId
  · exact ⟨sameView_fail _, rfl, fun _ _ => rfl, fun _ h => by cases h⟩

private theorem rowOf_eq_some {gameId : UInt32} {games : List Entry} {row : ℕ}
    (h : rowOf entryId gameId games = some row) :
    ∃ entry, games[row]? = some entry ∧ entryId entry = gameId := by
  obtain ⟨hlt, hfound, -⟩ := List.findIdx?_eq_some_iff_getElem.mp h
  exact ⟨games[row], List.getElem?_eq_getElem hlt, of_decide_eq_true hfound⟩

private theorem applyQueryError_view (generation : UInt64) (error : BrowserError) :
    SameView s (s.applyQueryError generation error).1 ∧
      (s.applyQueryError generation error).1.queryGeneration = s.queryGeneration ∧
      (s.applyQueryError generation error).1.activationGeneration = s.activationGeneration := by
  unfold applyQueryError
  split
  · exact ⟨.refl, rfl, rfl⟩
  · exact ⟨⟨rfl, rfl, rfl, rfl, rfl, rfl, rfl, rfl, rfl, rfl⟩, rfl, rfl⟩

private theorem applyActivationError_view (generation : UInt64) (error : BrowserError) :
    SameView s (s.applyActivationError generation error).1 ∧
      (s.applyActivationError generation error).1.queryGeneration = s.queryGeneration ∧
      (s.applyActivationError generation error).1.activationGeneration = s.activationGeneration := by
  unfold applyActivationError
  split
  · exact ⟨.refl, rfl, rfl⟩
  · exact ⟨⟨rfl, rfl, rfl, rfl, rfl, rfl, rfl, rfl, rfl, rfl⟩, rfl, rfl⟩

private theorem nextOffset_eq {pageIndex : ℕ} (h : pageIndex * browserPageSize ≤ 2 ^ 48) :
    nextOffset pageIndex = ((pageIndex + 1) * browserPageSize : ℕ) := by
  unfold nextOffset browserPageSize at *
  rw [Int.bmod_def]
  omega

theorem applyQuery_cases (page : BrowserPage Entry) :
    (s.applyQuery entryId page = (s, false) ∧ page.generation ≠ s.queryGeneration) ∨
      ∃ t, s.applyQuery entryId page = (t, true) ∧ page.generation = s.queryGeneration ∧
        t.games = page.games ∧ t.totalCount = page.totalCount ∧ t.pageIndex = page.pageIndex ∧
        t.queryGeneration = s.queryGeneration ∧
        t.activationGeneration = s.activationGeneration ∧
        t.activeGameId = s.activeGameId ∧ t.activeGame = s.activeGame ∧
        (page.pageIndex * browserPageSize ≤ 2 ^ 48 → t.Consistent entryId) := by
  by_cases hgen : page.generation = s.queryGeneration
  · refine .inr ⟨_, if_neg (not_not.mpr hgen), hgen, rfl, rfl, rfl, rfl, rfl, rfl, rfl, ?_⟩
    intro hpage
    refine ⟨fun row hrow => ?_, decide_eq_true_iff, ?_⟩
    · dsimp only at hrow
      split at hrow
      next hselection => exact ⟨hselection, rowOf_eq_some hrow⟩
      next => cases hrow
    · rw [nextOffset_eq hpage, Bool.and_eq_true, decide_eq_true_iff, decide_eq_true_iff]
      constructor
      · exact And.right
      · intro hnext
        exact ⟨lt_of_le_of_lt (Int.natCast_nonneg _) hnext, hnext⟩
  · exact .inl ⟨if_pos hgen, hgen⟩

private theorem applyGame_cases (hs : s.Consistent entryId) (external : Bool) (loaded : LoadedGame Game) :
    (if external then s.applyExternalActivation entryId loaded else s.applyActivation loaded) =
        (s, false) ∨
      ∃ t, (if external then s.applyExternalActivation entryId loaded else s.applyActivation loaded) =
          (t, true) ∧
        loaded.generation = s.activationGeneration ∧ t.Consistent entryId ∧ t.games = s.games ∧
        t.totalCount = s.totalCount ∧ t.pageIndex = s.pageIndex ∧
        t.queryGeneration = s.queryGeneration ∧
        t.activationGeneration = s.activationGeneration ∧
        t.activeGameId = loaded.gameId ∧ t.activeGame = some loaded.game := by
  cases external with
  | true =>
    rw [if_pos rfl, applyExternalActivation]
    by_cases hgen : loaded.generation = s.activationGeneration
    · rw [if_neg (not_not.mpr hgen)]
      refine .inr ⟨_, rfl, hgen, ⟨fun row hrow => ⟨rfl, rowOf_eq_some hrow⟩, hs.hasPrevious,
        hs.hasNext⟩, rfl, rfl, rfl, rfl, rfl, rfl, rfl⟩
    · exact .inl (if_pos hgen)
  | false =>
    rw [if_neg (by decide), applyActivation]
    split
    · exact .inl rfl
    · next hkept =>
      have hgen : loaded.generation = s.activationGeneration := by
        by_contra hgen
        simp [hgen] at hkept
      exact .inr ⟨_, rfl, hgen, ⟨hs.selected, hs.hasPrevious, hs.hasNext⟩, rfl, rfl, rfl, rfl, rfl,
        rfl, rfl⟩

private theorem consistent_selectGame (hs : s.Consistent entryId) (row : ℕ) :
    (s.selectGame entryId row).1.Consistent entryId := by
  unfold selectGame
  split
  · exact (sameView_fail _).consistent hs
  · next entry hentry =>
    refine ⟨fun row' hrow' => ?_, hs.hasPrevious, hs.hasNext⟩
    obtain rfl := Option.some.inj hrow'
    exact ⟨rfl, entry, hentry, rfl⟩


end GameBrowserState

end State

section Generations

variable {ρ : Type} {generation : ρ → UInt64} {issued : List ρ}

/-- The generations of requests count them in the order in which they were issued. -/
def Numbered (generation : ρ → UInt64) (issued : List ρ) : Prop :=
  ∀ i request, issued[i]? = some request → generation request = UInt64.ofNat (i + 1)

theorem Numbered.concat (h : Numbered generation issued) {request : ρ}
    (hnext : generation request = UInt64.ofNat (issued.length + 1)) :
    Numbered generation (issued ++ [request]) := by
  intro i other hother
  rw [List.getElem?_append] at hother
  split at hother
  · exact h i other hother
  · next hlast =>
    obtain ⟨hi, rfl⟩ := List.getElem?_eq_some_iff.mp hother
    rw [List.length_singleton] at hi
    obtain rfl : i = issued.length := by omega
    rw [List.getElem_singleton]
    exact hnext

theorem Numbered.last (h : Numbered generation issued) {i : ℕ} {request : ρ}
    (hrequest : issued[i]? = some request)
    (hlatest : generation request = UInt64.ofNat issued.length) (hfew : issued.length ≤ 2 ^ 64) :
    i + 1 = issued.length := by
  obtain ⟨hi, -⟩ := List.getElem?_eq_some_iff.mp hrequest
  have hequal := congrArg UInt64.toNat ((h i request hrequest).symm.trans hlatest)
  rw [UInt64.toNat_ofNat', UInt64.toNat_ofNat'] at hequal
  omega

private theorem ofNat_succ (n : ℕ) : UInt64.ofNat n + 1 = UInt64.ofNat (n + 1) := by
  rw [UInt64.ofNat_add]
  rfl

end Generations

section System

/-- The presenter calls that prepare a query. -/
inductive QueryCall
  | initialLoad
  | setFilters (playerName result : String)
  | sortGames (column : ℕ) (ascending : Bool)
  | setPage (pageIndex : ℕ)
  | nextPage
  | previousPage

def QueryCall.prepare (s : GameBrowserState Entry Game) :
    QueryCall → GameBrowserState Entry Game × Except BrowserError BrowserQuery
  | .initialLoad => s.prepareInitialLoad
  | .setFilters playerName result => s.setFilters playerName result
  | .sortGames column ascending => s.sortGames column ascending
  | .setPage pageIndex => s.setPage pageIndex
  | .nextPage => s.nextPage
  | .previousPage => s.previousPage

/-- An activation that was requested for the selected row, or for a game from outside the browser. -/
structure Activation where
  request : ActivationRequest
  external : Bool

def Activation.generation (activation : Activation) : UInt64 := activation.request.generation

/-- Something that came to be shown, with the latest generation of its kind at that time and the number
of requests issued until then. -/
structure Applied (α : Type) where
  value : α
  latest : UInt64
  issued : ℕ

/-- The presenter with the requests that it issued and the results that are to be applied. The shown
pages and games are logged, the last one first. -/
structure GameBrowser (Database Entry Game : Type) where
  state : GameBrowserState Entry Game := {}
  database : Database
  queries : List BrowserQuery := []
  activations : List Activation := []
  pages : List (BrowserQuery × Except BrowserError (BrowserPage Entry)) := []
  loads : List (Activation × Except BrowserError (LoadedGame Game)) := []
  shownPages : List (Applied (BrowserPage Entry)) := []
  shownGames : List (Applied (LoadedGame Game)) := []

inductive BrowserAction (Database : Type)
  | prepareQuery (call : QueryCall)
  | executeQuery (query : ℕ)
  | applyQuery (page : ℕ)
  | selectGame (row : ℕ)
  | moveSelection (delta : ℤ)
  | prepareActivation
  | prepareExternalActivation (gameId : UInt32)
  | executeActivation (activation : ℕ)
  | applyActivation (load : ℕ)
  | resizeColumn (column : ℕ) (width : ℤ)
  | dismissError
  | changeDatabase (database : Database)

namespace GameBrowser

variable (reads : BrowserReads Database Entry Game)

/-- The application of the result of a query. -/
def deliverPage (query : BrowserQuery) (result : Except BrowserError (BrowserPage Entry))
    (s : GameBrowser Database Entry Game) : GameBrowser Database Entry Game :=
  match result with
  | .error e => { s with state := (s.state.applyQueryError query.generation e).1 }
  | .ok page =>
    match s.state.applyQuery reads.entryId page with
    | (_, false) => s
    | (state, true) => { s with
        state
        shownPages := ⟨page, s.state.queryGeneration, s.queries.length⟩ :: s.shownPages }

/-- The application of the result of an activation, by the handler for its kind. -/
def deliverGame (activation : Activation) (result : Except BrowserError (LoadedGame Game))
    (s : GameBrowser Database Entry Game) : GameBrowser Database Entry Game :=
  match result with
  | .error e => { s with state := (s.state.applyActivationError activation.generation e).1 }
  | .ok loaded =>
    match if activation.external then s.state.applyExternalActivation reads.entryId loaded
      else s.state.applyActivation loaded with
    | (_, false) => s
    | (state, true) => { s with
        state
        shownGames := ⟨loaded, s.state.activationGeneration, s.activations.length⟩ :: s.shownGames }

/-- The state after a request was prepared, with the request issued unless it failed. -/
def issueQuery (outcome : GameBrowserState Entry Game × Except BrowserError BrowserQuery)
    (s : GameBrowser Database Entry Game) : GameBrowser Database Entry Game :=
  { s with state := outcome.1, queries := s.queries ++ outcome.2.toOption.toList }

def issueActivation (external : Bool)
    (outcome : GameBrowserState Entry Game × Except BrowserError ActivationRequest)
    (s : GameBrowser Database Entry Game) : GameBrowser Database Entry Game :=
  { s with
    state := outcome.1
    activations := s.activations ++ outcome.2.toOption.toList.map fun request => ⟨request, external⟩ }

def step (s : GameBrowser Database Entry Game) :
    BrowserAction Database → Option (GameBrowser Database Entry Game)
  | .prepareQuery call => some (s.issueQuery (call.prepare s.state))
  | .executeQuery i => s.queries[i]?.map fun query =>
      { s with pages := s.pages ++ [(query, reads.executeQuery s.database query)] }
  | .applyQuery i => s.pages[i]?.map fun page =>
      { s.deliverPage reads page.1 page.2 with pages := s.pages.eraseIdx i }
  | .selectGame row => some { s with state := (s.state.selectGame reads.entryId row).1 }
  | .moveSelection delta => some { s with state := (s.state.moveSelection reads.entryId delta).1 }
  | .prepareActivation => some (s.issueActivation false s.state.prepareActivation)
  | .prepareExternalActivation gameId =>
    some (s.issueActivation true (s.state.prepareExternalActivation gameId))
  | .executeActivation i => s.activations[i]?.map fun activation =>
      { s with
        loads := s.loads ++ [(activation, reads.executeActivation s.database activation.request)] }
  | .applyActivation i => s.loads[i]?.map fun load =>
      { s.deliverGame reads load.1 load.2 with loads := s.loads.eraseIdx i }
  | .resizeColumn column width => some { s with state := (s.state.resizeColumn column width).1 }
  | .dismissError => some { s with state := s.state.dismissError }
  | .changeDatabase database => some { s with database }

/-- Every shown page was the result of the last query issued when it came to be shown, every shown game
that of the last activation, and the presenter's state is consistent. -/
structure Consistent (s : GameBrowser Database Entry Game) : Prop where
  state : s.state.Consistent reads.entryId
  shownPage : (s.state.games, s.state.totalCount, s.state.pageIndex) = s.shownPages.head?.elim
    ([], 0, 0) fun shown => (shown.value.games, shown.value.totalCount, shown.value.pageIndex)
  pageLatest : ∀ shown ∈ s.shownPages, ∃ i query database, s.queries[i]? = some query ∧
    reads.executeQuery database query = .ok shown.value ∧ query.generation = shown.latest ∧
    (shown.issued ≤ 2 ^ 64 → i + 1 = shown.issued)
  pagesOrdered : s.shownPages.Pairwise fun newer older => older.issued ≤ newer.issued
  shownGame : (s.state.activeGameId, s.state.activeGame) = s.shownGames.head?.elim (0, none)
    fun shown => (shown.value.gameId, some shown.value.game)
  gameLatest : ∀ shown ∈ s.shownGames, ∃ i activation database, s.activations[i]? = some activation ∧
    reads.executeActivation database activation.request = .ok shown.value ∧
    activation.generation = shown.latest ∧ (shown.issued ≤ 2 ^ 64 → i + 1 = shown.issued)
  gamesOrdered : s.shownGames.Pairwise fun newer older => older.issued ≤ newer.issued

private structure Invariant (s : GameBrowser Database Entry Game) : Prop extends Consistent reads s where
  bounded : s.state.Bounded
  queriesNumbered : Numbered BrowserQuery.generation s.queries
  queriesCounted : s.state.queryGeneration = UInt64.ofNat s.queries.length
  offsets : ∀ query ∈ s.queries, query.filter.offset ≤ 2 ^ 48
  pages : ∀ page ∈ s.pages, ∃ (i : ℕ) (database : Database), s.queries[i]? = some page.1 ∧
    page.2 = reads.executeQuery database page.1
  pagesIssued : ∀ shown ∈ s.shownPages, shown.issued ≤ s.queries.length
  activationsNumbered : Numbered Activation.generation s.activations
  activationsCounted : s.state.activationGeneration = UInt64.ofNat s.activations.length
  loads : ∀ load ∈ s.loads, ∃ (i : ℕ) (database : Database), s.activations[i]? = some load.1 ∧
    load.2 = reads.executeActivation database load.1.request
  gamesIssued : ∀ shown ∈ s.shownGames, shown.issued ≤ s.activations.length

variable {reads} {s t : GameBrowser Database Entry Game}

private theorem getElem?_concat {ρ : Type} {issued more : List ρ} {i : ℕ} {request : ρ}
    (h : issued[i]? = some request) : (issued ++ more)[i]? = some request := by
  obtain ⟨hi, -⟩ := List.getElem?_eq_some_iff.mp h
  rw [List.getElem?_append_left hi]
  exact h

private theorem Invariant.setState (h : Invariant reads s) {state : GameBrowserState Entry Game}
    (hconsistent : state.Consistent reads.entryId)
    (hpage : (state.games, state.totalCount, state.pageIndex) =
      (s.state.games, s.state.totalCount, s.state.pageIndex))
    (hgame : (state.activeGameId, state.activeGame) = (s.state.activeGameId, s.state.activeGame))
    (hqueries : state.queryGeneration = s.state.queryGeneration)
    (hactivations : state.activationGeneration = s.state.activationGeneration) :
    Invariant reads { s with state } := by
  obtain ⟨-, htotal, hindex⟩ := by simpa only [Prod.mk.injEq] using hpage
  exact { h with
    state := hconsistent
    shownPage := hpage.trans h.shownPage
    shownGame := hgame.trans h.shownGame
    bounded := ⟨hindex ▸ h.bounded.page, htotal ▸ h.bounded.total⟩
    queriesCounted := hqueries.trans h.queriesCounted
    activationsCounted := hactivations.trans h.activationsCounted }

private theorem Invariant.setView (h : Invariant reads s) {state : GameBrowserState Entry Game}
    (hview : s.state.SameView state) (hqueries : state.queryGeneration = s.state.queryGeneration)
    (hactivations : state.activationGeneration = s.state.activationGeneration) :
    Invariant reads { s with state } := by
  refine h.setState (hview.consistent h.state) ?_ ?_ hqueries hactivations
  · rw [hview.games, hview.totalCount, hview.pageIndex]
  · rw [hview.activeGameId, hview.activeGame]

private theorem Invariant.issueQuery (h : Invariant reads s)
    {outcome : GameBrowserState Entry Game × Except BrowserError BrowserQuery}
    (hprepares : s.state.PreparesQuery outcome) : Invariant reads (s.issueQuery outcome) := by
  obtain ⟨state, result⟩ := outcome
  have hview := hprepares.view
  cases result with
  | error e =>
    have hkept := h.setView hview (hprepares.failed e rfl) hprepares.activation
    rw [GameBrowser.issueQuery, Except.toOption, Option.toList_none, List.append_nil]
    exact hkept
  | ok query =>
    obtain ⟨hcounted, hgeneration, hoffset⟩ := hprepares.made query rfl
    have hnext : s.state.queryGeneration + 1 = UInt64.ofNat (s.queries.length + 1) := by
      rw [h.queriesCounted, ofNat_succ]
    rw [GameBrowser.issueQuery, Except.toOption, Option.toList_some]
    exact { h with
      state := hview.consistent h.state
      shownPage := by
        rw [← h.shownPage]
        exact congrArg₂ _ hview.games (congrArg₂ _ hview.totalCount hview.pageIndex)
      pageLatest := by
        intro shown hshown
        obtain ⟨i, last, database, hlast, hrest⟩ := h.pageLatest shown hshown
        exact ⟨i, last, database, getElem?_concat hlast, hrest⟩
      shownGame := by
        rw [← h.shownGame]
        exact congrArg₂ _ hview.activeGameId hview.activeGame
      bounded := hview.bounded h.bounded
      queriesNumbered := h.queriesNumbered.concat (hgeneration.trans hnext)
      queriesCounted := by
        rw [List.length_append, List.length_singleton]
        exact hcounted.trans hnext
      offsets := by
        intro other hother
        rcases List.mem_append.mp hother with hmem | hmem
        · exact h.offsets other hmem
        · obtain rfl := List.mem_singleton.mp hmem
          exact hoffset
      pages := by
        intro page hpage
        obtain ⟨i, database, hquery, hexecuted⟩ := h.pages page hpage
        exact ⟨i, database, getElem?_concat hquery, hexecuted⟩
      pagesIssued := by
        intro shown hshown
        rw [List.length_append]
        exact (h.pagesIssued shown hshown).trans (Nat.le_add_right _ _)
      activationsCounted := hprepares.activation.trans h.activationsCounted }

private theorem Invariant.issueActivation (h : Invariant reads s) (external : Bool)
    {outcome : GameBrowserState Entry Game × Except BrowserError ActivationRequest}
    (hprepares : s.state.PreparesActivation outcome) :
    Invariant reads (s.issueActivation external outcome) := by
  obtain ⟨state, result⟩ := outcome
  have hview := hprepares.view
  cases result with
  | error e =>
    have hkept := h.setView hview hprepares.query (hprepares.failed e rfl)
    rw [GameBrowser.issueActivation, Except.toOption, Option.toList_none, List.map_nil,
      List.append_nil]
    exact hkept
  | ok request =>
    obtain ⟨hcounted, hgeneration⟩ := hprepares.made request rfl
    have hnext : s.state.activationGeneration + 1 = UInt64.ofNat (s.activations.length + 1) := by
      rw [h.activationsCounted, ofNat_succ]
    rw [GameBrowser.issueActivation, Except.toOption, Option.toList_some, List.map_singleton]
    exact { h with
      state := hview.consistent h.state
      shownPage := by
        rw [← h.shownPage]
        exact congrArg₂ _ hview.games (congrArg₂ _ hview.totalCount hview.pageIndex)
      shownGame := by
        rw [← h.shownGame]
        exact congrArg₂ _ hview.activeGameId hview.activeGame
      gameLatest := by
        intro shown hshown
        obtain ⟨i, last, database, hlast, hrest⟩ := h.gameLatest shown hshown
        exact ⟨i, last, database, getElem?_concat hlast, hrest⟩
      bounded := hview.bounded h.bounded
      queriesCounted := hprepares.query.trans h.queriesCounted
      activationsNumbered := h.activationsNumbered.concat (hgeneration.trans hnext)
      activationsCounted := by
        rw [List.length_append, List.length_singleton]
        exact hcounted.trans hnext
      loads := by
        intro load hload
        obtain ⟨i, database, hactivation, hexecuted⟩ := h.loads load hload
        exact ⟨i, database, getElem?_concat hactivation, hexecuted⟩
      gamesIssued := by
        intro shown hshown
        rw [List.length_append]
        exact (h.gamesIssued shown hshown).trans (Nat.le_add_right _ _) }

private theorem executeQuery_ok {database : Database} {query : BrowserQuery}
    {page : BrowserPage Entry} (h : reads.executeQuery database query = .ok page) :
    page.generation = query.generation ∧ page.totalCount ≤ 2 ^ 48 ∧
      page.pageIndex = query.filter.offset / browserPageSize := by
  unfold BrowserReads.executeQuery at h
  split at h
  next => cases h
  next games totalCount hfound =>
    obtain rfl := Except.ok.inj h
    exact ⟨rfl, reads.count_le _ _ _ _ hfound, rfl⟩

private theorem executeActivation_ok {database : Database} {request : ActivationRequest}
    {loaded : LoadedGame Game} (h : reads.executeActivation database request = .ok loaded) :
    loaded.generation = request.generation := by
  unfold BrowserReads.executeActivation at h
  split at h
  · cases h
  · obtain rfl := Except.ok.inj h
    rfl

private theorem deliverPage_pages (query : BrowserQuery)
    (result : Except BrowserError (BrowserPage Entry)) :
    (s.deliverPage reads query result).pages = s.pages := by
  unfold GameBrowser.deliverPage
  split
  · rfl
  · split <;> rfl

private theorem deliverGame_loads (activation : Activation)
    (result : Except BrowserError (LoadedGame Game)) :
    (s.deliverGame reads activation result).loads = s.loads := by
  unfold GameBrowser.deliverGame
  split
  · rfl
  · split <;> rfl

private theorem Invariant.deliverPage (h : Invariant reads s) {query : BrowserQuery}
    {result : Except BrowserError (BrowserPage Entry)} (hpending : (query, result) ∈ s.pages) :
    Invariant reads (s.deliverPage reads query result) := by
  cases result with
  | error e =>
    obtain ⟨hview, hqueries, hactivations⟩ := s.state.applyQueryError_view query.generation e
    exact h.setView hview hqueries hactivations
  | ok page =>
    obtain ⟨i, database, hquery, hexecuted⟩ := h.pages _ hpending
    have hread := hexecuted.symm
    obtain ⟨hgeneration, htotal, hindex⟩ := executeQuery_ok hread
    have hcases := @GameBrowserState.applyQuery_cases _ _ reads.entryId s.state page
    rcases hcases with ⟨happly, -⟩ |
      ⟨state, happly, hlatest, hgames, hcount, hpage, hqueries, hactivations, hactiveId, hactive,
        hconsistent⟩
    · simp only [GameBrowser.deliverPage, happly]
      exact h
    · simp only [GameBrowser.deliverPage, happly]
      have hoffset := h.offsets query (List.mem_of_getElem? hquery)
      have hbound : page.pageIndex * browserPageSize ≤ 2 ^ 48 := by
        rw [hindex]
        exact (Nat.div_mul_le_self _ _).trans hoffset
      have hlast : query.generation = UInt64.ofNat s.queries.length := by
        rw [← hgeneration, hlatest, h.queriesCounted]
      exact { h with
        state := hconsistent hbound
        shownPage := congrArg₂ _ hgames (congrArg₂ _ hcount hpage)
        pageLatest := by
          intro shown hshown
          rcases List.mem_cons.mp hshown with rfl | hmem
          · exact ⟨i, query, database, hquery, hread, hgeneration ▸ hlatest,
              h.queriesNumbered.last hquery hlast⟩
          · exact h.pageLatest shown hmem
        pagesOrdered := List.pairwise_cons.mpr ⟨h.pagesIssued, h.pagesOrdered⟩
        shownGame := by
          rw [← h.shownGame]
          exact congrArg₂ _ hactiveId hactive
        bounded := ⟨hpage ▸ hbound, hcount ▸ htotal⟩
        queriesCounted := hqueries.trans h.queriesCounted
        pagesIssued := by
          intro shown hshown
          rcases List.mem_cons.mp hshown with rfl | hmem
          · exact le_refl _
          · exact h.pagesIssued shown hmem
        activationsCounted := hactivations.trans h.activationsCounted }

private theorem Invariant.deliverGame (h : Invariant reads s) {activation : Activation}
    {result : Except BrowserError (LoadedGame Game)} (hpending : (activation, result) ∈ s.loads) :
    Invariant reads (s.deliverGame reads activation result) := by
  cases result with
  | error e =>
    obtain ⟨hview, hqueries, hactivations⟩ :=
      s.state.applyActivationError_view activation.generation e
    exact h.setView hview hqueries hactivations
  | ok loaded =>
    obtain ⟨i, database, hactivation, hexecuted⟩ := h.loads _ hpending
    have hread := hexecuted.symm
    have hgeneration := executeActivation_ok hread
    rcases s.state.applyGame_cases h.state activation.external loaded with happly |
      ⟨state, happly, hlatest, hconsistent, hgames, hcount, hpage, hqueries, hactivations, hactiveId,
        hactive⟩
    · simp only [GameBrowser.deliverGame, happly]
      exact h
    · simp only [GameBrowser.deliverGame, happly]
      have hlast : activation.generation = UInt64.ofNat s.activations.length := by
        rw [Activation.generation, ← hgeneration, hlatest, h.activationsCounted]
      exact { h with
        state := hconsistent
        shownPage := by
          rw [← h.shownPage]
          exact congrArg₂ _ hgames (congrArg₂ _ hcount hpage)
        shownGame := congrArg₂ _ hactiveId hactive
        gameLatest := by
          intro shown hshown
          rcases List.mem_cons.mp hshown with rfl | hmem
          · exact ⟨i, activation, database, hactivation, hread, hgeneration.symm.trans hlatest,
              h.activationsNumbered.last hactivation hlast⟩
          · exact h.gameLatest shown hmem
        gamesOrdered := List.pairwise_cons.mpr ⟨h.gamesIssued, h.gamesOrdered⟩
        bounded := ⟨hpage ▸ h.bounded.page, hcount ▸ h.bounded.total⟩
        queriesCounted := hqueries.trans h.queriesCounted
        activationsCounted := hactivations.trans h.activationsCounted
        gamesIssued := by
          intro shown hshown
          rcases List.mem_cons.mp hshown with rfl | hmem
          · exact le_refl _
          · exact h.gamesIssued shown hmem }

private theorem preparesQuery_prepare (h : Invariant reads s) (call : QueryCall) :
    s.state.PreparesQuery (call.prepare s.state) := by
  cases call with
  | initialLoad => exact GameBrowserState.preparesQuery_first
  | setFilters playerName result =>
    refine GameBrowserState.preparesQuery_first.of_view ?_ rfl rfl
    exact ⟨rfl, rfl, rfl, rfl, rfl, rfl, rfl, rfl, rfl, rfl⟩
  | sortGames column ascending =>
    rw [QueryCall.prepare, GameBrowserState.sortGames]
    split
    · exact GameBrowserState.preparesQuery_fail _
    · refine GameBrowserState.preparesQuery_first.of_view ?_ rfl rfl
      exact ⟨rfl, rfl, rfl, rfl, rfl, rfl, rfl, rfl, rfl, rfl⟩
  | setPage pageIndex => exact GameBrowserState.preparesQuery_setPage h.bounded pageIndex
  | nextPage => exact GameBrowserState.preparesQuery_nextPage h.bounded h.state
  | previousPage => exact GameBrowserState.preparesQuery_previousPage h.bounded h.state

private theorem Invariant.select (h : Invariant reads s) (row : ℕ) :
    Invariant reads { s with state := (s.state.selectGame reads.entryId row).1 } := by
  have hconsistent := GameBrowserState.consistent_selectGame h.state row
  revert hconsistent
  unfold GameBrowserState.selectGame
  split
  · exact fun hconsistent => h.setState hconsistent rfl rfl rfl rfl
  · exact fun hconsistent => h.setState hconsistent rfl rfl rfl rfl

private theorem Invariant.step (h : Invariant reads s) {a : BrowserAction Database}
    (hstep : s.step reads a = some t) : Invariant reads t := by
  cases a with
  | prepareQuery call => exact Option.some.inj hstep ▸ h.issueQuery (preparesQuery_prepare h call)
  | executeQuery i =>
    obtain ⟨query, hquery, rfl⟩ := Option.map_eq_some_iff.mp hstep
    refine { h with pages := fun page hpage => ?_ }
    rcases List.mem_append.mp hpage with hmem | hmem
    · exact h.pages page hmem
    · obtain rfl := List.mem_singleton.mp hmem
      exact ⟨i, s.database, hquery, rfl⟩
  | applyQuery i =>
    obtain ⟨page, hpage, rfl⟩ := Option.map_eq_some_iff.mp hstep
    have hdelivered := h.deliverPage (List.mem_of_getElem? hpage)
    have hkept : ∀ other ∈ s.pages.eraseIdx i, other ∈ (s.deliverPage reads page.1 page.2).pages := by
      intro other hother
      rw [deliverPage_pages]
      exact List.mem_of_mem_eraseIdx hother
    exact { hdelivered with pages := fun other hother => hdelivered.pages other (hkept other hother) }
  | selectGame row => exact Option.some.inj hstep ▸ h.select row
  | moveSelection delta =>
    obtain rfl := Option.some.inj hstep
    unfold GameBrowserState.moveSelection
    split
    · exact h.setView (GameBrowserState.sameView_fail _) rfl rfl
    · exact h.select _
  | prepareActivation =>
    exact Option.some.inj hstep ▸ h.issueActivation false GameBrowserState.preparesActivation_selected
  | prepareExternalActivation gameId =>
    exact Option.some.inj hstep ▸
      h.issueActivation true (GameBrowserState.preparesActivation_external gameId)
  | executeActivation i =>
    obtain ⟨activation, hactivation, rfl⟩ := Option.map_eq_some_iff.mp hstep
    refine { h with loads := fun load hload => ?_ }
    rcases List.mem_append.mp hload with hmem | hmem
    · exact h.loads load hmem
    · obtain rfl := List.mem_singleton.mp hmem
      exact ⟨i, s.database, hactivation, rfl⟩
  | applyActivation i =>
    obtain ⟨load, hload, rfl⟩ := Option.map_eq_some_iff.mp hstep
    have hdelivered := h.deliverGame (List.mem_of_getElem? hload)
    have hkept : ∀ other ∈ s.loads.eraseIdx i, other ∈ (s.deliverGame reads load.1 load.2).loads := by
      intro other hother
      rw [deliverGame_loads]
      exact List.mem_of_mem_eraseIdx hother
    exact { hdelivered with loads := fun other hother => hdelivered.loads other (hkept other hother) }
  | resizeColumn column width =>
    obtain rfl := Option.some.inj hstep
    unfold GameBrowserState.resizeColumn
    split
    · exact h.setView (GameBrowserState.sameView_fail _) rfl rfl
    · exact h.setView ⟨rfl, rfl, rfl, rfl, rfl, rfl, rfl, rfl, rfl, rfl⟩ rfl rfl
  | dismissError =>
    exact Option.some.inj hstep ▸ h.setView ⟨rfl, rfl, rfl, rfl, rfl, rfl, rfl, rfl, rfl, rfl⟩ rfl rfl
  | changeDatabase database => exact Option.some.inj hstep ▸ { h with }

/-- In every order of queries, selections, activations and results, the browser shows only the page of
the latest query and the game of the latest activation, and its state is consistent. -/
theorem consistent_of_reaches {database : Database}
    (h : System.Reaches (step reads) (fun _ _ => True)
      ({ database } : GameBrowser Database Entry Game) s) : s.Consistent reads := by
  have hinit : Invariant reads ({ database } : GameBrowser Database Entry Game) := {
    state := ⟨fun row hrow => (by cases hrow), by simp, by simp [browserPageSize]⟩
    shownPage := rfl
    pageLatest := by simp
    pagesOrdered := .nil
    shownGame := rfl
    gameLatest := by simp
    gamesOrdered := .nil
    bounded := ⟨by simp, by simp⟩
    queriesNumbered := by simp [Numbered]
    queriesCounted := rfl
    offsets := by simp
    pages := by simp
    pagesIssued := by simp
    activationsNumbered := by simp [Numbered]
    activationsCounted := rfl
    loads := by simp
    gamesIssued := by simp }
  exact (h.invariant hinit fun _ _ _ hinv _ hstep => hinv.step hstep).toConsistent

/-- A database of so many games, whose entries are their ids, listed by ascending id. -/
private def idReads : BrowserReads (Fin 1000) UInt32 ℕ where
  entryId entry := entry
  findGames count filter :=
    .ok (((List.range count).drop filter.offset).take filter.limit |>.map UInt32.ofNat, count)
  get count gameId := if gameId.toNat < count then .ok gameId.toNat else .error ⟨.notFound, ""⟩
  count_le count filter games totalCount h := by
    obtain ⟨-, rfl⟩ := Prod.mk.injEq .. ▸ Except.ok.inj h
    have hlt := count.isLt
    omega

/-- A page that arrives after a later query was prepared is dropped, and so is the game of an activation
that an external one overtook; the external game is selected on the page that shows it. -/
theorem consistent_of_reaches_sample : ∃ s : GameBrowser (Fin 1000) UInt32 ℕ,
    (s.state.pageIndex, s.state.hasPreviousPage, s.state.hasNextPage, s.state.selectedRow,
      s.state.activeGame) = (1, true, false, some 30, some 130) ∧ s.Consistent idReads := by
  have hrun : (System.run (step idReads) (fun _ _ => True) { database := (150 : Fin 1000) }
      [.prepareQuery .initialLoad, .executeQuery 0, .applyQuery 0, .prepareQuery (.setFilters "" ""),
        .prepareQuery .nextPage, .executeQuery 1, .executeQuery 2, .applyQuery 1, .applyQuery 0,
        .selectGame 7, .prepareActivation, .prepareExternalActivation 130, .executeActivation 1,
        .executeActivation 0, .applyActivation 1, .applyActivation 0]).map (fun s =>
      (s.state.pageIndex, s.state.hasPreviousPage, s.state.hasNextPage, s.state.selectedRow,
        s.state.activeGame)) = some (1, true, false, some 30, some 130) := by
    decide +kernel
  obtain ⟨s, hs, hview⟩ := Option.map_eq_some_iff.mp hrun
  exact ⟨s, hview, consistent_of_reaches (System.reaches_of_run hs)⟩

end GameBrowser

end System

end MotifChess.SlintApp
