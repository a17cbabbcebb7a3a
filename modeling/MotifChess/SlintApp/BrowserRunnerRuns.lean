/- GID: MotifChess/SlintApp/BrowserRunnerRuns
   generality: implementation
   digest: A browser runner that is not busy has answered the last query and the last activation. -/

import MotifChess.SlintApp.BrowserRunner

set_option autoImplicit false
set_option relaxedAutoImplicit false

namespace MotifChess.SlintApp

open MotifChess.Db MotifChess.System

variable {Database Entry Game : Type}

section Views

namespace GameBrowserState

variable {s t : GameBrowserState Entry Game}

/-- What the next query asks for, but for its page, and the generation of the last one. -/
def askView (s : GameBrowserState Entry Game) :
    UInt64 × Option String × Option String × GameSortColumn × Bool :=
  (s.queryGeneration, nonemptyOptional s.playerFilter, nonemptyOptional s.resultFilter,
    toDatabaseSort s.sortColumn, s.sortAscending)

/-- The page that is shown. -/
def pageView (s : GameBrowserState Entry Game) : List Entry × ℤ × ℕ :=
  (s.games, s.totalCount, s.pageIndex)

/-- The game on the board, and the generation of the last activation. -/
def gameView (s : GameBrowserState Entry Game) : UInt64 × UInt32 × Option Game :=
  (s.activationGeneration, s.activeGameId, s.activeGame)

/-- A query of the latest generation, for the filters and the order that are set. -/
def AsksFor (s : GameBrowserState Entry Game) (query : BrowserQuery) : Prop :=
  (query.generation, query.filter.playerName, query.filter.result, query.filter.sortColumn,
    query.filter.sortAscending) = s.askView

def ShowsPage (s : GameBrowserState Entry Game) (page : BrowserPage Entry) : Prop :=
  s.pageView = (page.games, page.totalCount, page.pageIndex)

def ShowsGame (s : GameBrowserState Entry Game) (loaded : LoadedGame Game) : Prop :=
  s.activeGameId = loaded.gameId ∧ s.activeGame = some loaded.game

/-- States that no runner can tell apart by what it asks for and what it shows. -/
structure Same (s t : GameBrowserState Entry Game) : Prop where
  ask : t.askView = s.askView
  page : t.pageView = s.pageView
  game : t.gameView = s.gameView

theorem Same.refl : Same s s := ⟨rfl, rfl, rfl⟩

theorem Same.generation (h : Same s t) : t.activationGeneration = s.activationGeneration :=
  congrArg Prod.fst h.game

theorem ShowsGame.of_view (h : t.gameView.2 = s.gameView.2) {loaded : LoadedGame Game}
    (hs : s.ShowsGame loaded) : t.ShowsGame loaded := by
  obtain ⟨hid, hgame⟩ := Prod.mk.inj h
  exact ⟨hid.trans hs.1, hgame.trans hs.2⟩

private theorem same_selectGame (entryId : Entry → UInt32) (row : ℕ) :
    Same s (s.selectGame entryId row).1 := by
  unfold selectGame
  split
  · exact ⟨rfl, rfl, rfl⟩
  · exact ⟨rfl, rfl, rfl⟩

private theorem same_moveSelection (entryId : Entry → UInt32) (delta : ℤ) :
    Same s (s.moveSelection entryId delta).1 := by
  unfold moveSelection
  split
  · exact ⟨rfl, rfl, rfl⟩
  · exact same_selectGame entryId _

private theorem same_resizeColumn (column : ℕ) (width : ℤ) : Same s (s.resizeColumn column width).1 := by
  unfold resizeColumn
  split
  · exact ⟨rfl, rfl, rfl⟩
  · exact ⟨rfl, rfl, rfl⟩

private theorem same_applyQueryError (generation : UInt64) (error : BrowserError) :
    Same s (s.applyQueryError generation error).1 := by
  unfold applyQueryError
  split
  · exact .refl
  · exact ⟨rfl, rfl, rfl⟩

private theorem same_applyActivationError (generation : UInt64) (error : BrowserError) :
    Same s (s.applyActivationError generation error).1 := by
  unfold applyActivationError
  split
  · exact .refl
  · exact ⟨rfl, rfl, rfl⟩

/-- A query that is prepared asks for what is set, and shows nothing new. -/
structure Asks (s : GameBrowserState Entry Game)
    (outcome : GameBrowserState Entry Game × Except BrowserError BrowserQuery) : Prop where
  page : outcome.1.pageView = s.pageView
  game : outcome.1.gameView = s.gameView
  failed : ∀ e, outcome.2 = .error e → outcome.1.askView = s.askView
  made : ∀ query, outcome.2 = .ok query → outcome.1.AsksFor query

private theorem asks_fail (message : String) : Asks s (s.fail message) :=
  ⟨rfl, rfl, fun _ _ => rfl, fun _ h => by cases h⟩

private theorem asks_makeQuery (pageIndex : ℕ) : Asks s (s.makeQuery pageIndex) := by
  unfold makeQuery
  split
  · exact asks_fail _
  · refine ⟨rfl, rfl, fun e h => ?_, fun query h => ?_⟩
    · cases h
    · obtain rfl := Except.ok.inj h
      rfl

private theorem makeQuery_zero_ok {e : BrowserError} : (s.makeQuery 0).2 ≠ .error e := by
  unfold makeQuery
  rw [if_neg (Nat.not_lt_zero _)]
  intro h
  cases h

private theorem asks_first (hpage : t.pageView = s.pageView) (hgame : t.gameView = s.gameView) :
    Asks s (t.makeQuery 0) where
  page := (asks_makeQuery 0).page.trans hpage
  game := (asks_makeQuery 0).game.trans hgame
  failed _ h := absurd h makeQuery_zero_ok
  made := (asks_makeQuery 0).made

private theorem asks_prepare (call : QueryCall) : Asks s (call.prepare s) := by
  cases call with
  | initialLoad => exact asks_makeQuery 0
  | setFilters playerName result => exact asks_first rfl rfl
  | sortGames column ascending =>
    rw [QueryCall.prepare, sortGames]
    split
    · exact asks_fail _
    · exact asks_first rfl rfl
  | setPage pageIndex =>
    rw [QueryCall.prepare, setPage]
    generalize (if s.totalCount.toNat = 0 then 1 else _) = pageCount
    split
    · exact asks_fail _
    · exact asks_makeQuery _
  | nextPage =>
    rw [QueryCall.prepare, nextPage]
    split
    · exact asks_makeQuery _
    · exact asks_fail _
  | previousPage =>
    rw [QueryCall.prepare, previousPage]
    split
    · exact asks_makeQuery _
    · exact asks_fail _

private theorem applyQuery_latest {entryId : Entry → UInt32} {page : BrowserPage Entry}
    (h : page.generation = s.queryGeneration) : (s.applyQuery entryId page).1.ShowsPage page := by
  rw [applyQuery, if_neg (not_not.mpr h)]
  rfl

private theorem applyQuery_views (entryId : Entry → UInt32) (page : BrowserPage Entry) :
    (s.applyQuery entryId page).1.askView = s.askView ∧
      (s.applyQuery entryId page).1.gameView = s.gameView := by
  unfold applyQuery
  split
  · exact ⟨rfl, rfl⟩
  · exact ⟨rfl, rfl⟩

private theorem applyActivation_views (loaded : LoadedGame Game) :
    (s.applyActivation loaded).1.askView = s.askView ∧
      (s.applyActivation loaded).1.pageView = s.pageView ∧
      (s.applyActivation loaded).1.activationGeneration = s.activationGeneration := by
  unfold applyActivation
  split
  · exact ⟨rfl, rfl, rfl⟩
  · exact ⟨rfl, rfl, rfl⟩

private theorem applyExternalActivation_views (entryId : Entry → UInt32) (loaded : LoadedGame Game) :
    (s.applyExternalActivation entryId loaded).1.askView = s.askView ∧
      (s.applyExternalActivation entryId loaded).1.pageView = s.pageView ∧
      (s.applyExternalActivation entryId loaded).1.activationGeneration = s.activationGeneration := by
  unfold applyExternalActivation
  split
  · exact ⟨rfl, rfl, rfl⟩
  · exact ⟨rfl, rfl, rfl⟩

private theorem applyExternalActivation_latest {entryId : Entry → UInt32} {loaded : LoadedGame Game}
    (h : loaded.generation = s.activationGeneration) :
    (s.applyExternalActivation entryId loaded).1.ShowsGame loaded := by
  rw [applyExternalActivation, if_neg (not_not.mpr h)]
  exact ⟨rfl, rfl⟩

/-- An activation that is prepared has the latest generation, and shows nothing new. -/
structure Activates (s : GameBrowserState Entry Game)
    (outcome : GameBrowserState Entry Game × Except BrowserError ActivationRequest) : Prop where
  ask : outcome.1.askView = s.askView
  page : outcome.1.pageView = s.pageView
  game : outcome.1.gameView.2 = s.gameView.2
  failed : ∀ e, outcome.2 = .error e → Same s outcome.1
  made : ∀ request, outcome.2 = .ok request →
    request.generation = outcome.1.activationGeneration

private theorem activates_external (gameId : UInt32) :
    Activates s (s.prepareExternalActivation gameId) where
  ask := rfl
  page := rfl
  game := rfl
  failed _ h := by cases h
  made request h := by
    obtain rfl := Except.ok.inj h
    rfl

private theorem activates_selected : Activates s s.prepareActivation := by
  unfold prepareActivation
  split
  · exact activates_external s.selectedGameId
  · exact ⟨rfl, rfl, rfl, fun _ _ => ⟨rfl, rfl, rfl⟩, fun _ h => by cases h⟩

end GameBrowserState

end Views

section Requests

/-- The query of a request. -/
def BrowserRequest.asked : BrowserRequest → Option BrowserQuery
  | .query q => some q
  | .activation _ => none
  | .externalActivation _ _ => none

/-- The activation of a request as it was asked for, with the generation that it was prepared in. -/
def BrowserRequest.call : BrowserRequest → Option (ActivationCall × UInt64)
  | .query _ => none
  | .activation request => some (.ofRow request, request.generation)
  | .externalActivation request ply => some (.byId request.gameId ply, request.generation)

def ActivationCall.gameId : ActivationCall → UInt32
  | .ofRow request => request.gameId
  | .byId gameId _ => gameId

variable (reads : BrowserReads Database Entry Game)

/-- What some execution of a query ends with. -/
def IsAnswer (query : BrowserQuery) (answer : Except BrowserError (BrowserPage Entry)) : Prop :=
  ∃ database, reads.executeQuery database query = answer

/-- What some execution of an activation ends with. -/
def IsActivation (call : ActivationCall) (outcome : Except BrowserError (LoadedGame Game)) : Prop :=
  ∃ database request, request.gameId = call.gameId ∧
    reads.executeActivation database request = outcome

end Requests

section Runs

variable (reads : BrowserReads Database Entry Game)

namespace BrowserRunner

/-- The last query was answered, and if a page answered it, that page is shown. -/
def Answered (s : BrowserRunner Entry Game) (p : GameBrowserState Entry Game) : Prop :=
  ∀ query, s.log.asked = some query → ∃ answer, s.log.answer = some answer ∧
    IsAnswer reads query answer ∧ ∀ page, answer = .ok page → p.ShowsPage page

/-- The last activation was handled, unless a query displaced it; a game by its id is on the board. -/
def Handled (s : BrowserRunner Entry Game) (p : GameBrowserState Entry Game) : Prop :=
  ∀ call, s.log.requested = some call → s.log.displaced = false →
    ∃ outcome, s.log.outcome = some outcome ∧ IsActivation reads call outcome ∧
      ∀ gameId ply loaded, call = .byId gameId ply → outcome = .ok loaded → p.ShowsGame loaded

/-- How the presenter, the log and what waits fit a request in flight for the current presenter. -/
structure Following (s : BrowserRunner Entry Game) (p : GameBrowserState Entry Game)
    (inFlight : Option BrowserRequest) : Prop where
  latest : ∀ query, s.log.asked = some query → p.AsksFor query
  asked : ∀ query, s.pendingQuery.or (inFlight.bind BrowserRequest.asked) = some query →
    s.log.asked = some query
  answered : s.pendingQuery.or (inFlight.bind BrowserRequest.asked) = none → s.Answered reads p
  waiting : ∀ call, s.waitingActivation = some call →
    s.log.requested = some call ∧ s.log.displaced = false
  ready : ∀ request, s.pendingActivation = some request → s.pendingExternalActivation = none →
    request.generation = p.activationGeneration
  flying : ∀ call, inFlight.bind BrowserRequest.call = some call → s.waitingActivation = none →
    s.log.displaced = false → s.log.requested = some call.1 ∧ call.2 = p.activationGeneration
  handled : inFlight.bind BrowserRequest.call = none → s.waitingActivation = none → s.Handled reads p

/-- The request of the current presenter that is in flight. -/
def inFlight (s : BrowserRunner Entry Game)
    (phase : Worker.Phase BrowserJob (BrowserOutcome Entry Game)) : Option BrowserRequest :=
  (phase.job.filter fun job => job.epoch = s.epoch).map BrowserJob.request

/-- A runner whose worker is in a phase. -/
structure Steady (s : BrowserRunner Entry Game)
    (phase : Worker.Phase BrowserJob (BrowserOutcome Entry Game)) : Prop where
  worker : s.worker.InPhase phase
  epochs : ∀ job, phase.job = some job → job.epoch ≤ s.epoch
  outcome : ∀ job outcome, phase = .finished job outcome →
    ∃ database, reads.execute database job = outcome
  external : ∀ pending, s.pendingExternalActivation = some pending → pending.epoch = s.epoch
  following : ∀ p, s.presenter = some p → s.Following reads p (s.inFlight phase)
  absent : s.presenter = none → s.pendingQuery = none ∧ s.waitingActivation = none

/-- A steady runner in which requests only wait for one in flight. -/
structure Sound (s : BrowserRunner Entry Game)
    (phase : Worker.Phase BrowserJob (BrowserOutcome Entry Game)) : Prop extends
    Steady reads s phase where
  queued : s.worker.busy = false → s.pendingQuery = none ∧ s.waitingActivation = none

variable {reads} {s t : BrowserRunner Entry Game} {p q : GameBrowserState Entry Game}
  {request : Option BrowserRequest} {phase : Worker.Phase BrowserJob (BrowserOutcome Entry Game)}

section Presenter

theorem waitingActivation_eq_none : s.waitingActivation = none ↔
    s.pendingExternalActivation = none ∧ s.pendingActivation = none := by
  simp [waitingActivation]

theorem Answered.of_view (h : s.Answered reads p) (hview : q.pageView = p.pageView) :
    s.Answered reads q := by
  intro query hasked
  obtain ⟨answer, hanswer, hexecuted, hshown⟩ := h query hasked
  exact ⟨answer, hanswer, hexecuted, fun page hpage => hview.trans (hshown page hpage)⟩

theorem Handled.of_view (h : s.Handled reads p) (hview : q.gameView.2 = p.gameView.2) :
    s.Handled reads q := by
  intro call hrequested hdisplaced
  obtain ⟨outcome, houtcome, hexecuted, hshown⟩ := h call hrequested hdisplaced
  refine ⟨outcome, houtcome, hexecuted, fun gameId ply loaded hcall hok => ?_⟩
  exact (hshown gameId ply loaded hcall hok).of_view hview

theorem Following.same (h : s.Following reads p request) (hsame : p.Same q) :
    s.Following reads q request where
  latest query hasked := (h.latest query hasked).trans hsame.ask.symm
  asked := h.asked
  answered hopen := (h.answered hopen).of_view hsame.page
  waiting := h.waiting
  ready request hpending hexternal := (h.ready request hpending hexternal).trans hsame.generation.symm
  flying call hcall hwaiting hdisplaced := by
    rw [hsame.generation]
    exact h.flying call hcall hwaiting hdisplaced
  handled hcall hwaiting := (h.handled hcall hwaiting).of_view (congrArg Prod.snd hsame.game)

theorem Following.keep (h : s.Following reads p request)
    (presenter : Option (GameBrowserState Entry Game))
    (worker : Worker BrowserJob (BrowserOutcome Entry Game)) :
    Following reads { s with presenter, worker } p request :=
  ⟨h.latest, h.asked, h.answered, h.waiting, h.ready, h.flying, h.handled⟩

theorem Sound.mapPresenter (h : Sound reads s phase)
    {f : GameBrowserState Entry Game → GameBrowserState Entry Game}
    (hsame : ∀ p, GameBrowserState.Same p (f p)) :
    Sound reads { s with presenter := s.presenter.map f } phase where
  worker := h.worker
  epochs := h.epochs
  outcome := h.outcome
  external := h.external
  following q hq := by
    obtain ⟨p, hp, rfl⟩ := Option.map_eq_some_iff.mp hq
    exact ((h.following p hp).same (hsame p)).keep _ _
  absent hnone := h.absent (Option.map_eq_none_iff.mp hnone)
  queued := h.queued

theorem Sound.setPresenter (h : Sound reads s phase) (hp : s.presenter = some p)
    (hsame : p.Same q) : Sound reads { s with presenter := some q } phase where
  worker := h.worker
  epochs := h.epochs
  outcome := h.outcome
  external := h.external
  following q' hq := by
    obtain rfl := Option.some.inj hq
    exact ((h.following p hp).same hsame).keep _ _
  absent hnone := by cases hnone
  queued := h.queued

end Presenter

section Queue

private theorem Following.queueQuery (h : s.Following reads p request) {query : BrowserQuery}
    {outcome : GameBrowserState Entry Game × Except BrowserError BrowserQuery}
    (hasks : p.Asks outcome) (hok : outcome.2 = .ok query) :
    Following reads { s with
      presenter := some outcome.1
      pendingQuery := some query
      pendingActivation := none
      pendingExternalActivation := none
      log := { s.log with
        asked := some query
        displaced := s.log.displaced || s.waitingActivation.isSome } } outcome.1 request where
  latest other hother := by
    obtain rfl := Option.some.inj hother
    exact hasks.made query hok
  asked other hother := hother
  answered hopen := by cases hopen
  waiting call hcall := by cases hcall
  ready request hrequest := by cases hrequest
  flying call hcall _ hdisplaced := by
    obtain ⟨hkept, hwaiting⟩ := Bool.or_eq_false_iff.mp hdisplaced
    have hgeneration : outcome.1.activationGeneration = p.activationGeneration :=
      congrArg Prod.fst hasks.game
    rw [hgeneration]
    exact h.flying call hcall (Option.not_isSome_iff_eq_none.mp (by simpa using hwaiting)) hkept
  handled hcall _ := by
    intro call hrequested hdisplaced
    obtain ⟨hkept, hwaiting⟩ := Bool.or_eq_false_iff.mp hdisplaced
    have hnone := Option.not_isSome_iff_eq_none.mp (by simpa using hwaiting)
    have hhandled := (h.handled hcall hnone).of_view (congrArg Prod.snd hasks.game)
    exact hhandled call hrequested hkept

private theorem Following.queueActivation (h : s.Following reads p request) {activation : ActivationRequest}
    {outcome : GameBrowserState Entry Game × Except BrowserError ActivationRequest}
    (hactivates : p.Activates outcome) (hok : outcome.2 = .ok activation) :
    Following reads { s with
      presenter := some outcome.1
      pendingActivation := some activation
      pendingExternalActivation := none
      log := { s.log with requested := some (.ofRow activation), displaced := false } }
      outcome.1 request where
  latest query hasked := (h.latest query hasked).trans hactivates.ask.symm
  asked := h.asked
  answered hopen := (h.answered hopen).of_view hactivates.page
  waiting call hcall := ⟨hcall, rfl⟩
  ready other hother _ := by
    obtain rfl := Option.some.inj hother
    exact hactivates.made activation hok
  flying call _ hwaiting := by cases hwaiting
  handled _ hwaiting := by cases hwaiting

private theorem Following.queueExternal (h : s.Following reads p request) (gameId : UInt32) (ply epoch : ℕ) :
    Following reads { s with
      pendingExternalActivation := some ⟨gameId, ply, epoch⟩
      log := { s.log with requested := some (.byId gameId ply), displaced := false } } p request where
  latest := h.latest
  asked := h.asked
  answered := h.answered
  waiting call hcall := ⟨hcall, rfl⟩
  ready _ _ hnone := by cases hnone
  flying call _ hwaiting := by cases hwaiting
  handled _ hwaiting := by cases hwaiting

end Queue

section Dispatch

private theorem sound_start (hworker : s.worker.InPhase .idle) (next : BrowserRequest)
    (hexternal : ∀ pending, s.pendingExternalActivation = some pending → pending.epoch = s.epoch)
    (hfollowing : ∀ p, s.presenter = some p → s.Following reads p (some next))
    (habsent : s.presenter = none → s.pendingQuery = none ∧ s.waitingActivation = none) :
    Sound reads { s with worker := s.worker.start ⟨next, s.epoch⟩ }
      (.running ⟨next, s.epoch⟩) where
  worker := hworker.start _
  epochs job hjob := by
    obtain rfl := Option.some.inj hjob
    exact le_rfl
  outcome job outcome hphase := by cases hphase
  external := hexternal
  following p hp := by
    have hnext : inFlight { s with worker := s.worker.start ⟨next, s.epoch⟩ }
        (.running ⟨next, s.epoch⟩) = some next := by
      simp [inFlight, Worker.Phase.job, Option.filter]
    rw [hnext]
    exact (hfollowing p hp).keep _ _
  absent := habsent
  queued hfree := by cases hfree

theorem Steady.dispatchPending (h : Steady reads s .idle) :
    ∃ phase', Sound reads s.dispatchPending phase' := by
  have hfree : s.worker.busy = false := h.worker.not_busy
  unfold BrowserRunner.dispatchPending
  split
  next query hquery =>
    rw [runQuery, if_neg (by rw [hfree]; exact Bool.false_ne_true)]
    refine ⟨_, sound_start (s := { s with pendingQuery := none }) h.worker (.query query) h.external
      (fun p hp => ?_) fun hnone => ⟨rfl, (h.absent hnone).2⟩⟩
    have hfollowing := h.following p hp
    refine ⟨hfollowing.latest, fun other hother => ?_, fun hopen => ?_, hfollowing.waiting,
      hfollowing.ready, fun call hcall => ?_, fun _ => hfollowing.handled rfl⟩
    · apply hfollowing.asked
      rw [hquery]
      exact hother
    · cases hopen
    · cases hcall
  next activation hquery hactivation =>
    rw [runActivation, if_neg (by rw [hfree]; exact Bool.false_ne_true)]
    have hwaits : ∀ call, ({ s with pendingActivation := none } :
        BrowserRunner Entry Game).waitingActivation = some call → s.waitingActivation = some call := by
      intro call hcall
      rw [waitingActivation, Option.map_none, Option.or_none] at hcall
      rw [waitingActivation, hcall, Option.some_or]
    refine ⟨_, sound_start (s := { s with pendingActivation := none }) h.worker
      (.activation activation) h.external (fun p hp => ?_) fun hnone => ⟨(h.absent hnone).1, ?_⟩⟩
    · have hfollowing := h.following p hp
      refine ⟨hfollowing.latest, hfollowing.asked, hfollowing.answered,
        fun call hcall => hfollowing.waiting call (hwaits call hcall), fun _ hnone => ?_,
        fun call hcall hwaiting hdisplaced => ?_, fun hnone => ?_⟩
      · cases hnone
      · obtain rfl := Option.some.inj hcall
        have hexternal := (waitingActivation_eq_none.mp hwaiting).1
        refine ⟨(hfollowing.waiting _ ?_).1, hfollowing.ready activation hactivation hexternal⟩
        rw [waitingActivation, hactivation]
        dsimp only at hexternal
        rw [hexternal]
        rfl
      · cases hnone
    · have hnone' := (waitingActivation_eq_none.mp (h.absent hnone).2).2
      cases hactivation.symm.trans hnone'
  next pending p hquery hactivation hexternal hp =>
    have hepoch := h.external pending hexternal
    have hfollowing := h.following p hp
    have hcall : s.waitingActivation = some (.byId pending.gameId pending.ply) := by
      rw [waitingActivation, hexternal]
      rfl
    have hnone : ({ s with pendingExternalActivation := none } :
        BrowserRunner Entry Game).waitingActivation = none :=
      waitingActivation_eq_none.mpr ⟨rfl, hactivation⟩
    have hactivates := GameBrowserState.activates_external (s := p) pending.gameId
    unfold prepareExternal
    dsimp only [GameBrowserState.prepareExternalActivation] at hactivates ⊢
    rw [runExternalActivation, if_neg (by rw [hfree]; exact Bool.false_ne_true), hepoch]
    refine ⟨_, sound_start (s := { s with
      pendingExternalActivation := none
      presenter := some { p with
        activationGeneration := p.activationGeneration + 1
        errorText := "" } }) h.worker (.externalActivation _ pending.ply) (fun _ hnone => ?_)
      (fun q hq => ?_) fun hnone => ?_⟩
    · cases hnone
    · obtain rfl := Option.some.inj hq
      refine ⟨fun query hasked => (hfollowing.latest query hasked).trans hactivates.ask.symm,
        hfollowing.asked, fun hopen => (hfollowing.answered hopen).of_view hactivates.page,
        fun call hwaits => ?_, fun activation hwaits => ?_, fun call hnext _ _ => ?_, fun hnext => ?_⟩
      · cases hwaits.symm.trans hnone
      · cases hwaits.symm.trans hactivation
      · obtain rfl := Option.some.inj hnext
        exact ⟨(hfollowing.waiting _ hcall).1, rfl⟩
      · cases hnext
    · cases hnone
  next hquery hactivation hrest =>
    have hwaiting : s.waitingActivation = none := by
      cases hpresenter : s.presenter with
      | none => exact (h.absent hpresenter).2
      | some p =>
        refine waitingActivation_eq_none.mpr ⟨?_, hactivation⟩
        rw [Option.eq_none_iff_forall_ne_some]
        intro pending hexternal
        exact hrest pending p hexternal hpresenter
    exact ⟨.idle, h, fun _ => ⟨hquery, hwaiting⟩⟩

theorem Sound.idle (h : Sound reads s phase) (hfree : s.worker.busy = false) :
    phase = .idle ∧ s.pendingQuery = none ∧ s.pendingActivation = none ∧
      s.pendingExternalActivation = none := by
  obtain ⟨hquery, hwaiting⟩ := h.queued hfree
  obtain ⟨hexternal, hactivation⟩ := waitingActivation_eq_none.mp hwaiting
  exact ⟨h.worker.eq_idle hfree, hquery, hactivation, hexternal⟩

end Dispatch

section Calls

private theorem Sound.queue (h : Sound reads s phase) (hworker : t.worker = s.worker)
    (hepoch : t.epoch = s.epoch) (hpresenter : t.presenter = some q)
    (hexternal : ∀ pending, t.pendingExternalActivation = some pending → pending.epoch = t.epoch)
    (hfollowing : t.Following reads q (s.inFlight phase)) : Steady reads t phase where
  worker := hworker ▸ h.worker
  epochs := hepoch ▸ h.epochs
  outcome := h.outcome
  external := hexternal
  following p hp := by
    obtain rfl := Option.some.inj (hpresenter.symm.trans hp)
    rw [inFlight, hepoch]
    exact hfollowing
  absent hnone := by cases hpresenter.symm.trans hnone

theorem Steady.busy (h : Steady reads s phase) (hbusy : s.worker.busy = true) :
    Sound reads s phase where
  toSteady := h
  queued hfree := absurd (hfree.symm.trans hbusy) Bool.false_ne_true

theorem Sound.attach (h : Sound reads s phase) : Sound reads s.attach phase where
  worker := h.worker
  epochs job hjob := Nat.le_succ_of_le (h.epochs job hjob)
  outcome := h.outcome
  external _ hpending := by cases hpending
  following p hp := by
    have hnone : s.attach.inFlight phase = none := by
      rw [inFlight, Option.map_eq_none_iff, Option.filter_eq_none_iff]
      intro job hjob hepoch
      have hle := h.epochs job hjob
      have heq : job.epoch = s.epoch + 1 := of_decide_eq_true hepoch
      omega
    rw [hnone]
    refine ⟨fun _ hasked => ?_, fun _ hopen => ?_, fun _ _ hasked => ?_, fun _ hwaits => ?_,
      fun _ hwaits => ?_, fun _ hnext => ?_, fun _ _ _ hrequested => ?_⟩
    · cases hasked
    · cases hopen
    · cases hasked
    · cases hwaits
    · cases hwaits
    · cases hnext
    · cases hrequested
  absent _ := ⟨rfl, rfl⟩
  queued _ := ⟨rfl, rfl⟩

theorem Sound.detach (h : Sound reads s phase) : Sound reads s.detach phase where
  worker := h.worker
  epochs job hjob := Nat.le_succ_of_le (h.epochs job hjob)
  outcome := h.outcome
  external _ hpending := by cases hpending
  following _ hp := by cases hp
  absent _ := ⟨rfl, rfl⟩
  queued _ := ⟨rfl, rfl⟩

theorem Sound.prepareQuery (h : Sound reads s phase) (call : QueryCall) :
    ∃ phase', Sound reads (s.prepareQuery call) phase' := by
  unfold BrowserRunner.prepareQuery
  split
  next => exact ⟨phase, h⟩
  next p hp =>
    have hasks := GameBrowserState.asks_prepare (s := p) call
    dsimp only
    split
    next e herror =>
      exact ⟨phase, h.setPresenter hp ⟨hasks.failed e herror, hasks.page, hasks.game⟩⟩
    next query hok =>
      have hqueued := h.queue (t := { s with
          presenter := some (call.prepare p).1
          pendingQuery := some query
          pendingActivation := none
          pendingExternalActivation := none
          log := { s.log with
            asked := some query
            displaced := s.log.displaced || s.waitingActivation.isSome } }) rfl rfl rfl
        (fun _ hnone => by cases hnone) ((h.following p hp).queueQuery hasks hok)
      rw [runQuery]
      split
      next hbusy => exact ⟨phase, hqueued.busy hbusy⟩
      next hfree =>
        have hnot : s.worker.busy = false := by simpa using hfree
        obtain ⟨rfl, hquery, hactivation, hexternal⟩ := h.idle hnot
        have hdispatch := hqueued.dispatchPending
        rw [dispatchPending] at hdispatch
        simpa [runQuery, hnot, hquery, hactivation, hexternal, waitingActivation] using hdispatch

theorem Sound.activate (h : Sound reads s phase) : ∃ phase', Sound reads s.activate phase' := by
  unfold BrowserRunner.activate
  split
  next => exact ⟨phase, h⟩
  next p hp =>
    have hactivates := GameBrowserState.activates_selected (s := p)
    dsimp only
    split
    next e herror => exact ⟨phase, h.setPresenter hp (hactivates.failed e herror)⟩
    next activation hok =>
      have hqueued := h.queue (t := { s with
          presenter := some p.prepareActivation.1
          pendingActivation := some activation
          pendingExternalActivation := none
          log := { s.log with requested := some (.ofRow activation), displaced := false } })
        rfl rfl rfl (fun _ hnone => by cases hnone)
        ((h.following p hp).queueActivation hactivates hok)
      rw [runActivation]
      split
      next hbusy => exact ⟨phase, hqueued.busy hbusy⟩
      next hfree =>
        have hnot : s.worker.busy = false := by simpa [noteActivation] using hfree
        obtain ⟨rfl, hquery, hactivation, hexternal⟩ := h.idle hnot
        have hdispatch := hqueued.dispatchPending
        simpa [dispatchPending, runActivation, noteActivation, hnot, hquery, hactivation, hexternal]
          using hdispatch

theorem Sound.activateById (h : Sound reads s phase) (gameId : UInt32) (ply : ℕ) :
    ∃ phase', Sound reads (s.activateById gameId ply) phase' := by
  unfold BrowserRunner.activateById
  split
  next => exact ⟨phase, h⟩
  next p hp =>
    have hqueued := h.queue (t := { s with
        pendingExternalActivation := some ⟨gameId, ply, s.epoch⟩
        log := { s.log with requested := some (.byId gameId ply), displaced := false } })
      rfl rfl hp (fun pending hpending => by obtain rfl := Option.some.inj hpending; rfl)
      ((h.following p hp).queueExternal gameId ply s.epoch)
    dsimp only
    split
    next hbusy => exact ⟨phase, hqueued.busy hbusy⟩
    next hfree =>
      have hnot : s.worker.busy = false := by simpa using hfree
      obtain ⟨rfl, hquery, hactivation, hexternal⟩ := h.idle hnot
      have hdispatch := hqueued.dispatchPending
      simpa [dispatchPending, prepareExternal, runExternalActivation, noteActivation, hnot, hquery,
        hactivation, hexternal, hp, GameBrowserState.prepareExternalActivation] using hdispatch

end Calls

section Completions

private theorem executeQuery_generation {database : Database} {query : BrowserQuery}
    {page : BrowserPage Entry} (h : reads.executeQuery database query = .ok page) :
    page.generation = query.generation := by
  unfold BrowserReads.executeQuery at h
  split at h
  · cases h
  · obtain rfl := Except.ok.inj h
    rfl

private theorem executeActivation_generation {database : Database} {activation : ActivationRequest}
    {loaded : LoadedGame Game} (h : reads.executeActivation database activation = .ok loaded) :
    loaded.generation = activation.generation := by
  unfold BrowserReads.executeActivation at h
  split at h
  · cases h
  · obtain rfl := Except.ok.inj h
    rfl

theorem Following.answer {query : BrowserQuery} (h : s.Following reads p (some (.query query)))
    {answer : Except BrowserError (BrowserPage Entry)} (hanswer : IsAnswer reads query answer)
    (hviews : q.askView = p.askView ∧ q.gameView = p.gameView)
    (hshown : query.generation = p.queryGeneration → ∀ page, answer = .ok page → q.ShowsPage page) :
    Following reads { s with presenter := some q, log := { s.log with answer := some answer } } q
      none where
  latest other hasked := (h.latest other hasked).trans hviews.1.symm
  asked other hother := by
    apply h.asked
    rw [Option.bind_none, Option.or_none] at hother
    dsimp only at hother
    rw [hother, Option.some_or]
  answered hopen := by
    intro other hother
    rw [Option.bind_none, Option.or_none] at hopen
    dsimp only at hopen hother
    have hasked : s.log.asked = some query := h.asked query (by rw [hopen]; rfl)
    obtain rfl := Option.some.inj (hasked.symm.trans hother)
    exact ⟨answer, rfl, hanswer, hshown (congrArg Prod.fst (h.latest query hasked))⟩
  waiting := h.waiting
  ready activation hactivation hexternal :=
    (h.ready activation hactivation hexternal).trans (congrArg Prod.fst hviews.2).symm
  flying call hcall := by cases hcall
  handled _ hwaiting := (h.handled rfl hwaiting).of_view (congrArg Prod.snd hviews.2)

theorem Following.handle {next : BrowserRequest} (h : s.Following reads p (some next))
    (hasked : next.asked = none) {call : ActivationCall × UInt64} (hcall : next.call = some call)
    {outcome : Except BrowserError (LoadedGame Game)} (houtcome : IsActivation reads call.1 outcome)
    (hviews : q.askView = p.askView ∧ q.pageView = p.pageView ∧
      q.activationGeneration = p.activationGeneration)
    (hshown : call.2 = p.activationGeneration → ∀ gameId ply loaded, call.1 = .byId gameId ply →
      outcome = .ok loaded → q.ShowsGame loaded) :
    Following reads { s with presenter := some q, log := { s.log with outcome := some outcome } } q
      none where
  latest query hquery := (h.latest query hquery).trans hviews.1.symm
  asked query hquery := by
    apply h.asked
    rw [Option.bind_some, hasked]
    exact hquery
  answered hopen := by
    have hnone : s.pendingQuery.or ((some next).bind BrowserRequest.asked) = none := by
      rw [Option.bind_some, hasked]
      exact hopen
    exact (h.answered hnone).of_view hviews.2.1
  waiting := h.waiting
  ready activation hactivation hexternal :=
    (h.ready activation hactivation hexternal).trans hviews.2.2.symm
  flying call hcall := by cases hcall
  handled _ hwaiting := by
    intro other hother hdisplaced
    obtain ⟨hrequested, hgeneration⟩ := h.flying call hcall hwaiting hdisplaced
    obtain rfl := Option.some.inj (hrequested.symm.trans hother)
    exact ⟨outcome, rfl, houtcome, hshown hgeneration⟩

theorem Following.apply {job : BrowserJob} (h : s.Following reads p (some job.request))
    (hp : s.presenter = some p) {outcome : BrowserOutcome Entry Game}
    (hexecuted : ∃ database, reads.execute database job = outcome) :
    ∃ q log, (s.apply reads job outcome).1 = { s with presenter := some q, log } ∧
      Following reads { s with presenter := some q, log } q none := by
  obtain ⟨database, rfl⟩ := hexecuted
  obtain ⟨next, epoch⟩ := job
  unfold BrowserRunner.apply BrowserReads.execute
  rw [hp]
  cases next with
  | query query =>
    dsimp only
    unfold applyPage
    generalize hanswer : reads.executeQuery database query = answer
    refine ⟨_, _, rfl, h.answer ⟨database, hanswer⟩ ?_ fun hgeneration page hpage => ?_⟩
    · cases answer with
      | error e =>
        have hsame := GameBrowserState.same_applyQueryError (s := p) query.generation e
        exact ⟨hsame.ask, hsame.game⟩
      | ok page => exact GameBrowserState.applyQuery_views reads.entryId page
    · subst hpage
      exact GameBrowserState.applyQuery_latest ((executeQuery_generation hanswer).trans hgeneration)
  | activation activation =>
    dsimp only
    unfold applyGame
    generalize houtcome : reads.executeActivation database activation = outcome
    refine ⟨_, _, rfl, h.handle rfl rfl ⟨database, activation, rfl, houtcome⟩ ?_ ?_⟩
    · cases outcome with
      | error e =>
        have hsame := GameBrowserState.same_applyActivationError (s := p) activation.generation e
        exact ⟨hsame.ask, hsame.page, hsame.generation⟩
      | ok loaded => exact GameBrowserState.applyActivation_views loaded
    · intro _ gameId ply loaded hcall
      cases hcall
  | externalActivation activation ply =>
    dsimp only
    unfold applyGame
    generalize houtcome : reads.executeActivation database activation = outcome
    refine ⟨_, _, rfl, h.handle rfl rfl ⟨database, activation, rfl, houtcome⟩ ?_ ?_⟩
    · cases outcome with
      | error e =>
        have hsame := GameBrowserState.same_applyActivationError (s := p) activation.generation e
        exact ⟨hsame.ask, hsame.page, hsame.generation⟩
      | ok loaded => exact GameBrowserState.applyExternalActivation_views reads.entryId loaded
    · intro hgeneration gameId ply loaded _ hloaded
      subst hloaded
      exact GameBrowserState.applyExternalActivation_latest
        ((executeActivation_generation houtcome).trans hgeneration)

private theorem steady_released (hidle : s.worker.release.InPhase .idle)
    (hexternal : ∀ pending, s.pendingExternalActivation = some pending → pending.epoch = s.epoch)
    (hfollowing : ∀ p, s.presenter = some p → s.Following reads p none)
    (habsent : s.presenter = none → s.pendingQuery = none ∧ s.waitingActivation = none) :
    Steady reads { s with worker := s.worker.release } .idle where
  worker := hidle
  epochs job hjob := by cases hjob
  outcome job outcome hphase := by cases hphase
  external := hexternal
  following p hp := (hfollowing p hp).keep _ _
  absent := habsent

theorem Sound.complete (h : Sound reads s phase) {job : BrowserJob}
    {outcome : BrowserOutcome Entry Game} (hphase : phase = .finished job outcome)
    {worker : Worker BrowserJob (BrowserOutcome Entry Game)}
    (hidle : worker.release.InPhase .idle) :
    ∃ phase', Sound reads ({ s with worker }.complete reads job outcome).1 phase' := by
  subst hphase
  unfold BrowserRunner.complete
  apply Steady.dispatchPending
  dsimp only
  by_cases hepoch : s.epoch = job.epoch
  · have hnext : s.inFlight (.finished job outcome) = some job.request := by
      simp [inFlight, Worker.Phase.job, Option.filter, hepoch]
    rw [if_pos hepoch]
    obtain hp | ⟨p, hp⟩ := Option.eq_none_or_eq_some s.presenter
    · have happly : ({ s with worker }.apply reads job outcome).1 = { s with worker } := by
        unfold BrowserRunner.apply
        dsimp only
        rw [hp]
      rw [happly]
      refine steady_released hidle h.external (fun p hpresenter => ?_) h.absent
      cases hp.symm.trans hpresenter
    · have hfollowing := h.following p hp
      rw [hnext] at hfollowing
      obtain ⟨q, log, happly, hfollows⟩ := (hfollowing.keep s.presenter worker).apply hp
        (h.outcome job outcome rfl)
      rw [happly]
      refine steady_released hidle h.external (fun q' hq => ?_) fun hnone => ?_
      · obtain rfl := Option.some.inj hq
        exact hfollows
      · cases hnone
  · have hnone : s.inFlight (.finished job outcome) = none := by
      have hne : ¬job.epoch = s.epoch := fun heq => hepoch heq.symm
      simp [inFlight, Worker.Phase.job, Option.filter, hne]
    rw [if_neg hepoch]
    refine steady_released hidle h.external (fun p hp => ?_) h.absent
    exact hnone ▸ (h.following p hp).keep s.presenter worker

theorem Sound.finish (h : Sound reads s phase) {database : Database}
    (hfinish : s.finish reads database = some t) : ∃ phase', Sound reads t phase' := by
  obtain ⟨worker, hworker, rfl⟩ := Option.map_eq_some_iff.mp hfinish
  obtain ⟨job, rfl, hphase⟩ := h.worker.finish hworker
  have hbusy : worker.busy = true := hphase.busy_iff.mpr rfl
  refine ⟨_, ⟨hphase, h.epochs, fun job' outcome heq => ?_, h.external, fun p hp => ?_, h.absent⟩,
    fun hfree => ?_⟩
  · obtain ⟨rfl, rfl⟩ := Worker.Phase.finished.inj heq
    exact ⟨database, rfl⟩
  · exact (h.following p hp).keep _ _
  · exact absurd (hfree.symm.trans hbusy) Bool.false_ne_true

theorem Sound.deliver (h : Sound reads s phase) {event : Option (BrowserEvent Game)}
    (hdeliver : s.deliver reads = some (t, event)) : ∃ phase', Sound reads t phase' := by
  obtain ⟨⟨completion, worker⟩, htake, hdelivered⟩ := Option.map_eq_some_iff.mp hdeliver
  obtain ⟨hbusy, -, hstale | hlive⟩ := h.worker.take htake
  · dsimp only at hdelivered
    rw [if_neg hstale.1] at hdelivered
    obtain ⟨rfl, -⟩ := Prod.mk.inj hdelivered
    refine ⟨phase, ⟨hstale.2, h.epochs, h.outcome, h.external, fun p hp => ?_, h.absent⟩,
      fun hfree => h.queued (hbusy.symm.trans hfree)⟩
    exact (h.following p hp).keep _ _
  · dsimp only at hdelivered
    rw [if_pos hlive.1] at hdelivered
    obtain ⟨phase', hsound⟩ := h.complete hlive.2.1 hlive.2.2
    rw [hdelivered] at hsound
    exact ⟨phase', hsound⟩

end Completions

section Settled

variable (reads) in
theorem sound_new : Sound reads ({} : BrowserRunner Entry Game) .idle where
  worker := Worker.inPhase_new
  epochs _ hjob := by cases hjob
  outcome _ _ hphase := by cases hphase
  external _ hpending := by cases hpending
  following _ hp := by cases hp
  absent _ := ⟨rfl, rfl⟩
  queued _ := ⟨rfl, rfl⟩

theorem Sound.step (h : Sound reads s phase) {a : BrowserRunnerAction Database}
    (hstep : s.step reads a = some t) : ∃ phase', Sound reads t phase' := by
  cases a with
  | attach =>
    obtain rfl := Option.some.inj hstep
    exact ⟨phase, h.attach⟩
  | detach =>
    obtain rfl := Option.some.inj hstep
    exact ⟨phase, h.detach⟩
  | prepareQuery call =>
    obtain rfl := Option.some.inj hstep
    exact h.prepareQuery call
  | select row =>
    obtain rfl := Option.some.inj hstep
    exact ⟨phase, h.mapPresenter fun p => p.same_selectGame reads.entryId row⟩
  | moveSelection delta =>
    obtain rfl := Option.some.inj hstep
    exact ⟨phase, h.mapPresenter fun p => p.same_moveSelection reads.entryId delta⟩
  | activate =>
    obtain rfl := Option.some.inj hstep
    exact h.activate
  | activateById gameId ply =>
    obtain rfl := Option.some.inj hstep
    exact h.activateById gameId ply
  | resizeColumn column width =>
    obtain rfl := Option.some.inj hstep
    exact ⟨phase, h.mapPresenter fun p => p.same_resizeColumn column width⟩
  | dismissError =>
    obtain rfl := Option.some.inj hstep
    exact ⟨phase, h.mapPresenter fun p => ⟨rfl, rfl, rfl⟩⟩
  | finish database => exact h.finish hstep
  | deliver =>
    obtain ⟨⟨u, event⟩, hdeliver, rfl⟩ := Option.map_eq_some_iff.mp hstep
    exact h.deliver hdeliver

variable (reads) in
/-- A runner that has settled: nothing waits, the last query asks for the filters and the order that
are set and was answered, and the last activation was handled unless a query displaced it. -/
structure Settled (s : BrowserRunner Entry Game) (p : GameBrowserState Entry Game) : Prop where
  pending : s.pendingQuery = none ∧ s.pendingActivation = none ∧ s.pendingExternalActivation = none
  latest : ∀ query, s.log.asked = some query → p.AsksFor query
  answered : s.Answered reads p
  handled : s.Handled reads p

theorem Sound.settled (h : Sound reads s phase) (hfree : s.worker.busy = false)
    {p : GameBrowserState Entry Game} (hp : s.presenter = some p) : Settled reads s p := by
  obtain ⟨rfl, hquery, hactivation, hexternal⟩ := h.idle hfree
  have hfollowing := h.following p hp
  refine ⟨⟨hquery, hactivation, hexternal⟩, hfollowing.latest, ?_, ?_⟩
  · apply hfollowing.answered
    rw [hquery]
    rfl
  · exact hfollowing.handled rfl (waitingActivation_eq_none.mpr ⟨hexternal, hactivation⟩)

variable (reads) in
/-- In every run, a browser runner that is not busy has settled: the page that it shows answers the last
query, and no activation is lost but to a query that came while it waited. -/
theorem settledBrowser_of_reaches
    (h : Reaches (BrowserRunner.step reads) (fun _ _ => True) {} s) (hfree : s.worker.busy = false)
    {p : GameBrowserState Entry Game} (hp : s.presenter = some p) : Settled reads s p := by
  have hinvariant : ∃ phase, Sound reads s phase := by
    apply h.invariant
    · exact ⟨.idle, sound_new reads⟩
    · rintro s a t ⟨phase, hsound⟩ - hstep
      exact hsound.step hstep
  obtain ⟨phase, hsound⟩ := hinvariant
  exact hsound.settled hfree hp

/-- Three games, of which a filter by a player finds the second. -/
private def threeGames : BrowserReads Unit UInt32 ℕ where
  entryId entry := entry
  findGames _ filter := .ok (if filter.playerName.isSome then ([2], 1) else ([1, 2, 3], 3))
  get _ gameId := if gameId ≤ 3 then .ok gameId.toNat else .error ⟨.notFound, ""⟩
  count_le _ filter games totalCount h := by
    have hpair := Except.ok.inj h
    split at hpair
    · obtain ⟨-, rfl⟩ := Prod.mk.inj hpair
      decide
    · obtain ⟨-, rfl⟩ := Prod.mk.inj hpair
      decide

private def twoQueries : Option (BrowserRunner UInt32 ℕ) :=
  run (BrowserRunner.step threeGames) (fun _ _ => True) {} [.attach, .prepareQuery .initialLoad,
    .activateById 3 5, .prepareQuery (.setFilters "a" ""), .activateById 2 4, .finish (), .deliver,
    .finish (), .deliver, .finish (), .deliver]

/-- The second of two queries in a row is shown, and the activation that came after it is on the board;
the one before it was displaced. -/
theorem settledBrowser_of_reaches_sample : ∃ s p, twoQueries = some s ∧ s.presenter = some p ∧
    Settled threeGames s p ∧ p.games = [2] ∧ p.activeGame = some 2 := by
  have hrun : (twoQueries.bind fun s => s.presenter.map fun p =>
      (s.worker.busy, p.games, p.activeGame)) = some (false, [2], some 2) := by
    decide +kernel
  obtain ⟨s, hs, hmap⟩ := Option.bind_eq_some_iff.mp hrun
  obtain ⟨p, hp, hvalues⟩ := Option.map_eq_some_iff.mp hmap
  obtain ⟨hfree, hvalues⟩ := Prod.mk.inj hvalues
  obtain ⟨hgames, hgame⟩ := Prod.mk.inj hvalues
  exact ⟨s, p, hs, hp, settledBrowser_of_reaches threeGames (reaches_of_run hs) hfree hp, hgames, hgame⟩

end Settled

end BrowserRunner

end Runs

end MotifChess.SlintApp
