/- GID: MotifChess/SlintApp/BrowserRunner
   generality: implementation
   digest: The runner that executes the queries and activations of the browser off the event loop. -/

import MotifChess.SlintApp.GameBrowserRuns
import MotifChess.System.Worker

set_option autoImplicit false
set_option relaxedAutoImplicit false

namespace MotifChess.SlintApp

open MotifChess.Db MotifChess.System

variable {Database Entry Game : Type}

section Runner

inductive BrowserRequest
  | query (query : BrowserQuery)
  | activation (request : ActivationRequest)
  | externalActivation (request : ActivationRequest) (ply : ℕ)
  deriving DecidableEq

/-- A request with the epoch of the presenter that it is for. -/
structure BrowserJob where
  request : BrowserRequest
  epoch : ℕ

inductive BrowserOutcome (Entry Game : Type)
  | page (result : Except BrowserError (BrowserPage Entry))
  | game (result : Except BrowserError (LoadedGame Game))

/-- An activation from outside the browser, which is prepared when its turn comes. -/
structure PendingExternalActivation where
  gameId : UInt32
  ply : ℕ
  epoch : ℕ
  deriving DecidableEq

/-- An activation as it was asked for: of the selected row, or of a game by its id. -/
inductive ActivationCall
  | ofRow (request : ActivationRequest)
  | byId (gameId : UInt32) (ply : ℕ)
  deriving DecidableEq

/-- What became of the calls to the current presenter: the last query that was prepared and the last
result of a query, the last activation that was asked for and the last result of one, and whether a
query displaced that activation while it waited. -/
structure BrowserLog (Entry Game : Type) where
  asked : Option BrowserQuery := none
  answer : Option (Except BrowserError (BrowserPage Entry)) := none
  requested : Option ActivationCall := none
  outcome : Option (Except BrowserError (LoadedGame Game)) := none
  displaced : Bool := false

/-- `async_browser_runner::state`, without the window that it publishes to, with a log. -/
structure BrowserRunner (Entry Game : Type) where
  presenter : Option (GameBrowserState Entry Game) := none
  worker : Worker BrowserJob (BrowserOutcome Entry Game) := {}
  pendingQuery : Option BrowserQuery := none
  pendingActivation : Option ActivationRequest := none
  pendingExternalActivation : Option PendingExternalActivation := none
  epoch : ℕ := 0
  log : BrowserLog Entry Game := {}

/-- What a completed activation tells the board. -/
inductive BrowserEvent (Game : Type)
  | loaded (gameId : UInt32) (game : Game) (ply : Option ℕ)
  | failed

variable (reads : BrowserReads Database Entry Game)

/-- What the thread of a request does. -/
def BrowserReads.execute (database : Database) (job : BrowserJob) : BrowserOutcome Entry Game :=
  match job.request with
  | .query query => .page (reads.executeQuery database query)
  | .activation request => .game (reads.executeActivation database request)
  | .externalActivation request _ => .game (reads.executeActivation database request)

namespace BrowserRunner

section Calls

def attach (s : BrowserRunner Entry Game) : BrowserRunner Entry Game where
  presenter := some {}
  worker := s.worker
  epoch := s.epoch + 1

def detach (s : BrowserRunner Entry Game) : BrowserRunner Entry Game where
  presenter := none
  worker := s.worker
  epoch := s.epoch + 1

/-- The activation that waits last. -/
def waitingActivation (s : BrowserRunner Entry Game) : Option ActivationCall :=
  (s.pendingExternalActivation.map fun pending => .byId pending.gameId pending.ply).or
    (s.pendingActivation.map .ofRow)

/-- `run_query`: started at once, or kept as the query that follows, in the place of activations. -/
def runQuery (query : BrowserQuery) (epoch : ℕ) (s : BrowserRunner Entry Game) :
    BrowserRunner Entry Game :=
  if s.worker.busy then
    { s with
      pendingQuery := some query
      pendingActivation := none
      pendingExternalActivation := none
      log := { s.log with displaced := s.log.displaced || s.waitingActivation.isSome } }
  else { s with worker := s.worker.start ⟨.query query, epoch⟩ }

/-- `run_activation`. -/
def runActivation (request : ActivationRequest) (epoch : ℕ) (s : BrowserRunner Entry Game) :
    BrowserRunner Entry Game :=
  if s.worker.busy then
    { s with pendingActivation := some request, pendingExternalActivation := none }
  else { s with worker := s.worker.start ⟨.activation request, epoch⟩ }

/-- `run_external_activation`. -/
def runExternalActivation (request : ActivationRequest) (ply epoch : ℕ)
    (s : BrowserRunner Entry Game) : BrowserRunner Entry Game :=
  if s.worker.busy then { s with pendingExternalActivation := some ⟨request.gameId, ply, epoch⟩ }
  else { s with worker := s.worker.start ⟨.externalActivation request ply, epoch⟩ }

/-- `prepare_query`, for the call of the presenter that prepares it. -/
def prepareQuery (call : QueryCall) (s : BrowserRunner Entry Game) : BrowserRunner Entry Game :=
  match s.presenter with
  | none => s
  | some presenter =>
    let prepared := call.prepare presenter
    let shown := { s with presenter := some prepared.1 }
    match prepared.2 with
    | .error _ => shown
    | .ok query =>
      { shown with log := { s.log with asked := some query } }.runQuery query s.epoch

def select (row : ℕ) (s : BrowserRunner Entry Game) : BrowserRunner Entry Game :=
  { s with presenter := s.presenter.map fun p => (p.selectGame reads.entryId row).1 }

def moveSelection (delta : ℤ) (s : BrowserRunner Entry Game) : BrowserRunner Entry Game :=
  { s with presenter := s.presenter.map fun p => (p.moveSelection reads.entryId delta).1 }

def noteActivation (call : ActivationCall) (s : BrowserRunner Entry Game) :
    BrowserRunner Entry Game :=
  { s with log := { s.log with requested := some call, displaced := false } }

def activate (s : BrowserRunner Entry Game) : BrowserRunner Entry Game :=
  match s.presenter with
  | none => s
  | some presenter =>
    let prepared := presenter.prepareActivation
    let shown := { s with presenter := some prepared.1 }
    match prepared.2 with
    | .error _ => shown
    | .ok request => (shown.noteActivation (.ofRow request)).runActivation request s.epoch

/-- The preparation of an external activation, and its run. -/
def prepareExternal (gameId : UInt32) (ply epoch : ℕ) (presenter : GameBrowserState Entry Game)
    (s : BrowserRunner Entry Game) : BrowserRunner Entry Game :=
  let prepared := presenter.prepareExternalActivation gameId
  let shown := { s with presenter := some prepared.1 }
  match prepared.2 with
  | .error _ => shown
  | .ok request => shown.runExternalActivation request ply epoch

def activateById (gameId : UInt32) (ply : ℕ) (s : BrowserRunner Entry Game) :
    BrowserRunner Entry Game :=
  match s.presenter with
  | none => s
  | some presenter =>
    let logged := s.noteActivation (.byId gameId ply)
    if s.worker.busy then
      { logged with pendingExternalActivation := some ⟨gameId, ply, s.epoch⟩ }
    else logged.prepareExternal gameId ply s.epoch presenter

def resizeColumn (column : ℕ) (width : ℤ) (s : BrowserRunner Entry Game) :
    BrowserRunner Entry Game :=
  { s with presenter := s.presenter.map fun p => (p.resizeColumn column width).1 }

def dismissError (s : BrowserRunner Entry Game) : BrowserRunner Entry Game :=
  { s with presenter := s.presenter.map .dismissError }

/-- `active_filter`. -/
def activeFilter (s : BrowserRunner Entry Game) : SearchFilter :=
  s.presenter.elim {} fun p => {
    playerName := nonemptyOptional p.playerFilter
    result := nonemptyOptional p.resultFilter }

end Calls

section Completions

/-- `dispatch_pending`: the query that waits comes first, and an external activation last. -/
def dispatchPending (s : BrowserRunner Entry Game) : BrowserRunner Entry Game :=
  match s.pendingQuery, s.pendingActivation, s.pendingExternalActivation, s.presenter with
  | some query, _, _, _ => { s with pendingQuery := none }.runQuery query s.epoch
  | none, some request, _, _ => { s with pendingActivation := none }.runActivation request s.epoch
  | none, none, some pending, some presenter =>
    { s with pendingExternalActivation := none }.prepareExternal pending.gameId pending.ply
      pending.epoch presenter
  | none, none, _, _ => s

/-- The part of `complete_query` for the epoch of its presenter. -/
def applyPage (query : BrowserQuery) (result : Except BrowserError (BrowserPage Entry))
    (presenter : GameBrowserState Entry Game) (s : BrowserRunner Entry Game) :
    BrowserRunner Entry Game :=
  let applied := match result with
    | .ok page => presenter.applyQuery reads.entryId page
    | .error e => presenter.applyQueryError query.generation e
  { s with
    presenter := some applied.1
    log := { s.log with answer := some result } }

/-- The part of `complete_activation` and `complete_external_activation` for the epoch of their
presenter. -/
def applyGame (request : ActivationRequest) (external : Option ℕ)
    (result : Except BrowserError (LoadedGame Game)) (presenter : GameBrowserState Entry Game)
    (s : BrowserRunner Entry Game) : BrowserRunner Entry Game × Option (BrowserEvent Game) :=
  let applied := match result with
    | .ok loaded => if external.isSome then presenter.applyExternalActivation reads.entryId loaded
        else presenter.applyActivation loaded
    | .error e => presenter.applyActivationError request.generation e
  let told := match result with
    | .ok _ => applied.1.activeGame.map fun game => .loaded applied.1.activeGameId game external
    | .error _ => some .failed
  ({ s with presenter := some applied.1, log := { s.log with outcome := some result } },
    if applied.2 then told else none)

/-- A completion for the presenter of its epoch. -/
def apply (job : BrowserJob) (outcome : BrowserOutcome Entry Game)
    (s : BrowserRunner Entry Game) : BrowserRunner Entry Game × Option (BrowserEvent Game) :=
  match s.presenter, job.request, outcome with
  | some presenter, .query query, .page result => (s.applyPage reads query result presenter, none)
  | some presenter, .activation request, .game result =>
    s.applyGame reads request none result presenter
  | some presenter, .externalActivation request ply, .game result =>
    s.applyGame reads request (some ply) result presenter
  | _, _, _ => (s, none)

/-- The completion of a request, after which the next one is dispatched. -/
def complete (job : BrowserJob) (outcome : BrowserOutcome Entry Game)
    (s : BrowserRunner Entry Game) : BrowserRunner Entry Game × Option (BrowserEvent Game) :=
  let applied := if s.epoch = job.epoch then s.apply reads job outcome else (s, none)
  ({ applied.1 with worker := applied.1.worker.release }.dispatchPending, applied.2)

def finish (database : Database) (s : BrowserRunner Entry Game) :
    Option (BrowserRunner Entry Game) :=
  (s.worker.finish (reads.execute database)).map fun worker => { s with worker }

def deliver (s : BrowserRunner Entry Game) :
    Option (BrowserRunner Entry Game × Option (BrowserEvent Game)) :=
  s.worker.take.map fun taken =>
    let left := { s with worker := taken.2 }
    if taken.1.lifetime = s.worker.lifetime then left.complete reads taken.1.job taken.1.outcome
    else (left, none)

end Completions

end BrowserRunner

inductive BrowserRunnerAction (Database : Type)
  | attach
  | detach
  | prepareQuery (call : QueryCall)
  | select (row : ℕ)
  | moveSelection (delta : ℤ)
  | activate
  | activateById (gameId : UInt32) (ply : ℕ)
  | resizeColumn (column : ℕ) (width : ℤ)
  | dismissError
  | finish (database : Database)
  | deliver

def BrowserRunner.step (s : BrowserRunner Entry Game) :
    BrowserRunnerAction Database → Option (BrowserRunner Entry Game)
  | .attach => some s.attach
  | .detach => some s.detach
  | .prepareQuery call => some (s.prepareQuery call)
  | .select row => some (s.select reads row)
  | .moveSelection delta => some (s.moveSelection reads delta)
  | .activate => some s.activate
  | .activateById gameId ply => some (s.activateById gameId ply)
  | .resizeColumn column width => some (s.resizeColumn column width)
  | .dismissError => some s.dismissError
  | .finish database => s.finish reads database
  | .deliver => (s.deliver reads).map Prod.fst

end Runner

end MotifChess.SlintApp
