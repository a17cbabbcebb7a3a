/- GID: MotifChess/SlintApp/Window
   generality: implementation
   digest: The window: its callbacks, the runners behind them, the import and its timer. -/

import MotifChess.SlintApp.BoardRuns
import MotifChess.SlintApp.BrowserRunner
import MotifChess.SlintApp.ImportService
import MotifChess.SlintApp.SearchRunner
import MotifChess.SlintApp.WorkspaceService

set_option autoImplicit false
set_option relaxedAutoImplicit false

namespace MotifChess.SlintApp

open MotifChess.Db MotifChess.System

section Model

/-- What the window works with: the chess library, the reads of a database and the configuration. -/
structure Environment (Database Entry Continuation : Type) where
  library : Chess.Library
  browserReads : BrowserReads Database Entry Game
  searchReads : Reads Database Entry Continuation
  format : ConfigFormat
  configured : Bool

inductive WorkspaceRequest
  | createDatabase (dirPath name : String)
  | openDatabase (dirPath : String)
  | activateScratch

/-- What a request of the workspace meets: a bundle with the name in its manifest or an error, and
where the save of the configuration fails. -/
structure WorkspaceWorld where
  bundle : Except DatabaseError String
  fault : Option SaveFault

/-- The objects of `main`, and what the window was told of the service. Bundles are numbered in the order
in which they were acquired; which of them the presenters of an epoch read from and the last import wrote
to is noted. -/
structure Window (Entry Continuation : Type) where
  service : WorkspaceService ℕ := {}
  hasDatabase : Bool := false
  notationBelow : Bool := false
  workspace : Worker WorkspaceRequest Bool := {}
  browser : BrowserRunner Entry Game := {}
  search : SearchRunner Entry Continuation := {}
  board : Option BoardPresenter := none
  importer : ImportService := {}
  importTimer : Bool := false
  readFrom : ℕ → Option ℕ := fun _ => none
  importInto : Option ℕ := none

variable {Database Entry Continuation : Type} (env : Environment Database Entry Continuation)

/-- The operation of `async_workspace_runner`, and whether it succeeds. -/
def Environment.runRequest (world : WorkspaceWorld) (request : WorkspaceRequest)
    (service : WorkspaceService ℕ) : WorkspaceService ℕ × Bool :=
  let number := service.log.acquired.length
  let ran := match request with
    | .createDatabase dirPath name => service.createDatabase env.format env.configured
        (world.bundle.map fun _ => number) world.fault dirPath name
    | .openDatabase dirPath => service.openDatabase env.format env.configured
        (world.bundle.map fun name => (number, name)) world.fault dirPath
    | .activateScratch => service.activateScratch (world.bundle.map fun _ => number)
  (ran.1, ran.2.isOk)

/-- The actions of a user on the board. -/
inductive BoardCall
  | advance
  | retreat
  | jumpToStart
  | jumpToEnd
  | navigateTo (ply : ℕ)
  | selectSquare (file rank : ℤ)
  | toggleOrientation
  | setPanelVisible (visible : Bool)

def BoardCall.action : BoardCall → BoardAction
  | .advance => .advance
  | .retreat => .retreat
  | .jumpToStart => .jumpToStart
  | .jumpToEnd => .jumpToEnd
  | .navigateTo ply => .navigateTo ply
  | .selectSquare file rank => .selectSquare file rank
  | .toggleOrientation => .toggleOrientation
  | .setPanelVisible visible => .setPanelVisible visible

namespace Window

/-- Whether anything is at work; the board never is. -/
def busy (w : Window Entry Continuation) : Bool :=
  w.importer.active || w.workspace.busy || w.browser.worker.busy || w.search.worker.busy

/-- What a callback does unless something is at work. -/
def whenFree (act : Window Entry Continuation → Window Entry Continuation)
    (w : Window Entry Continuation) : Window Entry Continuation := if w.busy then w else act w

section Board

/-- `async_board_runner::current_hash`. -/
def currentHash (w : Window Entry Continuation) : Option UInt64 :=
  w.board.bind fun board => board.state.currentHash

/-- `async_board_runner::publish` with its handler: a new position may be searched for. -/
def publishBoard (w : Window Entry Continuation) : Window Entry Continuation :=
  w.currentHash.elim w fun hash =>
    { w with search := w.search.searchIfHashChanged hash w.browser.activeFilter }

/-- `async_board_runner::act`. -/
def act (action : BoardAction) (w : Window Entry Continuation) : Window Entry Continuation :=
  match w.board with
  | none => w
  | some board => publishBoard { w with board := some (board.perform env.library action) }

/-- The activation handlers of `main`. -/
def handle (event : Option (BrowserEvent Game)) (w : Window Entry Continuation) :
    Window Entry Continuation :=
  match event with
  | none => w
  | some (.loaded gameId game none) => w.act env (.load gameId game)
  | some (.loaded gameId game (some ply)) => w.act env (.loadAt gameId game ply)
  | some .failed => { w with board := w.board.map (.clear env.library) }

end Board

section Callbacks

def publishWorkspace (w : Window Entry Continuation) : Window Entry Continuation :=
  { w with hasDatabase := w.service.db.isSome, notationBelow := w.service.notationBelow }

/-- The four callbacks that start a request of the workspace. The window offers them while it shows no
database. -/
def requestWorkspace (request : WorkspaceRequest) (w : Window Entry Continuation) :
    Window Entry Continuation :=
  if w.hasDatabase then w
  else w.whenFree fun w => { w with workspace := w.workspace.start request }

/-- `on_close_requested`. -/
def closeWorkspace (w : Window Entry Continuation) : Option (Window Entry Continuation) :=
  if w.busy then some w
  else w.search.detach.map fun search => publishWorkspace { w with
    browser := w.browser.detach
    board := none
    search
    service := w.service.closeActive }

/-- `on_dismiss_error`. -/
def dismissError (w : Window Entry Continuation) : Window Entry Continuation :=
  { w with
    browser := w.browser.dismissError
    board := w.board.map .dismissError
    search := w.search.dismissError }

/-- `on_notation_layout_toggled`, which is offered beside the games of a database. -/
def toggleNotation (fault : Option SaveFault) (w : Window Entry Continuation) :
    Window Entry Continuation :=
  if w.hasDatabase then
    let notationBelow := !w.notationBelow
    match w.service.setNotationBelow env.format env.configured fault notationBelow with
    | (service, .error _) => { w with service }
    | (service, .ok _) => { w with service, notationBelow }
  else w

/-- `on_game_filters_changed`. -/
def changeFilters (player result : String) : Window Entry Continuation →
    Window Entry Continuation :=
  whenFree fun w =>
    let filtered := { w with browser := w.browser.prepareQuery (.setFilters player result) }
    { filtered with
      search := w.search.refreshIfAuto filtered.currentHash filtered.browser.activeFilter }

def mapBrowser (call : BrowserRunner Entry Game → BrowserRunner Entry Game) :
    Window Entry Continuation → Window Entry Continuation :=
  whenFree fun w => { w with browser := call w.browser }

def callBoard (call : BoardCall) : Window Entry Continuation → Window Entry Continuation :=
  whenFree (act env call.action)

/-- `on_search_requested`. -/
def requestSearch : Window Entry Continuation → Window Entry Continuation :=
  whenFree fun w => w.currentHash.elim w fun hash =>
    { w with search := w.search.search hash w.browser.activeFilter }

/-- `on_search_auto_search_toggled`. -/
def toggleAutoSearch (enabled : Bool) : Window Entry Continuation → Window Entry Continuation :=
  whenFree fun w =>
    let set := { w with search := w.search.setAutoSearch enabled }
    if enabled then set.publishBoard else set

/-- `on_search_page_requested`. -/
def requestSearchPage (page : ℕ) : Window Entry Continuation → Window Entry Continuation :=
  whenFree fun w => { w with search := w.search.setPage page }

/-- `on_search_match_activated`. -/
def activateMatch (row : ℕ) : Window Entry Continuation → Window Entry Continuation :=
  whenFree fun w => (w.search.matchAt row).elim w fun found =>
    { w with browser :=
        w.browser.activateById (env.searchReads.gameId found.game) found.ply.toNat }

/-- `on_import_requested`. -/
def requestImport (pathEmpty : Bool) (w : Window Entry Continuation) :
    Option (Window Entry Continuation) :=
  if w.workspace.busy || w.browser.worker.busy || w.search.worker.busy then some w
  else
    (w.importer.start w.service.db.isSome pathEmpty).map fun started =>
      match started.2 with
      | .error _ => { w with importer := started.1 }
      | .ok _ => { w with
          importer := started.1
          importTimer := true
          importInto := w.service.db }

/-- `on_cancel_import_requested`. -/
def cancelImport (w : Window Entry Continuation) : Window Entry Continuation :=
  { w with importer := w.importer.requestCancel }

end Callbacks

section Background

/-- The timer of an import: once the import is over, the browser and the search are read again. -/
def tick (w : Window Entry Continuation) : Option (Window Entry Continuation) :=
  if w.importTimer then
    if w.importer.active then some w
    else
      let reloaded := { w with
        importTimer := false
        browser := w.browser.prepareQuery .initialLoad }
      let search := w.search.invalidatePositionCache
      some { reloaded with
        search := search.refreshIfAuto reloaded.currentHash reloaded.browser.activeFilter }
  else none

/-- The thread of the workspace ends its request. -/
def finishWorkspace (world : WorkspaceWorld) (w : Window Entry Continuation) :
    Option (Window Entry Continuation) :=
  w.workspace.running.bind fun ticket =>
    let ran := env.runRequest world ticket.job w.service
    (w.workspace.finish fun _ => ran.2).map fun workspace => { w with workspace, service := ran.1 }

/-- The presenters of a database that became active. -/
def attach (number : ℕ) (w : Window Entry Continuation) : Window Entry Continuation :=
  publishBoard { w with
    browser := w.browser.attach.prepareQuery .initialLoad
    search := w.search.attach (env.library.hash env.library.start)
    board := some (.initial env.library)
    readFrom := fun epoch => if epoch = w.browser.epoch + 1 then some number else w.readFrom epoch }

/-- The event loop takes the completion of a request of the workspace. -/
def deliverWorkspace (w : Window Entry Continuation) : Option (Window Entry Continuation) :=
  w.workspace.take.map fun taken =>
    let left := { w with workspace := taken.2 }
    if taken.1.lifetime = w.workspace.lifetime then
      let shown := left.publishWorkspace
      let attached := if taken.1.outcome then
          w.service.db.elim shown fun number => shown.attach env number
        else shown
      { attached with workspace := attached.workspace.release }
    else left

def deliverBrowser (w : Window Entry Continuation) : Option (Window Entry Continuation) :=
  (w.browser.deliver env.browserReads).map fun delivered =>
    handle env delivered.2 { w with browser := delivered.1 }

end Background

end Window

/-- What happens to a window: the callbacks, the threads, the event loop and the timer. -/
inductive WindowAction (Database : Type)
  | requestWorkspace (request : WorkspaceRequest)
  | closeWorkspace
  | dismissError
  | toggleNotation (fault : Option SaveFault)
  | changeFilters (player result : String)
  | requestPage (page : ℕ)
  | sortGames (column : ℕ) (ascending : Bool)
  | selectGame (row : ℕ)
  | moveSelection (delta : ℤ)
  | activateGame
  | resizeColumn (column : ℕ) (width : ℤ)
  | callBoard (call : BoardCall)
  | requestSearch
  | toggleAutoSearch (enabled : Bool)
  | requestSearchPage (page : ℕ)
  | activateMatch (row : ℕ)
  | requestImport (pathEmpty : Bool)
  | cancelImport
  | tick
  | finishWorkspace (world : WorkspaceWorld)
  | deliverWorkspace
  | finishBrowser (database : Database)
  | deliverBrowser
  | finishSearch (once again : Snapshots Database)
  | deliverSearch
  | fetchPipeline
  | advance (progress : ImportProgress)
  | returnResult (result : ImportResult)
  | endThread

/-- A step of the importer's threads. -/
def Window.stepImporter (action : ImportServiceAction) (w : Window Entry Continuation) :
    Option (Window Entry Continuation) :=
  (w.importer.step action).map fun importer => { w with importer }

def Window.step (w : Window Entry Continuation) :
    WindowAction Database → Option (Window Entry Continuation)
  | .requestWorkspace request => some (w.requestWorkspace request)
  | .closeWorkspace => w.closeWorkspace
  | .dismissError => some w.dismissError
  | .toggleNotation fault => some (w.toggleNotation env fault)
  | .changeFilters player result => some (w.changeFilters player result)
  | .requestPage page => some (w.mapBrowser (.prepareQuery (.setPage page)))
  | .sortGames column ascending => some (w.mapBrowser (.prepareQuery (.sortGames column ascending)))
  | .selectGame row => some (w.mapBrowser (.select env.browserReads row))
  | .moveSelection delta => some (w.mapBrowser (.moveSelection env.browserReads delta))
  | .activateGame => some (w.mapBrowser .activate)
  | .resizeColumn column width => some (w.mapBrowser (.resizeColumn column width))
  | .callBoard call => some (w.callBoard env call)
  | .requestSearch => some w.requestSearch
  | .toggleAutoSearch enabled => some (w.toggleAutoSearch enabled)
  | .requestSearchPage page => some (w.requestSearchPage page)
  | .activateMatch row => some (w.activateMatch env row)
  | .requestImport pathEmpty => w.requestImport pathEmpty
  | .cancelImport => some w.cancelImport
  | .tick => w.tick
  | .finishWorkspace world => w.finishWorkspace env world
  | .deliverWorkspace => w.deliverWorkspace env
  | .finishBrowser database =>
    (w.browser.finish env.browserReads database).map fun browser => { w with browser }
  | .deliverBrowser => w.deliverBrowser env
  | .finishSearch once again =>
    (w.search.finish env.searchReads once again w.importer.active).map fun search => { w with search }
  | .deliverSearch => w.search.deliver.map fun search => { w with search }
  | .fetchPipeline => w.stepImporter .fetchPipeline
  | .advance progress => w.stepImporter (.advance progress)
  | .returnResult result => w.stepImporter (.returnResult result)
  | .endThread => w.stepImporter .endThread

end Model

end MotifChess.SlintApp
