/- GID: MotifChess/Engine/EngineManager
   generality: implementation
   digest: The locked sections of an analysis session: reader, start, subscribe and stop. -/

import MotifChess.System.Run

/-! One action is one section that no other thread can interrupt: a section under `callback_mutex` or
under the manager's mutex, one store of the flag, or one call of a callback.  An info event is the
value that `map_info` builds, of any type; the callbacks record what they are called with. -/

set_option autoImplicit false
set_option relaxedAutoImplicit false

namespace MotifChess.Engine

universe u

section Events

structure BestMove where
  move : String
  ponder : Option String
  deriving DecidableEq

structure CompleteEvent where
  bestMoveUci : String
  ponderUci : Option String
  deriving DecidableEq

structure ErrorEvent where
  message : String
  deriving DecidableEq

/-- The last thing an engine reports: its best move, or the message of the error that ended it. -/
inductive Terminal
  | bestmove (best : BestMove)
  | error (message : String)
  deriving DecidableEq

/-- What one of the subscriber's callbacks is called with. -/
inductive Event (ι : Type u)
  | info (event : ι)
  | complete (event : CompleteEvent)
  | error (event : ErrorEvent)
  deriving DecidableEq

def completeEvent (best : BestMove) : CompleteEvent := ⟨best.move, best.ponder⟩

def errorEvent (message : String) : ErrorEvent := ⟨"engine crashed: " ++ message⟩

def Terminal.event {ι : Type u} : Terminal → Event ι
  | bestmove best => .complete (completeEvent best)
  | error message => .error (errorEvent message)

end Events

section State

/-- A session; the three callbacks are set together, so that one flag says whether they are. -/
structure Session (ι : Type u) where
  terminal : Bool
  subscribed : Bool
  lastComplete : Option CompleteEvent
  infoHistory : List ι
  deriving DecidableEq

/-- Between two reports, after the flag was stored for a best move, or about to call a callback. -/
inductive Reader (ι : Type u)
  | waiting
  | flagged (event : CompleteEvent)
  | calling (event : Event ι)
  deriving DecidableEq

/-- How far `start_analysis` has come after it registered the reader's callbacks. -/
inductive StartPhase
  | launched
  | inserted
  | started
  | failed
  deriving DecidableEq

/-- The session with what its threads hold on their stacks, and what the engine has yet to report. -/
structure State (ι : Type u) where
  start : StartPhase
  session : Session ι
  reader : Reader ι
  infosToReport : List ι
  lastToReport : Option Terminal
  /-- What `subscribe` copied and has not replayed yet. -/
  replay : Option (List ι × Option CompleteEvent)
  /-- `stop_analysis` has passed its check and holds the manager's mutex. -/
  stopping : Bool
  received : List (Event ι)
  deriving DecidableEq

inductive Action
  | insert
  | go (succeeded : Bool)
  | report
  | storeComplete
  | call
  | subscribe
  | replayNext
  | stopAnalysis
  | engineStop (succeeded : Bool)
  deriving DecidableEq

end State

section Step

variable {ι : Type u}

def State.init (infos : List ι) (last : Terminal) : State ι :=
  ⟨.launched, ⟨false, false, none, []⟩, .waiting, infos, some last, none, false, []⟩

/-- The callback is copied under the lock: with no subscriber there is nothing to call. -/
def State.callback (s : State ι) (event : Event ι) : Reader ι :=
  if s.session.subscribed then .calling event else .waiting

/-- `on_info`. -/
def State.onInfo (s : State ι) (event : ι) : State ι :=
  { s with
    session := { s.session with infoHistory := s.session.infoHistory ++ [event] }
    reader := s.callback (.info event) }

/-- The first statement of `on_bestmove`; the flag is stored outside the lock. -/
def State.onBestmove (s : State ι) (best : BestMove) : State ι :=
  { s with
    session := { s.session with terminal := true }
    reader := .flagged (completeEvent best) }

/-- `on_error`: the callback is copied only by the one that raises the flag. -/
def State.onError (s : State ι) (message : String) : State ι :=
  if s.session.terminal then s
  else { s with
    session := { s.session with terminal := true }
    reader := s.callback (.error (errorEvent message)) }

/-- The reader thread takes the next report of the engine. -/
def State.report (s : State ι) : Option (State ι) :=
  match s.reader, s.infosToReport, s.lastToReport with
  | .waiting, event :: rest, _ => some ({ s with infosToReport := rest }.onInfo event)
  | .waiting, [], some (.bestmove best) => some ({ s with lastToReport := none }.onBestmove best)
  | .waiting, [], some (.error message) => some ({ s with lastToReport := none }.onError message)
  | _, _, _ => none

/-- The locked section of `on_bestmove`. -/
def State.storeComplete (s : State ι) : Option (State ι) :=
  match s.reader with
  | .flagged event => some { s with
      session := { s.session with lastComplete := some event }
      reader := s.callback (.complete event) }
  | _ => none

/-- The reader thread calls the callback that it copied. -/
def State.call (s : State ι) : Option (State ι) :=
  match s.reader with
  | .calling event => some { s with reader := .waiting, received := s.received ++ [event] }
  | _ => none

/-- The locked section of `subscribe`, which waits for a `stop_analysis` that holds the mutex. -/
def State.subscribe (s : State ι) : Option (State ι) :=
  if s.start = .started ∧ s.stopping = false ∧ s.replay = none then
    some { s with
      session := { s.session with subscribed := true }
      replay := some (s.session.infoHistory, s.session.lastComplete) }
  else none

/-- `subscribe` replays what it copied, after it has released the locks. -/
def State.replayNext (s : State ι) : Option (State ι) :=
  match s.replay with
  | some (event :: rest, complete) => some { s with
      replay := some (rest, complete)
      received := s.received ++ [.info event] }
  | some ([], some event) => some { s with
      replay := some ([], none)
      received := s.received ++ [.complete event] }
  | _ => none

/-- The check of `stop_analysis`; on a terminal session it returns an error and nothing happens. -/
def State.stopAnalysis (s : State ι) : Option (State ι) :=
  if s.start = .started ∧ s.stopping = false then
    some { s with stopping := !s.session.terminal }
  else none

/-- `stop_analysis` sends the command and, if that succeeded, raises the flag. -/
def State.engineStop (s : State ι) (succeeded : Bool) : Option (State ι) :=
  if s.stopping then
    some { s with
      session := { s.session with terminal := s.session.terminal || succeeded }
      stopping := false }
  else none

/-- One section of one thread.  A session whose `go` failed is erased, and takes no further step. -/
def step (s : State ι) (a : Action) : Option (State ι) :=
  if s.start = .failed then none
  else match a with
    | .insert => if s.start = .launched then some { s with start := .inserted } else none
    | .go succeeded =>
      if s.start = .inserted then some { s with start := if succeeded then .started else .failed }
      else none
    | .report => s.report
    | .storeComplete => s.storeComplete
    | .call => s.call
    | .subscribe => s.subscribe
    | .replayNext => s.replayNext
    | .stopAnalysis => s.stopAnalysis
    | .engineStop succeeded => s.engineStop succeeded

end Step

end MotifChess.Engine
