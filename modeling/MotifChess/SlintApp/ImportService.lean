/- GID: MotifChess/SlintApp/ImportService
   generality: implementation
   digest: The import service: one import at a time on a thread of its own, which can be canceled. -/

import MotifChess.Import.ImportPipeline
import MotifChess.System.Run

set_option autoImplicit false
set_option relaxedAutoImplicit false

namespace MotifChess.SlintApp

open MotifChess.Import MotifChess.System

section Model

inductive ImportErrorCode
  | invalidArgument
  | noDatabase
  | busy
  deriving DecidableEq

inductive ImportState
  | idle
  | running
  | canceling
  | completed
  | canceled
  | failed
  deriving DecidableEq

inductive ImportPhase
  | idle
  | ingesting
  | deduplicating
  | rebuilding
  deriving DecidableEq

structure ImportProgress where
  gamesProcessed : ℕ := 0
  gamesCommitted : ℕ := 0
  gamesSkipped : ℕ := 0
  errors : ℕ := 0
  totalGames : ℕ := 0
  phase : ImportPhase := .idle
  deriving DecidableEq

structure ImportSnapshot where
  state : ImportState := .idle
  phase : ImportPhase := .idle
  processed : ℕ := 0
  committed : ℕ := 0
  skipped : ℕ := 0
  errors : ℕ := 0
  total : ℕ := 0
  errorMessage : String := ""
  deriving DecidableEq

/-- An error of a pipeline with the text that came with it. -/
structure ImportError where
  code : ErrorCode
  message : String
  deriving DecidableEq

abbrev ImportResult := Except ImportError ImportSummary

/-- What the service and its thread share of a pipeline: the stop flag and the counters. -/
structure SharedPipeline where
  number : ℕ
  stopRequested : Bool := false
  progress : ImportProgress := {}
  deriving DecidableEq

/-- How far a start has come that holds the start mutex. -/
inductive StartPhase
  | free
  | checked
  | joined
  | prepared
  deriving DecidableEq

/-- How far the thread of an import has come, with the pointer to its pipeline. -/
inductive ImportThread
  | absent
  | fresh
  | running (pipeline : Option ℕ)
  | returned (progress : ImportProgress) (result : ImportResult)
  | ended
  deriving DecidableEq

/-- The members of the service, how far its threads have come, and the result of the last pipeline. -/
structure ImportService where
  pipeline : Option SharedPipeline := none
  thread : ImportThread := .absent
  snapshot : ImportSnapshot := {}
  cancelRequested : Bool := false
  starting : StartPhase := .free
  pipelines : ℕ := 0
  last : Option ImportResult := none
  deriving DecidableEq

namespace ImportState

/-- Whether an import runs or is being canceled. -/
def active : ImportState → Bool
  | .running => true
  | .canceling => true
  | _ => false

end ImportState

def ErrorCode.text : ErrorCode → String
  | .ioFailure => "io_failure"
  | .invalidState => "invalid_state"
  | .eof => "eof"
  | .parseError => "parse_error"
  | .duplicate => "duplicate"
  | .notFound => "not_found"
  | .emptyGame => "empty_game"

def ImportError.shown (error : ImportError) : String :=
  if error.message = "" then ErrorCode.text error.code else error.message

/-- A snapshot with the counters of a pipeline. -/
def ImportSnapshot.counting (progress : ImportProgress) (snapshot : ImportSnapshot) :
    ImportSnapshot :=
  { snapshot with
    phase := progress.phase
    processed := progress.gamesProcessed
    committed := progress.gamesCommitted
    skipped := progress.gamesSkipped
    errors := progress.errors
    total := progress.totalGames }

namespace ImportService

def active (s : ImportService) : Bool := s.snapshot.state.active

/-- `snapshot`: the counters of a pipeline at work are its own. -/
def current (s : ImportService) : ImportSnapshot :=
  s.pipeline.elim s.snapshot fun pipeline => s.snapshot.counting pipeline.progress

section Start

/-- The checks of `start` that come before its mutex. -/
def refusal (hasDatabase pathEmpty : Bool) : Option ImportErrorCode :=
  if !hasDatabase then some .noDatabase else if pathEmpty then some .invalidArgument else none

/-- A start takes its mutex, and ends again if an import is active. -/
def checkStart (s : ImportService) : Option ImportService :=
  if s.starting = .free then some (if s.active then s else { s with starting := .checked }) else none

/-- A start waits for the end of the last thread. -/
def joinThread (s : ImportService) : Option ImportService :=
  match s.starting, s.thread with
  | .checked, .absent => some { s with starting := .joined }
  | .checked, .ended => some { s with starting := .joined, thread := .absent }
  | _, _ => none

/-- A start sets up a new pipeline. -/
def prepareStart (s : ImportService) : Option ImportService :=
  if s.starting = .joined then
    some { s with
      starting := .prepared
      pipeline := some { number := s.pipelines }
      pipelines := s.pipelines + 1
      snapshot := { state := .running }
      cancelRequested := false }
  else none

/-- A start runs the thread and lets go of its mutex. -/
def spawnThread (s : ImportService) : Option ImportService :=
  if s.starting = .prepared then some { s with starting := .free, thread := .fresh } else none

/-- `start`, when nothing comes in between. -/
def start (hasDatabase pathEmpty : Bool) (s : ImportService) :
    Option (ImportService × Except ImportErrorCode Unit) :=
  match refusal hasDatabase pathEmpty with
  | some code => some (s, .error code)
  | none =>
    if s.active then s.checkStart.map fun t => (t, .error .busy)
    else (((s.checkStart.bind joinThread).bind prepareStart).bind spawnThread).map fun t => (t, .ok ())

end Start

def requestCancel (s : ImportService) : ImportService :=
  if s.active then
    { s with
      cancelRequested := true
      snapshot := { s.snapshot with state := .canceling }
      pipeline := s.pipeline.map fun pipeline => { pipeline with stopRequested := true } }
  else s

section Thread

/-- The thread fetches the pointer to its pipeline. -/
def fetchPipeline (s : ImportService) : Option ImportService :=
  if s.thread = .fresh then
    some { s with thread := .running (s.pipeline.map SharedPipeline.number) }
  else none

/-- The pipeline that the thread points to, as long as it exists. -/
def threadPipeline (s : ImportService) : Option SharedPipeline :=
  match s.thread with
  | .running number => s.pipeline.filter fun pipeline => some pipeline.number = number
  | _ => none

/-- The pipeline counts. -/
def advance (progress : ImportProgress) (s : ImportService) : Option ImportService :=
  s.threadPipeline.map fun pipeline => { s with pipeline := some { pipeline with progress } }

/-- The pipeline returns, and the thread reads its counters. -/
def returnResult (result : ImportResult) (s : ImportService) : Option ImportService :=
  s.threadPipeline.map fun pipeline => { s with thread := .returned pipeline.progress result }

/-- The snapshot of an import that ended with a result. -/
def finalSnapshot (progress : ImportProgress) (result : ImportResult) (cancelRequested : Bool)
    (snapshot : ImportSnapshot) : ImportSnapshot :=
  match result with
  | .ok summary => { snapshot.counting progress with
      phase := .idle
      committed := summary.committed
      skipped := summary.skipped
      errors := summary.errors
      state := if cancelRequested then .canceled else .completed }
  | .error e => { snapshot.counting progress with state := .failed, errorMessage := e.shown }

/-- The thread publishes the result and ends. -/
def endThread (s : ImportService) : Option ImportService :=
  match s.thread with
  | .returned progress result =>
    some { s with
      snapshot := finalSnapshot progress result s.cancelRequested s.snapshot
      pipeline := none
      thread := .ended
      last := some result }
  | _ => none

end Thread

end ImportService

/-- The locked sections of the service, and what its pipelines do. -/
inductive ImportServiceAction
  | checkStart
  | joinThread
  | prepareStart
  | spawnThread
  | requestCancel
  | fetchPipeline
  | advance (progress : ImportProgress)
  | returnResult (result : ImportResult)
  | endThread

def ImportService.step (s : ImportService) : ImportServiceAction → Option ImportService
  | .checkStart => s.checkStart
  | .joinThread => s.joinThread
  | .prepareStart => s.prepareStart
  | .spawnThread => s.spawnThread
  | .requestCancel => some s.requestCancel
  | .fetchPipeline => s.fetchPipeline
  | .advance progress => s.advance progress
  | .returnResult result => s.returnResult result
  | .endThread => s.endThread

end Model

end MotifChess.SlintApp
