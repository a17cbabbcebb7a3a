/- GID: MotifChess/Http/ImportSessions
   generality: implementation
   digest: The locked sections of import requests, their workers, and the pruning of sessions. -/

import MotifChess.System.Run
import Mathlib.Data.Nat.Notation

/-! One action is one section under `sessions_mutex`, or one stretch of a handler or a worker that
takes no lock.  A request is numbered by its first section and its session bears that number; the
map of the sessions is listed in the order of their creation. -/

set_option autoImplicit false
set_option relaxedAutoImplicit false

namespace MotifChess.Http.Imports

section Model

def maxCompletedSessions : ℕ := 64

structure ImportSession where
  importId : ℕ
  request : ℕ
  done : Bool
  deriving DecidableEq

/-- How far a request has come; `launched` has started its worker and not registered it yet. -/
inductive Phase
  | absent
  | refused
  | reserved (importId : ℕ)
  | failed
  | launched (importId : ℕ)
  | registered
  deriving DecidableEq

/-- The members of the server, the phase of every request, and which workers were ever started and
how often each was joined. -/
structure Server where
  sessions : List ImportSession
  importWorkers : List (ℕ × ℕ)
  completedSessionIds : List ℕ
  requests : ℕ
  phase : ℕ → Phase
  started : List ℕ
  joins : ℕ → ℕ
  stopping : Bool

inductive Action
  | post (importId : ℕ)
  | abandon (request : ℕ)
  | startWorker (request : ℕ)
  | registerWorker (request : ℕ)
  | finish (request : ℕ)
  | cancel (importId : ℕ)
  | stop
  | joinWorker
  deriving DecidableEq

namespace Server

def init : Server := ⟨[], [], [], 0, fun _ => .absent, [], fun _ => 0, false⟩

def setPhase (s : Server) (request : ℕ) (phase : Phase) : Server :=
  { s with phase := fun r => if r = request then phase else s.phase r }

def isDone (s : Server) (importId : ℕ) : Bool :=
  match s.sessions.find? fun x => decide (x.importId = importId) with
  | some x => x.done
  | none => false

/-- The workers of completed sessions, which pruning joins. -/
def finishedWorkers (s : Server) : List (ℕ × ℕ) := s.importWorkers.filter fun w => s.isDone w.1

/-- The completed sessions that pruning knows of, in the order in which it found them. -/
def completedIds (s : Server) : List ℕ := s.completedSessionIds ++ s.finishedWorkers.map Prod.fst

/-- How many completed sessions pruning evicts. -/
def excess (s : Server) : ℕ := s.completedIds.length - maxCompletedSessions

def pruneCompleted (s : Server) : Server :=
  { s with
    importWorkers := s.importWorkers.filter fun w => !s.isDone w.1
    joins := fun r => s.joins r + (s.finishedWorkers.map Prod.snd).count r
    completedSessionIds := s.completedIds.drop s.excess
    sessions := s.sessions.filter fun x => decide (x.importId ∉ s.completedIds.take s.excess) }

/-- The first section of both handlers: prune, refuse while an import runs, or reserve the slot.  An
id that is in use is generated again. -/
def reserve (s : Server) (importId : ℕ) : Option Server :=
  if s.sessions.any fun x => !x.done then
    some { s.setPhase s.requests .refused with requests := s.requests + 1 }
  else if importId ∈ s.sessions.map ImportSession.importId then none
  else some { s.setPhase s.requests (.reserved importId) with
    sessions := s.sessions ++ [⟨importId, s.requests, false⟩]
    requests := s.requests + 1 }

/-- The upload's file or the thread could not be made: the session is erased again. -/
def abandon (s : Server) (request : ℕ) : Option Server :=
  match s.phase request with
  | .reserved importId => some { s.setPhase request .failed with
      sessions := s.sessions.filter fun x => decide (x.importId ≠ importId) }
  | _ => none

def startWorker (s : Server) (request : ℕ) : Option Server :=
  match s.phase request with
  | .reserved importId =>
    some { s.setPhase request (.launched importId) with started := s.started ++ [request] }
  | _ => none

def registerWorker (s : Server) (request : ℕ) : Option Server :=
  match s.phase request with
  | .launched importId => some { s.setPhase request .registered with
      importWorkers := s.importWorkers ++ [(importId, request)] }
  | _ => none

/-- The worker of a request ends its run and marks its session. -/
def finish (s : Server) (request : ℕ) : Option Server :=
  if request ∈ s.started ∧ ⟨request, false⟩ ∈ s.sessions.map fun x => (x.request, x.done) then
    some { s with sessions := s.sessions.map fun x =>
      if x.request = request then { x with done := true } else x }
  else none

/-- The listening thread returns only after the handlers have. -/
def stop (s : Server) : Option Server :=
  if (List.range s.requests).all fun r => match s.phase r with
    | .reserved _ | .launched _ => false
    | _ => true
  then some { s with stopping := true } else none

/-- The destructor of the server joins what is left. -/
def joinWorker (s : Server) : Option Server :=
  match s.importWorkers with
  | (importId, request) :: rest =>
    if s.stopping ∧ s.isDone importId then
      some { s with
        importWorkers := rest
        joins := fun r => s.joins r + [request].count r }
    else none
  | [] => none

/-- One locked section or one event of a worker. -/
def step (s : Server) : Action → Option Server
  -- A worker that finishes between the pruning and the check leaves the state that it leaves when it
  -- is registered after the check, so the section may be one step.
  | .post importId => if s.stopping then none else s.pruneCompleted.reserve importId
  | .abandon request => s.abandon request
  | .startWorker request => s.startWorker request
  | .registerWorker request => s.registerWorker request
  | .finish request => s.finish request
  | .cancel _ => some s
  | .stop => s.stop
  | .joinWorker => s.joinWorker

end Server

end Model

end MotifChess.Http.Imports
