import RegisterMachine.Fault

/-!
# The scheduler's books

Which workers of a run are at work and which have failed. Workers are counted in when they start
and out when they end; a second end of the same worker, or the end of one that never started,
changes nothing. Waiting for all of them can end only when none is left.
-/

namespace RegisterMachine

/-- One worker of a run. -/
structure WorkerInstance where
  id : Nat
  function : FunctionId
  functionName : String
  workerName : String
  deriving DecidableEq, Repr

/-- How a worker ended: with values, or in a fault. -/
abbrev Outcome := Except Fault (List Value)

/-- The values that a worker ended with. -/
def Outcome.values : Outcome → List Value
  | .ok values => values
  | .error _ => []

/-- A worker that ended in a fault. -/
structure WorkerFailure where
  worker : WorkerInstance
  fault : Fault
  deriving DecidableEq, Repr

def WorkerFailure.render (f : WorkerFailure) : String :=
  "worker '" ++ f.worker.workerName ++ "' of " ++ f.worker.functionName ++ " failed: " ++
    f.fault.render

structure Scheduler where
  /-- The id of the next worker. -/
  nextId : Nat
  /-- The workers at work, in the order in which they started. -/
  live : List WorkerInstance
  /-- How many workers are at work. -/
  inFlight : Nat
  /-- The workers that failed, in the order in which they ended. -/
  failures : List WorkerFailure
  deriving Repr

namespace Scheduler

def start : Scheduler where
  nextId := 1
  live := []
  inFlight := 0
  failures := []

instance : Inhabited Scheduler := ⟨start⟩

/-- Counts a worker in. -/
def register (s : Scheduler) (function : FunctionId) (functionName workerName : String) :
    Scheduler × WorkerInstance :=
  let worker : WorkerInstance := { id := s.nextId, function, functionName, workerName }
  ({ s with nextId := s.nextId + 1, live := s.live ++ [worker], inFlight := s.inFlight + 1 },
    worker)

/-- Counts a worker out, and notes its fault if it had one. -/
def complete (s : Scheduler) (id : Nat) (outcome : Outcome) : Scheduler :=
  match s.live.find? fun w => w.id == id with
  | none => s
  | some worker =>
      let failures := match outcome with
        | .ok _ => s.failures
        | .error fault => s.failures ++ [⟨worker, fault⟩]
      { s with
        live := s.live.filter fun w => w.id != id
        inFlight := s.inFlight - 1
        failures }

/-- What waiting for all workers comes to: nothing yet while one is at work, then the failures, if
there were any. -/
def join? (s : Scheduler) : Option (Except (List WorkerFailure) Unit) :=
  if s.inFlight = 0 then
    some (if s.failures.isEmpty then .ok () else .error s.failures)
  else
    none

end Scheduler

end RegisterMachine
