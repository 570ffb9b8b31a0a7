import RegisterMachine.Frame.Basic
import RegisterMachine.Native.Basic
import RegisterMachine.Value.Liveness

/-!
# The state of a run

A run has one store that all its workers share, the scheduler's books, and the workers that have
been started and wait for their turn. A worker has a stack of frames of its own. Nothing else is
shared: what a worker does reaches another only through the store.
-/

namespace RegisterMachine

/-- What a run is given and never changes. -/
structure Environment where
  program : Program
  natives : Natives
  /-- How many frames a stack may have for a call still to be made. -/
  maxDepth : Nat

/-- How far a worker is. One that has stopped for a session is running: that it has stopped is in the
session's notes (`Debug.Stand`) and in no state of its own, since a worker is asked only whether it has
ended. -/
inductive Progress
  | running
  | returned (values : List Value)
  | faulted (fault : Fault)
  deriving Repr

namespace Progress

def isFinal : Progress → Bool
  | running => false
  | returned _ => true
  | faulted _ => true

/-- How a worker ended. One that has not ended has no values. -/
def outcome : Progress → Outcome
  | running => .ok []
  | returned values => .ok values
  | faulted fault => .error fault

end Progress

structure Worker where
  info : WorkerInstance
  stack : CallStack
  progress : Progress
  deriving Repr

/-- A worker about to run its first instruction. -/
def Worker.start (info : WorkerInstance) (frame : Frame) : Worker :=
  { info, stack := [frame], progress := .running }

/-- The collections that a stack's registers hold. -/
def CallStack.held (stack : CallStack) : List Ref := stack.flatMap fun f => f.regs.held

structure World where
  store : Store
  scheduler : Scheduler
  /-- The workers that wait for their turn, the next one first. -/
  waiting : List Worker
  /-- Values that whoever started the run holds on to. -/
  kept : List Value

namespace World

def start (store : Store) (kept : List Value) : World :=
  { store, scheduler := .start, waiting := [], kept }

/-- The collections that are held while a worker has a given stack. -/
def roots (w : World) (stack : CallStack) : List Ref :=
  stack.held ++ w.waiting.flatMap (fun worker => worker.stack.held) ++
    w.kept.filterMap Value.ref?

/-- Whether an object is held. -/
def isHeld (w : World) (stack : CallStack) (r : Ref) : Bool :=
  w.store.heap.isHeld (w.roots stack) r

/-- Holds on to some more values. -/
def hold (w : World) (values : List Value) : World := { w with kept := values ++ w.kept }

/-- Counts a worker out. -/
def complete (w : World) (info : WorkerInstance) (outcome : Outcome) : World :=
  { w with scheduler := w.scheduler.complete info.id outcome }

/-- Counts a worker in and lets it wait for its turn. -/
def enqueue (w : World) (functionName : String) (frame : Frame) : World :=
  let (scheduler, info) := w.scheduler.register frame.function functionName frame.worker
  { w with scheduler, waiting := w.waiting ++ [.start info frame] }

/-- Starts the named workers of a function on the same arguments. All their frames are made
before any of them is counted in. -/
def spawn (w : World) (id : FunctionId) (info : FunctionInfo) (args : List (Bank × Value)) :
    Except ExecutionError World := do
  let frames ← info.workers.mapM fun worker => (Frame.start id worker).bind w.store.heap args
  .ok (frames.foldl (fun w frame => w.enqueue info.name frame) w)

end World

end RegisterMachine
