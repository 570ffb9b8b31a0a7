import RegisterMachine.Machine.Run

/-!
# Debugged runs

A session watches a run as its observer: before each step the worker may have to stop. The run
begins when the handshake has succeeded, and its end is the last event.
-/

namespace RegisterMachine.Debug

/-- The frames of a worker that stops at `position`. The innermost has not moved past the instruction
it is at. -/
def stopFrames (p : Program) (stack : CallStack) (position : SourcePos) : List TraceEntry :=
  match stack.trace p with
  | [] => []
  | top :: rest => { top with position := some position } :: rest

/-- Shows a session a worker that is about to take a step. -/
def gate (p : Program) (client : Client) (s : Session) (w : Watch) (world : World)
    (worker : Worker) : Option (Session × Watch) :=
  match worker.stack with
  | [] => some (s, w)
  | frame :: _ =>
      let (w, reason) := s.shouldSuspend w worker.stack.length (p.position? frame.ip)
      match reason, p.position? frame.ip with
      | some reason, some position =>
          let (s, w, released) :=
            s.suspend client world.store.output.size w (.ofNat worker.info.id)
              worker.info.workerName position reason (stopFrames p worker.stack position)
          if released then some (s, w) else none
      | _, _ => some (s, w)

/-- A session as the observer of a run. -/
def observer (p : Program) (client : Client) : Observer Session Watch := ⟨.start, gate p client⟩

/-- Runs the program under a session. -/
def runMain (env : Environment) (limit : Nat) (client : Client) (s : Session) (store : Store)
    (args : List String) : Option (Session × Store × Except RunError (List Value)) :=
  match env.program.mainFunction? with
  | none => some (s, store, .error (.mainNotFound env.program.entryPackage))
  | some (id, info) =>
      let (s, handshake) := s.handshake client store.output.size
      match handshake with
      | .disconnected => some (s, store, .error (.session .clientDisconnected))
      | .waiting => some (s, store, .error (.session s.timeoutError))
      | .started => do
          let (run, result) ←
            env.runPackages (observer env.program client) limit ⟨s, .start store []⟩ id info args
          let status : Int32 := match result with
            | .ok _ => 0
            | .error _ => 1
          let s := run.seen.notifyExit client run.world.store.output.size status
          some (s, run.world.store, result)

end RegisterMachine.Debug
