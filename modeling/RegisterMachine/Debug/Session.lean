import RegisterMachine.Debug.Breakpoints
import RegisterMachine.Debug.Protocol

/-!
# A debug session

A session stands between the workers of a run and a client. Events go out as they come up, commands
wait in a queue until somebody takes them: the handshake before the run, then whichever worker has
stopped. Nobody else looks at the queue, so a command that is sent while no worker has stopped takes
effect at the next stop and not before.

A client is what it does: its reply to the events so far.
-/

namespace RegisterMachine.Debug

/-- Whether a worker stops only at breakpoints or at each new position. -/
inductive Mode
  | run | step
  deriving DecidableEq, Repr

def Mode.name : Mode → String
  | run => "run"
  | step => "step"

/-- What is remembered of one worker. -/
structure Watch where
  mode : Mode
  /-- The last known position at which each frame of the stack was seen, the bottom frame first. -/
  seen : List (Option SourcePos)
  deriving DecidableEq, Repr

/-- A worker that has not run yet. -/
def Watch.start : Watch := ⟨.run, []⟩

/-- What a client does when it gets an event. -/
structure Reply where
  commands : List Command := []
  /-- It will send no more commands. -/
  stopsSending : Bool := false
  /-- It will take no more events. -/
  stopsListening : Bool := false
  deriving Repr

/-- A client knows the events it has got, the last of them being new. -/
abbrev Client := List Event → Reply

namespace Client

/-- A client that says nothing more. -/
def silent : Client := fun _ => {}

/-- A client that sends one batch of commands at each stop, and hangs up at the first stop for which
there is none. -/
def batches (batches : List (List Command)) : Client := fun events =>
  let isStop : Event → Bool
    | .suspended .. => true
    | _ => false
  match events.getLast? with
  | some last =>
      if isStop last then
        match batches[(events.filter isStop).length - 1]? with
        | some commands => { commands }
        | none => { stopsSending := true, stopsListening := true }
      else {}
  | none => {}

end Client

/-- An event, and how many lines the run had printed by then. -/
structure Report where
  event : Event
  printed : Nat
  deriving DecidableEq, Repr

structure Session where
  breakpoints : Breakpoints
  /-- The commands that nobody has taken, the next one first. -/
  queue : List Command
  /-- Whether the client may still send commands. -/
  sending : Bool
  /-- Whether the client still takes events. -/
  listening : Bool
  /-- The events the client has got, the first one first. -/
  reports : List Report
  /-- Whether the client was found to be gone. -/
  detached : Bool
  /-- How long the handshake waits, in milliseconds. -/
  timeout : Nat
  deriving Repr

/-- What can go wrong before a debugged run begins. -/
inductive SessionError
  | handshakeTimeout (seconds : Nat)
  | clientDisconnected
  | invalidBreakpoint (text : String)
  deriving DecidableEq, Repr

def SessionError.message : SessionError → String
  | handshakeTimeout seconds =>
      "debug client did not start the session within " ++ toString seconds ++ "s"
  | clientDisconnected => "debug client disconnected"
  | invalidBreakpoint text =>
      "invalid breakpoint '" ++ text ++ "', expected <source>:<line>"

/-- Reads a breakpoint. -/
def readBreakpoint (text : String) : Except SessionError SourcePos :=
  match SourcePos.ofText? text with
  | some p => .ok p
  | none => .error (.invalidBreakpoint text)

namespace Session

def start (timeout : Nat) : Session where
  breakpoints := .empty
  queue := []
  sending := true
  listening := true
  reports := []
  detached := false
  timeout := timeout

/-- Sends a command, unless the client may no longer do so. -/
def send (s : Session) (c : Command) : Session :=
  if s.sending then { s with queue := s.queue ++ [c] } else s

/-- What a client's reply does. -/
def hear (s : Session) (r : Reply) : Session :=
  let s := r.commands.foldl send s
  { s with
    sending := s.sending && !r.stopsSending
    listening := s.listening && !r.stopsListening }

/-- Sends an event to the client, which replies, and tells whether the client got it. -/
def emit (client : Client) (printed : Nat) (s : Session) (e : Event) : Session × Bool :=
  if s.listening then
    let s := { s with reports := s.reports ++ [({ event := e, printed } : Report)] }
    (s.hear (client (s.reports.map Report.event)), true)
  else (s, false)

/-- Goes on without the client. The breakpoints go when the client is first found to be gone; those
that are set later stay. -/
def detach (s : Session) : Session :=
  if s.detached then s else { s with detached := true, breakpoints := .empty }

/-! ## The handshake -/

/-- Takes commands up to the first `start`: the breakpoints they leave, the commands after it, and
whether there was one. -/
def awaitStart : Breakpoints → List Command → Breakpoints × List Command × Bool
  | b, [] => (b, [], false)
  | b, .start :: rest => (b, rest, true)
  | _, .setBreakpoints all :: rest => awaitStart (.ofList all) rest
  | b, .resume :: rest => awaitStart b rest
  | b, .step :: rest => awaitStart b rest

/-- Where the handshake stands when the queue has been read. -/
inductive Handshake
  | started
  | disconnected
  /-- The client has not said so far that the run may begin. -/
  | waiting
  deriving DecidableEq, Repr

/-- Says that the run is ready and reads the queue for the word to begin. -/
def handshake (client : Client) (printed : Nat) (s : Session) : Session × Handshake :=
  let (s, got) := s.emit client printed .ready
  if got then
    let (breakpoints, queue, started) := awaitStart s.breakpoints s.queue
    let s := { s with breakpoints, queue }
    (s, if started then .started else if s.sending then .waiting else .disconnected)
  else (s, .disconnected)

/-- The error after the handshake has waited in vain. -/
def timeoutError (s : Session) : SessionError := .handshakeTimeout (s.timeout / 1000)

/-! ## Stopping -/

/-- The first `depth` entries, with nothing known for those that are missing. -/
def resized (seen : List (Option SourcePos)) (depth : Nat) : List (Option SourcePos) :=
  seen.take depth ++ List.replicate (depth - seen.length) none

/-- Whether a worker must stop before the instruction at `pos`, in a stack of `depth` frames. It can
stop only where a frame gets to a new position, so that coming back from a call to the line of the
call does not stop it again. -/
def shouldSuspend (s : Session) (w : Watch) (depth : Nat) (pos : Option SourcePos) :
    Watch × Option Reason :=
  if s.detached || depth == 0 then (w, none)
  else
    let seen := resized w.seen depth
    match pos with
    | none => ({ w with seen }, none)
    | some p =>
        if seen[depth - 1]? == some (some p) then ({ w with seen }, none)
        else
          let w := { w with seen := seen.set (depth - 1) (some p) }
          match w.mode with
          | .step => (w, some .step)
          | .run => (w, if s.breakpoints.contains p then some .breakpoint else none)

/-- Takes commands up to the first that lets a worker go on: the breakpoints they leave, the
commands after it, and how the worker goes on. -/
def awaitRelease : Breakpoints → List Command → Breakpoints × List Command × Option Mode
  | b, [] => (b, [], none)
  | b, .resume :: rest => (b, rest, some .run)
  | b, .step :: rest => (b, rest, some .step)
  | _, .setBreakpoints all :: rest => awaitRelease (.ofList all) rest
  | b, .start :: rest => awaitRelease b rest

/-- Stops a worker and reads the queue for the word to go on. Without a client the worker goes on by
itself; the result says whether it goes on. -/
def suspend (client : Client) (printed : Nat) (s : Session) (w : Watch) (worker : UInt64)
    (workerName : String) (position : SourcePos) (reason : Reason) (frames : List TraceEntry) :
    Session × Watch × Bool :=
  let (s, got) := s.emit client printed (.suspended worker workerName position reason frames)
  if got then
    let (breakpoints, queue, mode) := awaitRelease s.breakpoints s.queue
    let s := { s with breakpoints, queue }
    match mode with
    | some mode => (s, { w with mode }, true)
    | none => if s.sending then (s, w, false) else (s.detach, w, true)
  else (s.detach, w, true)

/-- Says that the run has ended, if the client still listens. -/
def notifyExit (client : Client) (printed : Nat) (s : Session) (status : Int32) : Session :=
  (s.emit client printed (.exit status)).1

end Session

end RegisterMachine.Debug
