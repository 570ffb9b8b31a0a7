import Mathlib.Logic.Function.Basic
import RegisterMachine.Proofs.Debug.Gate
import RegisterMachine.Proofs.Machine.Launching

/-!
# A debugged run, move by move

`Debug.runMain` runs one worker at a time and reads the queue of commands in one go. Between a program
and its client that is one order of things among many: any worker may be next, several of them may have
stopped at the same time and compete for the commands, and the client may send something or go away at
any moment. `Debuggee` is a debugged run as it stands, and `Debuggee.Does` has one move for each thing
that can happen next. Whoever decides what it is, is left open.

A worker at a boundary is first looked at. Then it may take its step, or it has to stop: it says so,
waits until it is its turn to read commands, and reads them until one lets it go on
(`Debuggee.Attends`). These moves are the session's business and have no part in what the program does;
all others are the program's.

Workers are known by their ids. Nothing in here says that nobody is at work any more when the last event
is sent: a worker that waits can make its moves whatever the run as a whole has come to.
-/

namespace RegisterMachine

namespace Debug

/-! ## The session's side -/

namespace Session

/-- Sends an event. -/
def tell (s : Session) (printed : Nat) (e : Event) : Session :=
  if s.listening then { s with reports := s.reports ++ [{ event := e, printed }] } else s

/-- Takes the next command; breakpoints that it has are set. -/
def take? (s : Session) : Option (Command × Session) :=
  match s.queue with
  | [] => none
  | .setBreakpoints all :: rest =>
      some (.setBreakpoints all, { s with breakpoints := .ofList all, queue := rest })
  | c :: rest => some (c, { s with queue := rest })

/-- The events that the client has got. -/
def events (s : Session) : List Event := s.reports.map Report.event

end Session

/-- How a worker goes on when it has read a command, if it does. -/
def Command.mode? : Command → Option Mode
  | resume => some .run
  | step => some .step
  | _ => none

/-- Where a worker stands at a boundary. -/
inductive Stand
  /-- The session has not looked at it yet. -/
  | due
  /-- It has to stop and has not said so. -/
  | stopping (position : SourcePos) (reason : Reason)
  | stopped
  /-- It may take its step. -/
  | cleared
  deriving DecidableEq

/-- What a session keeps about a worker. -/
structure Note where
  watch : Watch
  stand : Stand

def Note.fresh : Note := ⟨.start, .due⟩

/-! ## The run's side -/

/-- How far a run of a program is. -/
inductive Control
  | opening
  | handshake
  /-- The init functions of these packages are to be run, and then main. -/
  | between (todo : List PackageInfo)
  /-- A function is being run: that of a package, with the packages after it, or main. -/
  | running (after : Option (List PackageInfo))
  /-- The result is there, and the client does not know. -/
  | closing (result : Except RunError (List Value))
  | finished (result : Except RunError (List Value))

structure Debuggee where
  session : Session
  /-- The function that is being run, or was last. -/
  inv : Invocation
  /-- What is kept about the worker of an id. -/
  notes : Nat → Note
  /-- The id of the worker whose turn it is to read commands. -/
  reader : Option Nat
  control : Control

/-- What happens in a debugged run. -/
inductive Happening
  /-- The client sends commands or goes away. -/
  | heard (r : Reply)
  /-- An event is sent, by a worker that stops or by the run as a whole. The client may be gone and
  not get it. -/
  | said (speaker : Option Worker) (e : Event) (got : Bool)
  /-- A command is taken, by the worker of an id or by the handshake. -/
  | took (reader : Option Nat) (c : Command)
  /-- The session looks at a worker. -/
  | checked (w : Worker) (stop : Option (SourcePos × Reason))
  /-- A worker runs its next instruction. -/
  | ran (w : Worker)

/-- What the client is told about a run's end. -/
def exitStatus (result : Except RunError (List Value)) : Int32 :=
  match result with
  | .ok _ => 0
  | .error _ => 1

/-- What a worker says that stops. -/
def stopEvent (p : Program) (w : Worker) (position : SourcePos) (reason : Reason) : Event :=
  .suspended (.ofNat w.info.id) w.info.workerName position reason (stopFrames p w.stack position)

namespace Debuggee

/-- A run that has not begun. -/
def start (s : Session) (store : Store) : Debuggee where
  session := s
  inv := ⟨.start store [], 0, []⟩
  notes _ := .fresh
  reader := none
  control := .opening

/-- How many lines have been printed. -/
def printed (d : Debuggee) : Nat := d.inv.world.store.output.size

/-- Keeps something else about a worker. -/
def note (d : Debuggee) (w : Worker) (n : Note) : Debuggee :=
  { d with notes := Function.update d.notes w.info.id n }

/-- Hands a worker back that has taken its step. Of those that it has started nothing is known yet. -/
def takeBack (d : Debuggee) (watch : Watch) (world : World) (w : Worker) : Debuggee :=
  { d with
    inv := d.inv.takeBack world w
    notes := Function.update
      (fun id => if id < d.inv.world.scheduler.nextId then d.notes id else .fresh)
      w.info.id ⟨watch, .due⟩ }

/-- Sets up a function on some arguments. -/
def launch (d : Debuggee) (world : World) (id : FunctionId) (info : FunctionInfo)
    (args : List (Bank × Value)) (after : Option (List PackageInfo)) : Debuggee :=
  match world.launch id info args with
  | .ok inv =>
      { d with
        inv
        notes := fun id => if id < world.scheduler.nextId then d.notes id else .fresh
        control := .running after }
  | .error e =>
      { d with
        inv := { d.inv with world := world.unlaunched id info args e }
        control := .closing (.error (.faulted ⟨e, []⟩)) }

/-- Goes on when a function has come to an end. -/
def proceed (result : Except RunError (List Value)) : Option (List PackageInfo) → Control
  | none => .closing result
  | some todo =>
      match result with
      | .ok _ => .between todo
      | .error e => .closing (.error e)

/-- What the session does with a worker, and what the client does. -/
inductive Attends (p : Program) : Debuggee → List Happening → Debuggee → Prop
  | hear (d : Debuggee) (r : Reply) :
      Attends p d [.heard r] { d with session := d.session.hear r }
  | check {d : Debuggee} {w : Worker} {watch : Watch} (hw : w ∈ d.inv.world.waiting)
      (hn : d.notes w.info.id = ⟨watch, .due⟩)
      (hc : (Debug.check p d.session watch w).2 = none) :
      Attends p d [.checked w none]
        (d.note w ⟨(Debug.check p d.session watch w).1, .cleared⟩)
  | halt {d : Debuggee} {w : Worker} {watch : Watch} {position : SourcePos} {reason : Reason}
      (hw : w ∈ d.inv.world.waiting) (hn : d.notes w.info.id = ⟨watch, .due⟩)
      (hc : (Debug.check p d.session watch w).2 = some (position, reason)) :
      Attends p d [.checked w (some (position, reason))]
        (d.note w ⟨(Debug.check p d.session watch w).1, .stopping position reason⟩)
  | stop {d : Debuggee} {w : Worker} {watch : Watch} {position : SourcePos} {reason : Reason}
      (hw : w ∈ d.inv.world.waiting) (hn : d.notes w.info.id = ⟨watch, .stopping position reason⟩)
      (hl : d.session.listening = true) :
      Attends p d [.said (some w) (stopEvent p w position reason) true]
        ({ d with session := d.session.tell d.printed (stopEvent p w position reason) }.note w
          ⟨watch, .stopped⟩)
  /-- The client is gone. -/
  | miss {d : Debuggee} {w : Worker} {watch : Watch} {position : SourcePos} {reason : Reason}
      (hw : w ∈ d.inv.world.waiting) (hn : d.notes w.info.id = ⟨watch, .stopping position reason⟩)
      (hl : d.session.listening = false) :
      Attends p d [.said (some w) (stopEvent p w position reason) false]
        ({ d with session := d.session.detach }.note w ⟨watch, .cleared⟩)
  | lock {d : Debuggee} {w : Worker} {watch : Watch} (hw : w ∈ d.inv.world.waiting)
      (hn : d.notes w.info.id = ⟨watch, .stopped⟩) (hr : d.reader = none) :
      Attends p d [] { d with reader := some w.info.id }
  | take {d : Debuggee} {w : Worker} {watch : Watch} {c : Command} {s : Session}
      (hw : w ∈ d.inv.world.waiting) (hn : d.notes w.info.id = ⟨watch, .stopped⟩)
      (hr : d.reader = some w.info.id) (ht : d.session.take? = some (c, s))
      (hm : c.mode? = none) :
      Attends p d [.took (some w.info.id) c] { d with session := s }
  | release {d : Debuggee} {w : Worker} {watch : Watch} {c : Command} {s : Session} {mode : Mode}
      (hw : w ∈ d.inv.world.waiting) (hn : d.notes w.info.id = ⟨watch, .stopped⟩)
      (hr : d.reader = some w.info.id) (ht : d.session.take? = some (c, s))
      (hm : c.mode? = some mode) :
      Attends p d [.took (some w.info.id) c]
        ({ d with session := s, reader := none }.note w ⟨{ watch with mode }, .cleared⟩)
  /-- No command is left, and none will come. -/
  | lose {d : Debuggee} {w : Worker} {watch : Watch} (hw : w ∈ d.inv.world.waiting)
      (hn : d.notes w.info.id = ⟨watch, .stopped⟩) (hr : d.reader = some w.info.id)
      (hq : d.session.queue = []) (hs : d.session.sending = false) :
      Attends p d []
        ({ d with session := d.session.detach, reader := none }.note w ⟨watch, .cleared⟩)

/-- What can happen next. -/
inductive Does (env : Environment) (args : List String) :
    Debuggee → List Happening → Debuggee → Prop
  | attend {d d' : Debuggee} {log : List Happening} (h : Attends env.program d log d') :
      Does env args d log d'
  | step {d : Debuggee} {before after : List Worker} {w : Worker} {watch : Watch}
      (hw : d.inv.world.waiting = before ++ w :: after)
      (hn : d.notes w.info.id = ⟨watch, .cleared⟩) :
      Does env args d [.ran w]
        (d.takeBack watch (env.step { d.inv.world with waiting := before ++ after } w).1
          (env.step { d.inv.world with waiting := before ++ after } w).2)
  -- the handshake
  | noMain {d : Debuggee} (hc : d.control = .opening) (hm : env.program.mainFunction? = none) :
      Does env args d []
        { d with control := .finished (.error (.mainNotFound env.program.entryPackage)) }
  | greet {d : Debuggee} {m : FunctionId × FunctionInfo} (hc : d.control = .opening)
      (hm : env.program.mainFunction? = some m) (hl : d.session.listening = true) :
      Does env args d [.said none .ready true]
        { d with session := d.session.tell d.printed .ready, control := .handshake }
  | ungreeted {d : Debuggee} {m : FunctionId × FunctionInfo} (hc : d.control = .opening)
      (hm : env.program.mainFunction? = some m) (hl : d.session.listening = false) :
      Does env args d [.said none .ready false]
        { d with control := .finished (.error (.session .clientDisconnected)) }
  | ignore {d : Debuggee} {c : Command} {s : Session} (hc : d.control = .handshake)
      (ht : d.session.take? = some (c, s)) (hs : c ≠ .start) :
      Does env args d [.took none c] { d with session := s }
  | begin {d : Debuggee} {s : Session} (hc : d.control = .handshake)
      (ht : d.session.take? = some (.start, s)) :
      Does env args d [.took none .start]
        { d with session := s, control := .between env.program.packages }
  | disconnected {d : Debuggee} (hc : d.control = .handshake) (hq : d.session.queue = [])
      (hs : d.session.sending = false) :
      Does env args d [] { d with control := .finished (.error (.session .clientDisconnected)) }
  | timeout {d : Debuggee} (hc : d.control = .handshake) :
      Does env args d [] { d with control := .finished (.error (.session d.session.timeoutError)) }
  -- the functions of the program, one after another
  | skip {d : Debuggee} {package : PackageInfo} {rest : List PackageInfo}
      (hc : d.control = .between (package :: rest)) (hi : package.initFunction = none) :
      Does env args d [] { d with control := .between rest }
  | missing {d : Debuggee} {package : PackageInfo} {rest : List PackageInfo} {id : FunctionId}
      (hc : d.control = .between (package :: rest)) (hi : package.initFunction = some id)
      (hf : env.program.function? id = none) :
      Does env args d [] { d with control := .closing (.error (.functionNotFound id.render)) }
  | init {d : Debuggee} {package : PackageInfo} {rest : List PackageInfo} {id : FunctionId}
      {info : FunctionInfo} (hc : d.control = .between (package :: rest))
      (hi : package.initFunction = some id) (hf : env.program.function? id = some info) :
      Does env args d [] (d.launch d.inv.world id info [] (some rest))
  | overfull {d : Debuggee} {id : FunctionId} {info : FunctionInfo} {e : ExecutionError}
      (hc : d.control = .between []) (hm : env.program.mainFunction? = some (id, info))
      (hh : d.inv.world.handMain info args = .error e) :
      Does env args d [] { d with control := .closing (.error (.faulted ⟨e, []⟩)) }
  | main {d : Debuggee} {id : FunctionId} {info : FunctionInfo} {world : World}
      {handed : List (Bank × Value)} (hc : d.control = .between [])
      (hm : env.program.mainFunction? = some (id, info))
      (hh : d.inv.world.handMain info args = .ok (world, handed)) :
      Does env args d [] (d.launch world id info handed none)
  | join {d : Debuggee} {after : Option (List PackageInfo)} {me : WorkerInstance}
      {outcome : Outcome} {joined : Except (List WorkerFailure) Unit}
      (hc : d.control = .running after) (hm : me.id = d.inv.main)
      (ho : (me, outcome) ∈ d.inv.ended) (hj : d.inv.world.scheduler.join? = some joined) :
      Does env args d []
        { d with
          inv := { d.inv with world := { d.inv.world with kept := [] } }
          control := proceed (Environment.conclude outcome joined) after }
  | exit {d : Debuggee} {result : Except RunError (List Value)}
      (hc : d.control = .closing result) :
      Does env args d [.said none (.exit (exitStatus result)) d.session.listening]
        { d with
          session := d.session.tell d.printed (.exit (exitStatus result))
          control := .finished result }

/-- What has happened on the way from one state to another. -/
inductive Course (env : Environment) (args : List String) (d : Debuggee) :
    List Happening → Debuggee → Prop
  | start : Course env args d [] d
  | move {log log' : List Happening} {d' d'' : Debuggee} (h : Course env args d log d')
      (hm : Does env args d' log' d'') : Course env args d (log ++ log') d''

theorem Course.trans {env : Environment} {args : List String} {d d' d'' : Debuggee}
    {log log' : List Happening} (h : Course env args d log d')
    (h' : Course env args d' log' d'') : Course env args d (log ++ log') d'' := by
  induction h' with
  | start => rwa [List.append_nil]
  | move _ hm ih =>
    rw [← List.append_assoc]
    exact ih.move hm

theorem Does.course {env : Environment} {args : List String} {d d' : Debuggee}
    {log : List Happening} (h : Does env args d log d') : Course env args d log d' :=
  Course.move .start h

/-- **A session has no part in what the program does.** Looking at a worker, stopping it and letting it
go on leaves every worker with its registers and frames, the collections, what has been printed, and
how far the run is. A worker that has been let go on is running again because it has not ceased to be:
what a stop changes is its `Stand`, and nothing else says that it has stopped. -/
theorem Attends.apart {p : Program} {d d' : Debuggee} {log : List Happening}
    (h : Attends p d log d') : d'.inv = d.inv ∧ d'.control = d.control := by
  cases h <;> exact ⟨rfl, rfl⟩

end Debuggee

end Debug

end RegisterMachine
