import RegisterMachine.Program.Codec

/-!
# What is said in a debug session

Events go to the client, commands come from it. Each is one JSON object whose first member names it.
-/

namespace RegisterMachine.Debug

open Json (Decoder Record Variant)

inductive Command
  /-- Begins the run. -/
  | start
  /-- Goes on until the next breakpoint. -/
  | resume
  /-- Goes on until the next position. -/
  | step
  /-- Gives the set of breakpoints. -/
  | setBreakpoints (all : List SourcePos)
  deriving DecidableEq, Repr

/-- Why a worker has stopped. -/
inductive Reason
  | breakpoint | step
  deriving DecidableEq, Repr

inductive Event
  /-- The run is ready to begin. -/
  | ready
  /-- A worker has stopped and waits. The frames are those of its stack, innermost first. -/
  | suspended (worker : UInt64) (workerName : String) (position : SourcePos) (reason : Reason)
      (frames : List TraceEntry)
  /-- The run has ended. -/
  | exit (status : Int32)
  deriving DecidableEq, Repr

def Reason.name : Reason → String
  | breakpoint => "breakpoint"
  | step => "step"

def Reason.decoder : Decoder Reason :=
  Variant.choose [(Reason.name .breakpoint, .unit .breakpoint), (Reason.name .step, .unit .step)]

namespace Command

def decoder : Decoder Command :=
  Json.tagged "command"
    [ ("start", .const start),
      ("resume", .const resume),
      ("step", .const step),
      ("set_breakpoints", setBreakpoints <$> .required "breakpoints" (.list SourcePos.decoder)) ]

def toJson : Command → Json
  | start => .ofMembers [("command", .string "start")]
  | resume => .ofMembers [("command", .string "resume")]
  | step => .ofMembers [("command", .string "step")]
  | setBreakpoints all =>
      .ofMembers [("command", .string "set_breakpoints"),
        ("breakpoints", .ofList (all.map SourcePos.toJson))]

/-- Reads a command. -/
def ofText (text : String) : Except Json.Problem Command := Json.decodeText decoder text

end Command

namespace Event

def decoder : Decoder Event :=
  Json.tagged "event"
    [ ("ready", .const ready),
      ("suspended",
        suspended <$> .required "worker" ((Decoder.nat maxOffset).map .ofNat) <*>
          .required "worker_name" .string <*> .required "position" SourcePos.decoder <*>
          .required "reason" Reason.decoder <*>
          .required "frames" (.list TraceEntry.decoder)),
      ("exit",
        exit <$> .required "status" ((Decoder.int (-2147483648) 2147483647).map .ofInt)) ]

def toJson : Event → Json
  | ready => .ofMembers [("event", .string "ready")]
  | suspended worker workerName position reason frames =>
      .ofMembers [("event", .string "suspended"), ("worker", .ofNat worker.toNat),
        ("worker_name", .string workerName), ("position", position.toJson),
        ("reason", .string reason.name), ("frames", .ofList (frames.map TraceEntry.toJson))]
  | exit status => .ofMembers [("event", .string "exit"), ("status", .ofInt status.toInt)]

/-- The text of an event. -/
def toText (e : Event) : String := e.toJson.compact

/-- Reads an event. -/
def ofText (text : String) : Except Json.Problem Event := Json.decodeText decoder text

/-- Whether the event ends a session. -/
def isExit : Event → Bool
  | exit _ => true
  | _ => false

end Event

end RegisterMachine.Debug
