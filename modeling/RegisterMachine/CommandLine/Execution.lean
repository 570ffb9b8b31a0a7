import RegisterMachine.CommandLine.Arguments
import RegisterMachine.CommandLine.Inspection
import RegisterMachine.Debug.Run
import RegisterMachine.Debug.Wire
import RegisterMachine.Native.Strings
import RegisterMachine.Program.Codec

/-!
# Doing what the command line says

A program is run or listed as the arguments, the settings and the files say. The client of a debug
session is a text: its commands are there before the run, and there are no more. No client can come in
at a port.
-/

namespace RegisterMachine.CommandLine

/-- What comes of it all. -/
structure Account where
  /-- The lines for standard output. -/
  output : List String := []
  /-- The events for the client of a debug session. -/
  events : List Debug.Event := []
  /-- What went wrong. -/
  error : Option String := none
  deriving Repr

/-- An account of a failure before anything was done. -/
def Account.failure (message : String) : Account := { error := some message }

/-- Reads a program. -/
def readProgram (place : Surroundings) (path : String) : Except String Program :=
  match place.file? path with
  | none => .error ("Failed to read program " ++ path)
  | some text =>
      match Program.ofText text with
      | .ok p => .ok p
      | .error _ => .error ("Invalid program " ++ path ++ ": Failed to parse program JSON")

/-- The session for a run that is debugged, with the client's text in its queue. -/
def session (s : DebugSettings) (client : String) : Except Debug.SessionError Debug.Session := do
  let start ← s.session
  match s.port with
  | some _ => .ok start
  | none => .ok { (Debug.Wire.commands client).foldl Debug.Session.send start with sending := false }

/-- The account of a run. -/
def account (path : String) (events : List Debug.Event) (store : Store)
    (result : Except RunError (List Value)) : Account :=
  match result with
  | .ok values => { output := store.output.toList ++ values.map store.heap.text, events }
  | .error e =>
      { output := store.output.toList, events, error := some (path ++ " failed: " ++ e.message) }

/-- Runs a program. `limit` is that of the run. -/
def runProgram (limit : Nat) (settings : Settings) (client : String) (path : String)
    (program : Program) (args : List String) : Option Account :=
  let env : Environment := ⟨program, Natives.builtin, settings.runtime.maxCallDepth⟩
  if settings.debug.enabled then
    match session settings.debug client with
    | .error e => some (.failure e.message)
    | .ok s => do
        let (s, store, result) ← Debug.runMain env limit .silent s .empty args
        some (account path (s.reports.map Debug.Report.event) store result)
  else do
    let (store, result) ← env.runMain limit .empty args
    some (account path [] store result)

/-- Does what the arguments say. `none` means that the run does not end within `limit`. -/
def execute (limit : Nat) (place : Surroundings) (client : String) (i : Invocation) :
    Option Account :=
  match Settings.load place i.overrides with
  | .error e => some (.failure e.message)
  | .ok settings =>
      match readProgram place i.program with
      | .error message => some (.failure message)
      | .ok program =>
          match i.verb with
          | .run => runProgram limit settings client i.program program i.args
          | .inspect => some { output := program.inspection }

/-- Whether a client's text is wanted. -/
def wantsClient (place : Surroundings) (i : Invocation) : Bool :=
  match i.verb, Settings.load place i.overrides with
  | .run, .ok settings => settings.debug.enabled && settings.debug.port.isNone
  | _, _ => false

end RegisterMachine.CommandLine
