import RegisterMachine.CommandLine.Execution

/-!
# The program

Reads what there is to read, does what the command line says and prints the account of it.
-/

namespace RegisterMachine.CommandLine

def usageText : String :=
  "Usage: weft [--config <PATH>] run [--debug] [-b <SOURCE>:<LINE>]... [--debug-port <PORT>]\n" ++
    "                                 [--max-call-depth <N>] <PROGRAM> [ARGS]...\n" ++
    "       weft [--config <PATH>] inspect <PROGRAM>"

def UsageError.message : UsageError → String
  | help => usageText
  | nothing => usageText
  | missingVerb => "a command is missing"
  | unknownVerb => "there is no such command"
  | missingProgram => "the program is missing"
  | unknownArgument => "unexpected argument"
  | missingValue => "a value is missing"
  | badValue => "a value is not what it should be"
  | unwantedValue => "there is a value where none belongs"
  | repeated => "an option is given twice"

/-- More steps than any run takes. -/
def stepLimit : Nat := Nat.pow 2 62

/-- The variables that can matter. -/
def variableNames : List String :=
  ["WEFT_RUNTIME", "WEFT_RUNTIME__MAX_CALL_DEPTH", "WEFT_DEBUG", "WEFT_DEBUG__ENABLED",
    "WEFT_DEBUG__HANDSHAKE_TIMEOUT_SECS", "WEFT_DEBUG__BREAKPOINTS", "WEFT_DEBUG__PORT",
    "WEFT_LOGGING", "WEFT_LOGGING__FILTER"]

/-- The text of a file, if there is one. -/
def readText? (path : String) : IO (Option String) := do
  try return some (← IO.FS.readFile path)
  catch _ => return none

/-- What there is among the names that can matter. -/
def present (names : List String) (get? : String → IO (Option String)) :
    IO (List (String × String)) :=
  names.filterMapM fun name => do return (← get? name).map fun text => (name, text)

def surroundings (i : Invocation) : IO Surroundings := do
  let config := match i.overrides.file with
    | some path => [path, path ++ ".toml"]
    | none => ["weft", "weft.toml"]
  let files ← present (i.program :: ".env" :: config) readText?
  let vars ← present variableNames fun name => IO.getEnv name
  return ⟨files, vars⟩

partial def readAll (stream : IO.FS.Stream) (sofar : String) : IO String := do
  let line ← stream.getLine
  if line.isEmpty then return sofar else readAll stream (sofar ++ line)

/-- Prints an account, and tells whether everything went well. -/
def Account.print (a : Account) : IO Bool := do
  for line in a.output do
    IO.println line
  IO.eprint (Debug.Wire.written a.events)
  match a.error with
  | some message =>
      IO.eprintln ("Error: " ++ message)
      return false
  | none => return true

def perform (i : Invocation) : IO Bool := do
  let place ← surroundings i
  let client ← if wantsClient place i then readAll (← IO.getStdin) "" else pure ""
  match execute stepLimit place client i with
  | some a => a.print
  | none =>
      IO.eprintln "Error: the run does not end"
      return false

end RegisterMachine.CommandLine

open RegisterMachine.CommandLine in
def main (args : List String) : IO UInt32 := do
  match Invocation.ofArguments args with
  | .ok i => return if ← perform i then 0 else 1
  | .error .help =>
      IO.println usageText
      return 0
  | .error e =>
      IO.eprintln ("error: " ++ e.message)
      return 2
