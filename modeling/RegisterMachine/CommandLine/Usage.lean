import RegisterMachine.Settings.Load

/-!
# The command line

What can be said on it: options, which begin with hyphens, and two commands with the file of a program.
-/

namespace RegisterMachine.CommandLine

/-- What is to be done with a program. -/
inductive Verb
  /-- Runs it. -/
  | run
  /-- Lists what is in it. -/
  | inspect
  deriving DecidableEq, Repr

def Verb.ofName? : String → Option Verb
  | "run" => some run
  | "inspect" => some inspect
  | _ => none

inductive Switch
  | help
  /-- The settings file. -/
  | config
  /-- Debugging. -/
  | debug
  /-- A breakpoint, as often as wanted. -/
  | breakpoint
  | debugPort
  | maxCallDepth
  deriving DecidableEq, Repr

namespace Switch

def long : Switch → String
  | help => "help"
  | config => "config"
  | debug => "debug"
  | breakpoint => "breakpoint"
  | debugPort => "debug-port"
  | maxCallDepth => "max-call-depth"

def short? : Switch → Option Char
  | help => some 'h'
  | breakpoint => some 'b'
  | _ => none

/-- Whether a value belongs to it. -/
def takesValue : Switch → Bool
  | help => false
  | debug => false
  | _ => true

/-- The options that can stand before a command. -/
def general : List Switch := [help, config]

/-- The options that can stand after a command. -/
def ofVerb : Verb → List Switch
  | .run => [help, config, debug, breakpoint, debugPort, maxCallDepth]
  | .inspect => general

end Switch

/-- Why the arguments do not say what to do. -/
inductive UsageError
  /-- Help is asked for. -/
  | help
  /-- There is nothing at all. -/
  | nothing
  /-- There is no command. -/
  | missingVerb
  | unknownVerb
  /-- There is no program. -/
  | missingProgram
  /-- Something stands where nothing can stand. -/
  | unknownArgument
  /-- An option is without its value, or a path is empty. -/
  | missingValue
  /-- A value is not of the kind it should be. -/
  | badValue
  /-- There is a value where none belongs. -/
  | unwantedValue
  /-- An option is given twice. -/
  | repeated
  deriving DecidableEq, Repr

/-- What the arguments say. -/
structure Invocation where
  verb : Verb
  program : String
  /-- The arguments of the program. -/
  args : List String
  overrides : Settings.Overrides
  deriving DecidableEq, Repr

end RegisterMachine.CommandLine
