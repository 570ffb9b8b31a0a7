import RegisterMachine.Settings.Dotenv
import RegisterMachine.Settings.Toml

/-!
# Where settings come from

Each setting is taken from the last of these that gives it: what holds by itself, the settings file, the
variables whose names begin with `WEFT_`, and what is asked for on the spot. Two underscores in the name
of a variable lead from a section to a key in it. A `.env` file adds variables to those that are there.
-/

namespace RegisterMachine

/-- What a program finds where it is started. -/
structure Surroundings where
  /-- Text files, by the names they are asked for by. -/
  files : List (String × String)
  /-- Environment variables. -/
  vars : List (String × String)
  deriving Repr

def Surroundings.file? (place : Surroundings) (name : String) : Option String := place.files.lookup name

namespace Settings

/-- What is asked for on the spot. -/
structure Overrides where
  /-- The settings file, which has to be there. -/
  file : Option String := none
  debugEnabled : Option Bool := none
  debugPort : Option UInt16 := none
  /-- These are added to the others. -/
  breakpoints : List String := []
  maxCallDepth : Option Nat := none
  /-- Variables do not count. -/
  skipVariables : Bool := false
  deriving DecidableEq, Repr

inductive LoadError
  /-- The settings file is not there or cannot be read. -/
  | unreadable
  /-- Something is set to what it cannot be. -/
  | invalid
  /-- The call depth is set to zero. -/
  | noDepth
  deriving DecidableEq, Repr

def LoadError.message : LoadError → String
  | unreadable => "Failed to load configuration"
  | invalid => "Invalid configuration"
  | noDepth => "runtime.max_call_depth must be at least 1"

/-! ## The settings file -/

/-- The end of a file name from its last point on. A point at the very beginning does not count. -/
def fileExtension (path : List Char) : List Char :=
  let name := (path.reverse.takeWhile (· != '/')).reverse
  let ending := (name.reverse.takeWhile (· != '.')).reverse
  if ending.length + 1 < name.length then ending else []

/-- The text of the settings file with a given path, which may leave the end `.toml` out. A file with
another end cannot be a settings file. -/
def fileText? (place : Surroundings) (path : String) : Option String :=
  match place.file? path with
  | some text => if fileExtension path.toList = ['t', 'o', 'm', 'l'] then some text else none
  | none => place.file? (path ++ ".toml")

/-- What the settings file says. A file that nobody asked for need not be there. -/
def fileTree? (place : Surroundings) (file : Option String) : Option Tree :=
  match file with
  | some path => (fileText? place path).bind Toml.ofText?
  | none =>
      match fileText? place "weft" with
      | some text => Toml.ofText? text
      | none => some .empty

/-! ## Variables -/

/-- The text with each pair of underscores made a point. -/
def dotted : List Char → List Char
  | '_' :: '_' :: rest => '.' :: dotted rest
  | c :: rest => c :: dotted rest
  | [] => []

/-- The parts of a key between its points. -/
def keyParts (key : List Char) : List String := (String.ofList key).splitOn "."

/-- The setting that a variable's name stands for. Names do not depend on case. -/
def variablePath? (name : String) : Option (List String) :=
  match (Tree.lowered name).toList with
  | 'w' :: 'e' :: 'f' :: 't' :: '_' :: rest =>
      let path := keyParts (dotted rest)
      let isKeyChar (c : Char) : Bool := c == ' ' || Toml.isBareKeyChar c
      if path.all fun part => !part.isEmpty && part.toList.all isKeyChar then some path else none
  | _ => none

/-- What a variable's value says: a truth value or a number if it reads as one, else a text, or for the
breakpoints a list of texts. -/
def ofVariable (path : List String) (text : String) : Tree :=
  let word := Tree.lowered text
  if word == "true" then .bool true
  else if word == "false" then .bool false
  else
    match Decimal.readInt? 9223372036854775807 text.toList with
    | some i => .int i
    | none =>
        match Decimal.readFloat? text.toList with
        | some x => .float x
        | none =>
            if path = ["debug", "breakpoints"] then .list ((text.splitOn ",").map Tree.string)
            else .string text

/-- Adds what variables say to what is there. -/
def withVariables (t : Tree) (vars : List (String × String)) : Tree :=
  vars.foldl (fun t (name, text) =>
    match variablePath? name with
    | some path => t.putAt path (ofVariable path text)
    | none => t) t

/-- The variables that are there, and those of the `.env` file. -/
def allVariables (place : Surroundings) : List (String × String) :=
  match place.file? ".env" with
  | some text => Dotenv.load place.vars text
  | none => place.vars

/-! ## All together -/

/-- What is asked for on the spot counts most. Asking for a port also turns debugging on. -/
def override (s : Settings) (o : Overrides) : Settings :=
  { s with
    debug :=
      { s.debug with
        enabled := o.debugPort.isSome || o.debugEnabled.getD s.debug.enabled
        port := o.debugPort.or s.debug.port
        breakpoints := s.debug.breakpoints ++ o.breakpoints }
    runtime := { s.runtime with maxCallDepth := o.maxCallDepth.getD s.runtime.maxCallDepth } }

/-- Puts the settings together. -/
def load (place : Surroundings) (o : Overrides) : Except LoadError Settings :=
  match fileTree? place o.file with
  | none => .error .unreadable
  | some tree =>
      let tree := if o.skipVariables then tree else withVariables tree (allVariables place)
      match tree.toSettings? with
      | none => .error .invalid
      | some s =>
          let s := s.override o
          if s.runtime.maxCallDepth = 0 then .error .noDepth else .ok s

end Settings

end RegisterMachine
