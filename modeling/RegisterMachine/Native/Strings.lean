import RegisterMachine.Native.Basic
import RegisterMachine.Regex.Library
import RegisterMachine.Text.Case

/-!
# Native functions on strings

A pattern is given as a string or as a record whose field `pattern` is one. A library of regular
expressions compiles it, and if that fails it is a failure that the program can deal with.
-/

namespace RegisterMachine

namespace Native

/-- The text of the pattern that is an argument. -/
def patternArg (h : Heap) (args : List Value) (index : Nat) : Except NativeError String :=
  match args[index]? with
  | some (.str s) => .ok s
  | some v =>
      match h.object? v with
      | some (_, .record _ fields) =>
          match fields.get "pattern" with
          | .str s => .ok s
          | other => .error (.argument index "regex with a string pattern" (h.tag other))
      | _ => .error (.argument index "regex" (h.tag v))
  | none => .error (.argument index "regex" .null)

/-- The result for a pattern that cannot be compiled: what stands for a value, and the error. -/
def patternFailure (missing : Value) (message : String) : List Value :=
  [missing, .error { message }]

/-- Whether the pattern can be matched so that it uses up the whole text. -/
def matchesWithRegex (lib : Regex.Library) : Native := query fun h args => do
  checkCount args 2
  let s ← strArg h args 0
  let pattern ← patternArg h args 1
  match lib.compileAnchored pattern with
  | .ok compiled => .ok [.bool (compiled.isMatch s)]
  | .error message => .ok (patternFailure (.bool false) message)

/-- All matches, as an array of strings. -/
def findAllWithRegex (lib : Regex.Library) : Native := fun _ store args =>
  let found : Except NativeError (Except String ArrayObject) := do
    checkCount args 2
    let s ← strArg store.heap args 0
    let pattern ← patternArg store.heap args 1
    match lib.compile pattern with
    | .error message => .ok (.error message)
    | .ok compiled =>
        match ArrayObject.ofStrings (compiled.findAll s) with
        | .ok a => .ok (.ok a)
        | .error e => .error (.failed e.message)
  match found with
  | .error e => (store, .error e)
  | .ok (.error message) => (store, .ok (patternFailure .null message))
  | .ok (.ok a) =>
      let (store, v) := store.alloc (.array a)
      (store, .ok [v])

/-- The text with every match replaced. -/
def replaceAllWithRegex (lib : Regex.Library) : Native := query fun h args => do
  checkCount args 3
  let s ← strArg h args 0
  let pattern ← patternArg h args 1
  let replacement ← strArg h args 2
  match lib.compile pattern with
  | .ok compiled => .ok [.str (compiled.replaceAll s replacement)]
  | .error message => .ok (patternFailure (.str "") message)

/-- The number of characters. -/
def stringLength : Native := query fun h args => do
  checkCount args 1
  let s ← strArg h args 0
  .ok [.int (.ofNat s.length)]

def toUpperCase : Native := query fun h args => do
  checkCount args 1
  let s ← strArg h args 0
  .ok [.str (Text.upper s)]

/-- Whether a text has another one in it. -/
def occursIn (part : List Char) : List Char → Bool
  | [] => part.isEmpty
  | c :: rest => part.isPrefixOf (c :: rest) || occursIn part rest

/-- Whether the first string has the second one in it. -/
def stringContains : Native := query fun h args => do
  checkCount args 2
  let s ← strArg h args 0
  let part ← strArg h args 1
  .ok [.bool (occursIn part.toList s.toList)]

end Native

namespace Natives

/-- The functions that every program can call, with a library of regular expressions behind them. -/
def withLibrary (lib : Regex.Library) : Natives :=
  [("string.matchesWithRegex", Native.matchesWithRegex lib),
    ("string.findAllWithRegex", Native.findAllWithRegex lib),
    ("string.replaceAllWithRegex", Native.replaceAllWithRegex lib),
    ("string.length", Native.stringLength),
    ("string.toUpperCase", Native.toUpperCase),
    ("string.contains", Native.stringContains),
    ("io.println", Native.printLine)]

def builtin : Natives := withLibrary .unbounded

end Natives

end RegisterMachine
