import RegisterMachine.Machine.Scheduler
import RegisterMachine.Value.Render

/-!
# Native functions

Functions that a program can call but that are not part of it. One gets the values of its
arguments and hands back values; it may make objects, change them and print lines. A failure that
the program can deal with is a result whose second value is an error; any other is a `NativeError`
and ends the worker.
-/

namespace RegisterMachine

/-- What all workers of a run share: the objects and the lines printed so far. -/
structure Store where
  heap : Heap
  output : Array String

namespace Store

def empty : Store := ⟨.empty, #[]⟩

def printLine (s : Store) (line : String) : Store := { s with output := s.output.push line }

/-- Adds an object and hands back the value that refers to it. -/
def alloc (s : Store) (o : Object) : Store × Value :=
  let (heap, r) := s.heap.alloc o
  ({ s with heap }, .collection r)

end Store

/-- A native function sees which worker calls it. What it has done to the store stays done when it
fails. -/
abbrev Native := WorkerInstance → Store → List Value → Store × Except NativeError (List Value)

/-- Native functions by name; of two with one name the first counts. -/
abbrev Natives := List (String × Native)

namespace Native

/-- A function that looks at its arguments and the heap and neither makes nor prints anything. -/
def query (f : Heap → List Value → Except NativeError (List Value)) : Native :=
  fun _ s args => (s, f s.heap args)

/-- Fails unless there are exactly `expected` arguments. -/
def checkCount (args : List Value) (expected : Nat) : Except NativeError Unit :=
  if args.length = expected then .ok () else .error (.arity expected args.length)

/-- The type of an argument; one that is missing counts as null. -/
def argTag (h : Heap) (args : List Value) (index : Nat) : TypeTag :=
  ((args[index]?).map h.tag).getD .null

/-- The string that is an argument. -/
def strArg (h : Heap) (args : List Value) (index : Nat) : Except NativeError String :=
  match args[index]? with
  | some (.str s) => .ok s
  | _ => .error (.argument index "string" (argTag h args index))

/-- Prints the texts of its arguments with a space between each two. -/
def printLine : Native := fun _ s args =>
  (s.printLine (String.intercalate " " (args.map s.heap.text)), .ok [])

end Native

end RegisterMachine
