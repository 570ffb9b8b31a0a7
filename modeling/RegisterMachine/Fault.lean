import RegisterMachine.Program.Basic
import RegisterMachine.Value.Iterator

/-!
# Faults

Everything that can go wrong while code runs, as causes, with the one text of each. A fault is
such an error together with the stack it ended, innermost frame first.
-/

namespace RegisterMachine

namespace IndexError

def message : IndexError → String
  | outOfRange index size =>
      "array index out of range: index: " ++ toString index.toInt ++ ", size: " ++ toString size
  | tooLarge index => "array index too large: " ++ toString index.toInt

end IndexError

/-- The text for a value of the wrong type. -/
def incompatible (expected found : String) : String :=
  "incompatible types: expected '" ++ expected ++ "', found '" ++ found ++ "'"

namespace ArrayError

def message : ArrayError → String
  | index e => e.message
  | elementType expected found => incompatible expected.name found.name

end ArrayError

namespace IteratorError

def message : IteratorError → String
  | exhausted => "iterator has no more elements"
  | invalidArity width =>
      "unsupported iterator arity " ++ toString width ++ ", expected 1 or 2"
  | collectionDropped => "collection was dropped while being iterated"
  | array e => e.message

end IteratorError

/-- A native function that fails altogether, rather than handing back an error value. -/
inductive NativeError
  | arity (expected got : Nat)
  | argument (index : Nat) (expected : String) (found : TypeTag)
  | failed (message : String)
  deriving DecidableEq, Repr

namespace NativeError

def message : NativeError → String
  | arity expected got =>
      "expected " ++ toString expected ++ " argument(s), got " ++ toString got
  | argument index expected found =>
      "argument " ++ toString index ++ ": expected " ++ expected ++ ", found '" ++ found.name ++ "'"
  | failed message => message

end NativeError

/-- What an instruction wanted where it found a value of another type. -/
inductive Wanted
  /-- A value that a register of this bank can hold. -/
  | bank (b : ValueBank)
  /-- A value at all, where an iterator register was named. -/
  | value
  | collection | array | map | record
  deriving DecidableEq, Repr

def Wanted.name : Wanted → String
  | bank b => b.name
  | value => "value"
  | collection => "collection"
  | array => "array"
  | map => "map"
  | record => "struct"

/-- An error raised by one instruction. -/
inductive ExecutionError
  | array (e : ArrayError)
  | iterator (e : IteratorError)
  | stackUnderflow
  | stackOverflow (depth : Nat)
  | invalidRegister (bank : Bank) (index : UInt16)
  | invalidInstructionPointer (ip : Nat)
  | invalidConstant (index : Nat)
  | typeMismatch (wanted : Wanted) (found : TypeTag)
  | nullReference
  | divisionByZero
  | notACollection (found : TypeTag)
  | uninitializedIterator (index : UInt16)
  | unknownFunction (id : FunctionId)
  | unknownNative (name : String)
  | native (name : String) (e : NativeError)
  /-- An error value that the program threw. -/
  | raised (e : ErrorValue)
  deriving DecidableEq, Repr

namespace ExecutionError

/-- Whether the code itself is malformed, rather than the program having met a condition of its
own making. -/
def isFatal : ExecutionError → Bool
  | stackUnderflow => true
  | invalidRegister _ _ => true
  | invalidInstructionPointer _ => true
  | _ => false

def message : ExecutionError → String
  | array e => e.message
  | iterator e => e.message
  | stackUnderflow => "control stack underflow"
  | stackOverflow depth => "stack overflow: call depth exceeded " ++ toString depth
  | invalidRegister bank index =>
      "invalid " ++ bank.name ++ " register " ++ toString index.toNat
  | invalidInstructionPointer ip => "invalid instruction pointer " ++ toString ip
  | invalidConstant index => "invalid constant pool index " ++ toString index
  | typeMismatch wanted found => incompatible wanted.name found.name
  | nullReference => "null reference"
  | divisionByZero => "/ by zero"
  | notACollection found => "value of type '" ++ found.name ++ "' is not iterable"
  | uninitializedIterator index =>
      "iterator register " ++ toString index.toNat ++ " was never initialised"
  | unknownFunction id => "unknown function " ++ id.render
  | unknownNative name => "unknown native function '" ++ name ++ "'"
  | native name e => "native function '" ++ name ++ "' failed: " ++ e.message
  | raised e => e.render

end ExecutionError

/-- One frame of a stack trace. -/
structure TraceEntry where
  function : String
  worker : String
  position : Option SourcePos
  deriving DecidableEq, Repr

def TraceEntry.render (e : TraceEntry) : String :=
  let worker := if e.worker == defaultWorkerName then "" else "[" ++ e.worker ++ "]"
  let position := match e.position with
    | some pos => pos.render
    | none => "unknown source"
  "at " ++ e.function ++ worker ++ " (" ++ position ++ ")"

structure Fault where
  error : ExecutionError
  /-- Innermost frame first. -/
  trace : List TraceEntry
  deriving DecidableEq, Repr

def Fault.render (f : Fault) : String :=
  f.error.message ++ String.join (f.trace.map fun entry => "\n    " ++ entry.render)

end RegisterMachine
