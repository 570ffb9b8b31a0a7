import RegisterMachine.Value.Object

/-!
# Instructions

The instruction set. Operands name registers of one of a frame's banks; where an instruction works
with more than one bank its operand says which (`AnyReg`). Offsets into the code, the constants
and the functions are plain numbers, and nothing says that they lead anywhere.
-/

namespace RegisterMachine

/-- The banks that hold values. -/
inductive ValueBank
  | int | float | str | bool
  /-- Everything that is no integer, float, string or boolean, and those as well. -/
  | ref
  deriving DecidableEq, Repr

/-- All banks of a frame: those for values, and the iterators. -/
inductive Bank
  | value (b : ValueBank)
  | iter
  deriving DecidableEq, Repr

namespace ValueBank

/-- What error messages call the bank. -/
def name : ValueBank → String
  | int => "int"
  | float => "float"
  | str => "string"
  | bool => "boolean"
  | ref => "ref"

def all : List ValueBank := [int, float, str, bool, ref]

end ValueBank

namespace Bank

def name : Bank → String
  | value b => b.name
  | iter => "iterator"

def all : List Bank := ValueBank.all.map value ++ [iter]

end Bank

/-- A register of a known bank. -/
structure Reg (bank : Bank) where
  index : UInt16
  deriving DecidableEq, Repr

abbrev IntReg := Reg (.value .int)
abbrev FloatReg := Reg (.value .float)
abbrev StrReg := Reg (.value .str)
abbrev BoolReg := Reg (.value .bool)
abbrev RefReg := Reg (.value .ref)
abbrev IterReg := Reg .iter

/-- A register of any bank that holds values. -/
structure AnyReg where
  bank : ValueBank
  index : UInt16
  deriving DecidableEq, Repr

def AnyReg.reg (r : AnyReg) : Reg (.value r.bank) := ⟨r.index⟩

/-- Where a function stands in the program. -/
structure FunctionId where
  index : UInt32
  deriving DecidableEq, Repr

def FunctionId.render (id : FunctionId) : String := "#" ++ toString id.index.toNat

/-- Integer operations, on 64-bit words that wrap. -/
inductive IntOp
  | add | sub | mul
  /-- The quotient rounded toward zero. -/
  | div
  /-- The remainder that goes with `div`: it has the sign of the dividend. -/
  | mod
  deriving DecidableEq, Repr

inductive FloatOp
  | add | sub | mul | div
  deriving DecidableEq, Repr

inductive IntComparison
  | less | lessOrEqual | equal
  deriving DecidableEq, Repr

inductive Instruction
  | nop
  | intConst (dst : IntReg) (value : Int64)
  | floatConst (dst : FloatReg) (value : Float)
  | boolConst (dst : BoolReg) (value : Bool)
  /-- Loads an entry of the program's string constants. -/
  | strConst (dst : StrReg) (index : Nat)
  | null (dst : RefReg)
  | move (src dst : AnyReg)
  | intOp (op : IntOp) (lhs rhs dst : IntReg)
  | floatOp (op : FloatOp) (lhs rhs dst : FloatReg)
  | intCompare (op : IntComparison) (lhs rhs : IntReg) (dst : BoolReg)
  | floatLess (lhs rhs : FloatReg) (dst : BoolReg)
  | strEqual (lhs rhs : StrReg) (dst : BoolReg)
  | concat (lhs rhs dst : StrReg)
  | not (src dst : BoolReg)
  | goto (target : Nat)
  /-- Goes to `target` if the condition has the value `when`. -/
  | branch (when : Bool) (cond : BoolReg) (target : Nat)
  /-- Without a length the array is empty and has room for the default number of elements. -/
  | newArray (kind : ElementKind) (length : Option IntReg) (dst : RefReg)
  | arrayLoad (array : RefReg) (index : IntReg) (dst : AnyReg)
  | arrayStore (array : RefReg) (index : IntReg) (src : AnyReg)
  /-- How many elements a collection, characters a string or bytes a blob has. -/
  | length (src : RefReg) (dst : IntReg)
  | newMap (dst : RefReg)
  | mapStore (map : RefReg) (key : StrReg) (src : AnyReg)
  | mapLoad (map : RefReg) (key : StrReg) (dst : AnyReg)
  | newRecord (typeName : String) (dst : RefReg)
  | fieldStore (record : RefReg) (field : String) (src : AnyReg)
  | fieldLoad (record : RefReg) (field : String) (dst : AnyReg)
  | newRange (first last : IntReg) (dst : RefReg)
  | iterNew (collection : RefReg) (iter : IterReg)
  | iterHasNext (iter : IterReg) (dst : BoolReg)
  /-- Takes the next element, with its index or key if there are two destinations. -/
  | iterNext (iter : IterReg) (dsts : List AnyReg)
  | newError (message : StrReg) (dst : RefReg)
  | throw (error : RefReg)
  | call (function : FunctionId) (args rets : List AnyReg)
  | nativeCall (name : String) (args rets : List AnyReg)
  | ret (values : List AnyReg)
  deriving DecidableEq, Repr

end RegisterMachine
