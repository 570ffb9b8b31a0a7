/-!
# Values

What a register or a slot of a collection can hold. Arrays, maps and records are shared: a
value holds only a `Ref`, the contents live in the heap (`Value.Heap`), so copying a value
aliases the collection. Everything else is immutable and held by the value itself.
-/

namespace RegisterMachine

/-- Where a collection stands in the heap. Two values are the same collection exactly when
their references are equal. -/
structure Ref where
  index : Nat
  deriving DecidableEq, Repr, Hashable

/-- The integers from `first` to `last`, both included. Empty when `last < first`. -/
structure IntRange where
  first : Int64
  last : Int64
  deriving DecidableEq, Repr

namespace IntRange

def isEmpty (r : IntRange) : Bool := decide (r.last < r.first)

/-- How many integers the range holds, with no upper bound. -/
def length (r : IntRange) : Nat := (r.last.toInt - r.first.toInt + 1).toNat

def render (r : IntRange) : String :=
  "[" ++ toString r.first.toInt ++ ".." ++ toString r.last.toInt ++ "]"

end IntRange

/-- An error as the language sees it: a message and the messages of what led to it, nearest
first. -/
structure ErrorValue where
  message : String
  causes : List String := []
  deriving DecidableEq, Repr

namespace ErrorValue

/-- Only the nearest cause is written out. -/
def render (e : ErrorValue) : String :=
  match e.causes with
  | [] => "error: " ++ e.message
  | cause :: _ => "error: " ++ e.message ++ " (caused by " ++ cause ++ ")"

end ErrorValue

/-- What an array stores. -/
inductive ElementKind
  | int | float | string | boolean | blob | any
  deriving DecidableEq, Repr

namespace ElementKind

def name : ElementKind → String
  | int => "int"
  | float => "float"
  | string => "string"
  | boolean => "boolean"
  | blob => "blob"
  | any => "any"

def all : List ElementKind := [int, float, string, boolean, blob, any]

end ElementKind

/-- The type of a value, as error messages name it. -/
inductive TypeTag
  | null | int | float | boolean | string | blob
  | array (kind : ElementKind)
  | map | range | record | error
  deriving DecidableEq, Repr

namespace TypeTag

def name : TypeTag → String
  | null => "null"
  | int => "int"
  | float => "float"
  | boolean => "boolean"
  | string => "string"
  | blob => "blob"
  | array kind => kind.name ++ "[]"
  | map => "map"
  | range => "range"
  | record => "struct"
  | error => "error"

end TypeTag

/-- Any value. The derived `==` is the language's own comparison: floats compare as IEEE
numbers, collections by identity and everything else by contents. -/
inductive Value
  | null
  | int (i : Int64)
  | float (x : Float)
  | bool (b : Bool)
  | str (s : String)
  | blob (bytes : List UInt8)
  | range (r : IntRange)
  | error (e : ErrorValue)
  | collection (r : Ref)
  deriving BEq, Repr

namespace Value

instance : Inhabited Value := ⟨null⟩

def isNull : Value → Bool
  | null => true
  | _ => false

def asInt? : Value → Option Int64
  | int i => some i
  | _ => none

def asBool? : Value → Option Bool
  | bool b => some b
  | _ => none

def asStr? : Value → Option String
  | str s => some s
  | _ => none

/-- The collection a value refers to. -/
def ref? : Value → Option Ref
  | collection r => some r
  | _ => none

end Value

end RegisterMachine
