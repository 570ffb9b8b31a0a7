import RegisterMachine.Value.Basic
import RegisterMachine.Value.Growable

/-!
# Shared objects

What a reference leads to: an array, a map or a record. An array keeps its elements in the form
its kind gives them, so an array of integers can hold nothing else; `ofValue?` and `toValue` go
between that form and values. Maps and records keep their entries in the order in which the keys
first came.
-/

namespace RegisterMachine

namespace ElementKind

/-- What one slot of an array of this kind holds. -/
abbrev Slot : ElementKind → Type
  | int => Int64
  | float => Float
  | string => String
  | boolean => Bool
  | blob => List UInt8
  | any => Value

instance (kind : ElementKind) : Inhabited kind.Slot :=
  match kind with
  | int => ⟨0⟩
  | float => ⟨0⟩
  | string => ⟨""⟩
  | boolean => ⟨false⟩
  | blob => ⟨[]⟩
  | any => ⟨Value.null⟩

def toValue : (kind : ElementKind) → kind.Slot → Value
  | int, i => .int i
  | float, x => .float x
  | string, s => .str s
  | boolean, b => .bool b
  | blob, bytes => .blob bytes
  | any, v => v

/-- The slot that holds a value, where the kind can hold it. -/
def ofValue? : (kind : ElementKind) → Value → Option kind.Slot
  | int, .int i => some i
  | float, .float x => some x
  | string, .str s => some s
  | boolean, .bool b => some b
  | blob, .blob bytes => some bytes
  | any, v => some v
  | _, _ => none

/-- Whether an array of this kind can store a value. -/
def accepts : ElementKind → Value → Bool
  | any, _ => true
  | int, .int _ => true
  | float, .float _ => true
  | string, .str _ => true
  | boolean, .bool _ => true
  | blob, .blob _ => true
  | _, _ => false

theorem toValue_of_ofValue? {kind : ElementKind} {v : Value} {x : kind.Slot}
    (h : kind.ofValue? v = some x) : kind.toValue x = v := by
  cases kind <;> cases v <;> simp_all [ofValue?, toValue]

theorem isSome_ofValue? (kind : ElementKind) (v : Value) :
    (kind.ofValue? v).isSome = kind.accepts v := by
  cases kind <;> cases v <;> rfl

end ElementKind

/-- What can go wrong with an array. -/
inductive ArrayError
  | index (e : IndexError)
  /-- The array stores `expected` and was given a value of type `found`. -/
  | elementType (expected : ElementKind) (found : TypeTag)
  deriving DecidableEq, Repr

structure ArrayObject where
  kind : ElementKind
  elements : Growable kind.Slot

namespace ArrayObject

def size (a : ArrayObject) : Nat := a.elements.size

def capacity (a : ArrayObject) : Nat := a.elements.capacity

/-- The elements, as values. -/
def toList (a : ArrayObject) : List Value := a.elements.toList.map a.kind.toValue

def empty (kind : ElementKind) : ArrayObject := ⟨kind, .empty⟩

/-- An array of `length` default elements. -/
def ofLength (kind : ElementKind) (length : Int64) : Except IndexError ArrayObject :=
  (Growable.ofLength length).map fun elements => ⟨kind, elements⟩

/-- An array of strings that are all given. -/
def ofStrings (items : List String) : Except IndexError ArrayObject :=
  (Growable.ofArray? items.toArray).map fun elements => ⟨.string, elements⟩

def get (a : ArrayObject) (index : Int64) : Except ArrayError Value :=
  match a.elements.get index with
  | .ok x => .ok (a.kind.toValue x)
  | .error e => .error (.index e)

/-- Writes an element. The type of the value, `tag`, matters only where the array cannot store
it, and then it is what the error reports, whatever the index. -/
def set (a : ArrayObject) (index : Int64) (v : Value) (tag : TypeTag) :
    Except ArrayError ArrayObject :=
  if a.kind.accepts v then
    match a.kind.ofValue? v with
    | none => .error (.elementType a.kind tag)
    | some x =>
        match a.elements.set index x with
        | .ok elements => .ok ⟨a.kind, elements⟩
        | .error e => .error (.index e)
  else
    .error (.elementType a.kind tag)

def push (a : ArrayObject) (v : Value) (tag : TypeTag) : Except ArrayError ArrayObject :=
  a.set (.ofNat a.size) v tag

/-- Makes room without changing any element. -/
def reserve (a : ArrayObject) (requested : UInt64) : Except ArrayError ArrayObject :=
  match a.elements.reserve requested with
  | .ok elements => .ok ⟨a.kind, elements⟩
  | .error e => .error (.index e)

/-- An array of the given elements, the first that the kind cannot store being the error. -/
def ofValues (kind : ElementKind) (items : List (Value × TypeTag)) :
    Except ArrayError ArrayObject := do
  let slots ← items.mapM fun (v, tag) =>
    match kind.ofValue? v with
    | some x => .ok x
    | none => .error (.elementType kind tag)
  match Growable.ofArray? slots.toArray with
  | .ok elements => .ok ⟨kind, elements⟩
  | .error e => .error (.index e)

/-- The elements that may refer to other objects: those of an array of any values. -/
def shared (a : ArrayObject) : List Value :=
  match a.kind with
  | .any => a.toList
  | _ => []

/-- Puts values into the first slots of an array of any values, one for one, and leaves every
other array as it is. -/
def refill (a : ArrayObject) (items : List Value) : ArrayObject :=
  match a with
  | ⟨.any, elements⟩ =>
      ⟨.any, ⟨(items ++ elements.slots.toList.drop items.length).toArray, elements.size⟩⟩
  | other => other

end ArrayObject

/-- Keys with values, in the order in which the keys first came. -/
abbrev Entries := List (String × Value)

namespace Entries

def get? (entries : Entries) (key : String) : Option Value := entries.lookup key

/-- The value of a key, null where the key is missing. -/
def get (entries : Entries) (key : String) : Value := (entries.get? key).getD .null

/-- Gives a key a value: a key that is there keeps its place, a new one goes last. -/
def insert (entries : Entries) (key : String) (v : Value) : Entries :=
  match entries with
  | [] => [(key, v)]
  | (k, old) :: rest => if k == key then (k, v) :: rest else (k, old) :: insert rest key v

def keys (entries : Entries) : List String := entries.map Prod.fst

end Entries

inductive Object
  | array (a : ArrayObject)
  | map (entries : Entries)
  | record (typeName : String) (fields : Entries)

namespace Object

instance : Inhabited Object := ⟨map []⟩

def tag : Object → TypeTag
  | array a => .array a.kind
  | map _ => .map
  | record _ _ => .record

/-- Every value the object holds that may refer to another object. -/
def values : Object → List Value
  | array a => a.shared
  | map entries => entries.map Prod.snd
  | record _ fields => fields.map Prod.snd

/-- The objects it refers to. -/
def refs (o : Object) : List Ref := o.values.filterMap Value.ref?

end Object

end RegisterMachine
