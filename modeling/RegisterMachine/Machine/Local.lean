import RegisterMachine.Frame.Basic
import RegisterMachine.Value.Render

/-!
# Instructions within a frame

Every instruction but calls and returns works on the registers of the current frame and on at most
one object of the heap. It either succeeds, and then gives the new heap and frame, or fails with an
error and then has changed nothing.
-/

namespace RegisterMachine

namespace IntOp

/-- The result on two words. A division by zero has none. -/
def eval? : IntOp → Int64 → Int64 → Option Int64
  | add, a, b => some (a + b)
  | sub, a, b => some (a - b)
  | mul, a, b => some (a * b)
  | div, a, b => if b = 0 then none else some (a / b)
  | mod, a, b => if b = 0 then none else some (a % b)

/-- Whether the right operand is looked at first. -/
def rhsFirst : IntOp → Bool
  | div => true
  | mod => true
  | _ => false

end IntOp

def FloatOp.eval : FloatOp → Float → Float → Float
  | add, a, b => a + b
  | sub, a, b => a - b
  | mul, a, b => a * b
  | div, a, b => a / b

def IntComparison.eval : IntComparison → Int64 → Int64 → Bool
  | less, a, b => decide (a < b)
  | lessOrEqual, a, b => decide (a ≤ b)
  | equal, a, b => decide (a = b)

namespace Heap

/-- The array a value refers to. -/
def expectArray (h : Heap) (v : Value) : Except ExecutionError (Ref × ArrayObject) :=
  match v, h.object? v with
  | _, some (r, .array a) => .ok (r, a)
  | .null, _ => .error .nullReference
  | _, _ => .error (.typeMismatch .array (h.tag v))

/-- The map a value refers to. -/
def expectMap (h : Heap) (v : Value) : Except ExecutionError (Ref × Entries) :=
  match v, h.object? v with
  | _, some (r, .map entries) => .ok (r, entries)
  | .null, _ => .error .nullReference
  | _, _ => .error (.typeMismatch .map (h.tag v))

/-- The record a value refers to, with its type name and fields. -/
def expectRecord (h : Heap) (v : Value) : Except ExecutionError (Ref × String × Entries) :=
  match v, h.object? v with
  | _, some (r, .record typeName fields) => .ok (r, typeName, fields)
  | .null, _ => .error .nullReference
  | _, _ => .error (.typeMismatch .record (h.tag v))

/-- The number of elements, characters or bytes. A range longer than the greatest integer counts
as that long. -/
def lengthOf (h : Heap) (v : Value) : Except ExecutionError Int64 :=
  match v, h.object? v with
  | _, some (_, .array a) => .ok (.ofNat a.size)
  | _, some (_, .map entries) => .ok (.ofNat entries.length)
  | .range r, _ => .ok (.ofNat (min r.length Int64.maxValue.toInt.toNat))
  | .str s, _ => .ok (.ofNat s.length)
  | .blob bytes, _ => .ok (.ofNat bytes.length)
  | .null, _ => .error .nullReference
  | _, _ => .error (.typeMismatch .collection (h.tag v))

/-- The error value that throwing a value raises. -/
def thrown (h : Heap) (v : Value) : ExecutionError :=
  match v with
  | .error e => .raised e
  | .null => .nullReference
  | v => .raised { message := h.text v }

end Heap

/-- An array error as an execution error. -/
def ExecutionError.ofArray {α : Type} (x : Except ArrayError α) : Except ExecutionError α :=
  x.mapError .array

namespace Frame

/-- Puts a fresh object into a register. -/
def setNew (h : Heap) (f : Frame) (o : Object) (dst : RefReg) :
    Except ExecutionError (Heap × Frame) := do
  let (h, r) := h.alloc o
  let f ← f.set dst (Value.collection r)
  .ok (h, f)

/-- Runs an instruction other than a call or a return, which are left to the machine and here do
nothing. `isHeld` tells which objects are still held. -/
def exec (p : Program) (isHeld : Ref → Bool) (h : Heap) (f : Frame) (i : Instruction) :
    Except ExecutionError (Heap × Frame) :=
  let keep (f : Except ExecutionError Frame) : Except ExecutionError (Heap × Frame) :=
    f.map (h, ·)
  match i with
  | .nop => .ok (h, f)
  | .intConst dst value => keep (f.set dst value)
  | .floatConst dst value => keep (f.set dst value)
  | .boolConst dst value => keep (f.set dst value)
  | .strConst dst index =>
      match p.constant? index with
      | some s => keep (f.set dst s)
      | none => .error (.invalidConstant index)
  | .null dst => keep (f.set dst Value.null)
  | .move src dst => do
      let v ← f.read src
      keep (f.write h dst v)
  | .intOp op lhs rhs dst =>
      if op.rhsFirst then do
        let b ← f.get rhs
        if b = 0 then .error .divisionByZero else
        let a ← f.get lhs
        match op.eval? a b with
        | some c => keep (f.set dst c)
        | none => .error .divisionByZero
      else do
        let a ← f.get lhs
        let b ← f.get rhs
        match op.eval? a b with
        | some c => keep (f.set dst c)
        | none => .error .divisionByZero
  | .floatOp op lhs rhs dst => do
      let a ← f.get lhs
      let b ← f.get rhs
      keep (f.set dst (op.eval a b))
  | .intCompare op lhs rhs dst => do
      let a ← f.get lhs
      let b ← f.get rhs
      keep (f.set dst (op.eval a b))
  | .floatLess lhs rhs dst => do
      let a : Float ← f.get lhs
      let b : Float ← f.get rhs
      keep (f.set dst (decide (a < b)))
  | .strEqual lhs rhs dst => do
      let a : String ← f.get lhs
      let b : String ← f.get rhs
      keep (f.set dst (decide (a = b)))
  | .concat lhs rhs dst => do
      let a : String ← f.get lhs
      let b : String ← f.get rhs
      keep (f.set dst (a ++ b))
  | .not src dst => do
      let a : Bool ← f.get src
      keep (f.set dst (!a))
  | .goto target => .ok (h, { f with ip := target })
  | .branch when cond target => do
      let c : Bool ← f.get cond
      .ok (h, if c = when then { f with ip := target } else f)
  | .newArray kind length dst =>
      match length with
      | some r => do
          let n ← f.get r
          match ArrayObject.ofLength kind n with
          | .ok a => f.setNew h (.array a) dst
          | .error e => .error (.array (.index e))
      | none => f.setNew h (.array (.empty kind)) dst
  | .arrayLoad array index dst => do
      let (_, a) ← h.expectArray (← f.get array)
      let index ← f.get index
      let v ← ExecutionError.ofArray (a.get index)
      keep (f.write h dst v)
  | .arrayStore array index src => do
      let (r, a) ← h.expectArray (← f.get array)
      let v ← f.read src
      let index ← f.get index
      let h ← ExecutionError.ofArray (h.setElement r a index v)
      .ok (h, f)
  | .length src dst => do
      let n ← h.lengthOf (← f.get src)
      keep (f.set dst n)
  | .newMap dst => f.setNew h (.map []) dst
  | .mapStore map key src => do
      let (r, entries) ← h.expectMap (← f.get map)
      let v ← f.read src
      let key ← f.get key
      .ok (h.set r (.map (entries.insert key v)), f)
  | .mapLoad map key dst => do
      let (_, entries) ← h.expectMap (← f.get map)
      let key ← f.get key
      keep (f.write h dst (entries.get key))
  | .newRecord typeName dst => f.setNew h (.record typeName []) dst
  | .fieldStore record field src => do
      let (r, typeName, fields) ← h.expectRecord (← f.get record)
      let v ← f.read src
      .ok (h.set r (.record typeName (fields.insert field v)), f)
  | .fieldLoad record field dst => do
      let (_, _, fields) ← h.expectRecord (← f.get record)
      keep (f.write h dst (fields.get field))
  | .newRange first last dst => do
      let a ← f.get first
      let b ← f.get last
      keep (f.set dst (Value.range ⟨a, b⟩))
  | .iterNew collection iter => do
      let v ← f.get collection
      if v.isNull then .error .nullReference else
      match Iterator.over? h v with
      | some it => keep (f.set iter (some it))
      | none => .error (.notACollection (h.tag v))
  | .iterHasNext iter dst => do
      let it ← f.iterator iter
      keep (f.set dst (it.hasNext isHeld))
  | .iterNext iter dsts =>
      match Arity.ofWidth? dsts.length with
      | none => .error (.iterator (.invalidArity dsts.length))
      | some arity => do
          let it ← f.iterator iter
          match it.next h isHeld arity with
          | .error e => .error (.iterator e)
          | .ok (values, it) => do
              let f ← f.set iter (some it)
              keep (f.writeZip h dsts values)
  | .newError message dst => do
      let message : String ← f.get message
      keep (f.set dst (Value.error { message }))
  | .throw error => do
      let v ← f.get error
      .error (h.thrown v)
  | .call .. | .nativeCall .. | .ret .. => .ok (h, f)

end Frame

end RegisterMachine
