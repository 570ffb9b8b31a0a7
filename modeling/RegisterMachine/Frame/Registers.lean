import RegisterMachine.Fault

/-!
# Register banks

The registers of one frame. Every bank has its own type of slot, and a register of a bank reads and
writes slots of that type; `ofValue?` and `toValue` go between slots and values.
-/

namespace RegisterMachine

/-- What a register of a bank holds. -/
abbrev ValueBank.Slot : ValueBank → Type
  | int => Int64
  | float => Float
  | str => String
  | bool => Bool
  | ref => Value

abbrev Bank.Slot : Bank → Type
  | value b => b.Slot
  | iter => Option Iterator

namespace ValueBank

/-- What a register holds before anything is written to it. -/
def default : (b : ValueBank) → b.Slot
  | int => (0 : Int64)
  | float => (0 : Float)
  | str => ""
  | bool => false
  | ref => Value.null

def toValue : (b : ValueBank) → b.Slot → Value
  | int, i => .int i
  | float, x => .float x
  | str, s => .str s
  | bool, b => .bool b
  | ref, v => v

/-- The slot that holds a value, where the bank can hold it. -/
def ofValue? : (b : ValueBank) → Value → Option b.Slot
  | int, .int i => some i
  | float, .float x => some x
  | str, .str s => some s
  | bool, .bool b => some b
  | ref, v => some v
  | _, _ => none

/-- The bank a value goes to when nothing says which. -/
def natural : Value → ValueBank
  | .int _ => int
  | .float _ => float
  | .str _ => str
  | .bool _ => bool
  | _ => ref

theorem toValue_of_ofValue? {b : ValueBank} {v : Value} {x : b.Slot} (h : b.ofValue? v = some x) :
    b.toValue x = v := by
  cases b <;> cases v <;> simp_all [ofValue?, toValue]

end ValueBank

structure Registers where
  ints : Array Int64
  floats : Array Float
  strs : Array String
  bools : Array Bool
  refs : Array Value
  iters : Array (Option Iterator)
  deriving Repr

namespace Registers

/-- The banks of a shape, every register at its default. -/
def ofShape (shape : RegisterShape) : Registers where
  ints := Array.replicate shape.ints.toNat 0
  floats := Array.replicate shape.floats.toNat 0
  strs := Array.replicate shape.strs.toNat ""
  bools := Array.replicate shape.bools.toNat false
  refs := Array.replicate shape.refs.toNat .null
  iters := Array.replicate shape.iters.toNat none

def bank (regs : Registers) : (b : Bank) → Array b.Slot
  | .value .int => regs.ints
  | .value .float => regs.floats
  | .value .str => regs.strs
  | .value .bool => regs.bools
  | .value .ref => regs.refs
  | .iter => regs.iters

/-- Changes one bank. -/
def modify (regs : Registers) : (b : Bank) → (Array b.Slot → Array b.Slot) → Registers
  | .value .int, f => { regs with ints := f regs.ints }
  | .value .float, f => { regs with floats := f regs.floats }
  | .value .str, f => { regs with strs := f regs.strs }
  | .value .bool, f => { regs with bools := f regs.bools }
  | .value .ref, f => { regs with refs := f regs.refs }
  | .iter, f => { regs with iters := f regs.iters }

theorem bank_modify_self (regs : Registers) (b : Bank) (f : Array b.Slot → Array b.Slot) :
    (regs.modify b f).bank b = f (regs.bank b) := by
  cases b with
  | value b => cases b <;> rfl
  | iter => rfl

theorem bank_modify_of_ne (regs : Registers) {b c : Bank} (h : c ≠ b)
    (f : Array b.Slot → Array b.Slot) : (regs.modify b f).bank c = regs.bank c := by
  cases b with
  | value b =>
      cases c with
      | value c => cases b <;> cases c <;> first | rfl | exact absurd rfl h
      | iter => cases b <;> rfl
  | iter =>
      cases c with
      | value c => cases c <;> rfl
      | iter => exact absurd rfl h

theorem size_bank_ofShape (shape : RegisterShape) (b : Bank) :
    ((ofShape shape).bank b).size = (shape.count b).toNat := by
  cases b with
  | value b => cases b <;> simp [ofShape, bank, RegisterShape.count]
  | iter => simp [ofShape, bank, RegisterShape.count]

/-- What a register holds. -/
def get {b : Bank} (regs : Registers) (r : Reg b) : Except ExecutionError b.Slot :=
  match (regs.bank b)[r.index.toNat]? with
  | some x => .ok x
  | none => .error (.invalidRegister b r.index)

/-- Gives a register something else to hold. -/
def set {b : Bank} (regs : Registers) (r : Reg b) (x : b.Slot) :
    Except ExecutionError Registers :=
  if r.index.toNat < (regs.bank b).size then
    .ok (regs.modify b fun slots => slots.setIfInBounds r.index.toNat x)
  else
    .error (.invalidRegister b r.index)

/-- The collections that the registers hold. Iterators hold nothing. -/
def held (regs : Registers) : List Ref := regs.refs.toList.filterMap Value.ref?

end Registers

end RegisterMachine
