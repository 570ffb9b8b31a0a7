import RegisterMachine.Frame.Registers
import RegisterMachine.Value.Heap

/-!
# Frames

A frame is one activation of a function: its registers, the next instruction, and where to go on
in the caller and with which of its registers when the function returns.
-/

namespace RegisterMachine

structure Frame where
  function : FunctionId
  worker : String
  /-- The next instruction. -/
  ip : Nat
  /-- Where the worker's code starts. -/
  entry : Nat
  /-- Where the caller goes on. The bottom frame has no caller. -/
  returnTo : Option Nat
  /-- The registers of the caller that take the results. -/
  rets : List AnyReg
  regs : Registers
  deriving Repr

namespace Frame

/-- A frame at the start of a worker's code, with no caller. -/
def start (function : FunctionId) (worker : WorkerInfo) : Frame where
  function := function
  worker := worker.name
  ip := worker.entry
  entry := worker.entry
  returnTo := none
  rets := []
  regs := .ofShape worker.registers

/-- The same frame as a callee. -/
def returningTo (f : Frame) (returnTo : Nat) (rets : List AnyReg) : Frame :=
  { f with returnTo := some returnTo, rets }

def get {b : Bank} (f : Frame) (r : Reg b) : Except ExecutionError b.Slot := f.regs.get r

def set {b : Bank} (f : Frame) (r : Reg b) (x : b.Slot) : Except ExecutionError Frame :=
  (f.regs.set r x).map fun regs => { f with regs }

/-- The iterator in a register, where one has been put there. -/
def iterator (f : Frame) (r : IterReg) : Except ExecutionError Iterator := do
  match ← f.get r with
  | some it => .ok it
  | none => .error (.uninitializedIterator r.index)

/-- The value in a register. -/
def read (f : Frame) (r : AnyReg) : Except ExecutionError Value :=
  (f.get r.reg).map r.bank.toValue

/-- Puts a value into a register, which must be of a bank that can hold it. The heap only says
what type a misplaced value has. -/
def write (h : Heap) (f : Frame) (r : AnyReg) (v : Value) : Except ExecutionError Frame :=
  match r.bank.ofValue? v with
  | some x => f.set r.reg x
  | none => .error (.typeMismatch (.bank r.bank) (h.tag v))

def writeDefault (f : Frame) (r : AnyReg) : Except ExecutionError Frame :=
  f.set r.reg r.bank.default

/-- The values in some registers. -/
def readAll (f : Frame) (regs : List AnyReg) : Except ExecutionError (List Value) :=
  regs.mapM f.read

/-- Puts values into registers one for one. Registers left over take their default, values left
over go nowhere. -/
def writeAll (h : Heap) (f : Frame) : List AnyReg → List Value → Except ExecutionError Frame
  | [], _ => .ok f
  | r :: rs, [] => do writeAll h (← f.writeDefault r) rs []
  | r :: rs, v :: vs => do writeAll h (← f.write h r v) rs vs

/-- Puts values into as many registers as there are, and no further. -/
def writeZip (h : Heap) (f : Frame) : List AnyReg → List Value → Except ExecutionError Frame
  | r :: rs, v :: vs => do writeZip h (← f.write h r v) rs vs
  | _, _ => .ok f

/-- Puts arguments into registers, `next` telling which register of each bank is due: the frame, and
what is wrong with the first argument that has no place. Those before it stay where they are. -/
def bindFrom (h : Heap) (next : ValueBank → UInt16) (f : Frame) :
    List (Bank × Value) → Frame × Option ExecutionError
  | [] => (f, none)
  | (.iter, v) :: _ => (f, some (.typeMismatch .value (h.tag v)))
  | (.value b, v) :: rest =>
      match f.write h ⟨b, next b⟩ v with
      | .error e => (f, some e)
      | .ok f => bindFrom h (fun c => if c = b then next c + 1 else next c) f rest

/-- Puts arguments into registers, each into the next of its bank, as far as they have a place. -/
def fill (h : Heap) (f : Frame) (args : List (Bank × Value)) : Frame × Option ExecutionError :=
  f.bindFrom h (fun _ => 0) args

/-- Puts arguments into registers, each into the next of its bank. -/
def bind (h : Heap) (f : Frame) (args : List (Bank × Value)) : Except ExecutionError Frame :=
  match f.fill h args with
  | (f, none) => .ok f
  | (_, some e) => .error e

/-- Arguments, each for the bank it goes to by nature. -/
def naturalArgs (values : List Value) : List (Bank × Value) :=
  values.map fun v => (.value (.natural v), v)

end Frame

/-- The frames of one worker, innermost first. -/
abbrev CallStack := List Frame

namespace CallStack

/-- What a stack trace says about a frame. The frame has already moved past the instruction it is
at, unless it is still at its first. -/
def entryOf (p : Program) (f : Frame) : TraceEntry where
  function := ((p.function? f.function).map FunctionInfo.name).getD f.function.render
  worker := f.worker
  position := p.position? (max (f.ip - 1) f.entry)

def trace (p : Program) (stack : CallStack) : List TraceEntry := stack.map (entryOf p)

end CallStack

end RegisterMachine
