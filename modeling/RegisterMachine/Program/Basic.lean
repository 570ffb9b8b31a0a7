import RegisterMachine.Program.Instruction

/-!
# Programs

A program as it is run: functions that name where their code starts and how many registers it
needs, the code itself, its string constants, and which source lines it came from.
-/

namespace RegisterMachine

/-- How many registers of each bank a frame has. -/
structure RegisterShape where
  ints : UInt16 := 0
  floats : UInt16 := 0
  strs : UInt16 := 0
  bools : UInt16 := 0
  refs : UInt16 := 0
  iters : UInt16 := 0
  deriving DecidableEq, Repr

def RegisterShape.count (shape : RegisterShape) : Bank → UInt16
  | .value .int => shape.ints
  | .value .float => shape.floats
  | .value .str => shape.strs
  | .value .bool => shape.bools
  | .value .ref => shape.refs
  | .iter => shape.iters

/-- The name of a worker that is given none. Stack traces leave it out. -/
def defaultWorkerName : String := "default"

/-- A worker: where its code starts and what registers it needs. -/
structure WorkerInfo where
  name : String
  entry : Nat
  registers : RegisterShape
  deriving DecidableEq, Repr

structure FunctionInfo where
  name : String
  package : String
  /-- Runs in the caller's stead. -/
  defaultWorker : WorkerInfo
  /-- Started beside the default worker, each on its own. -/
  workers : List WorkerInfo
  deriving DecidableEq, Repr

structure PackageInfo where
  name : String
  /-- Run once before the program's main function. -/
  initFunction : Option FunctionId
  deriving DecidableEq, Repr

structure SourcePos where
  source : String
  line : UInt32
  deriving DecidableEq, Repr

def SourcePos.render (p : SourcePos) : String := p.source ++ ":" ++ toString p.line.toNat

/-- The source position of the code from `ip` on. -/
structure LineEntry where
  ip : Nat
  pos : SourcePos
  deriving DecidableEq, Repr

structure Program where
  /-- The package whose `main` is run. -/
  entryPackage : String
  packages : List PackageInfo
  functions : Array FunctionInfo
  constants : Array String
  code : Array Instruction
  /-- In the order of their offsets; entries for the same offset as they were written. -/
  lines : List LineEntry
  deriving DecidableEq, Repr

namespace Program

/-- Brings line entries into order. -/
def sortLines (lines : List LineEntry) : List LineEntry :=
  lines.mergeSort fun a b => a.ip ≤ b.ip

def function? (p : Program) (id : FunctionId) : Option FunctionInfo :=
  p.functions[id.index.toNat]?

/-- The first function that satisfies a condition, with its id. -/
def find? (p : Program) (cond : FunctionInfo → Bool) : Option (FunctionId × FunctionInfo) := do
  let i ← p.functions.findIdx? cond
  let f ← p.functions[i]?
  some (⟨.ofNat i⟩, f)

/-- The function of a name in the entry package, or else the first of that name. -/
def findFunction? (p : Program) (name : String) : Option (FunctionId × FunctionInfo) :=
  (p.find? fun f => f.name == name && f.package == p.entryPackage) <|>
    p.find? fun f => f.name == name

/-- The function the program starts with. -/
def mainFunction? (p : Program) : Option (FunctionId × FunctionInfo) :=
  p.find? fun f => f.name == "main" && f.package == p.entryPackage

def instruction? (p : Program) (ip : Nat) : Option Instruction := p.code[ip]?

def constant? (p : Program) (index : Nat) : Option String := p.constants[index]?

/-- The source position of the instruction at `ip`: that of the last entry that is not past it. -/
def position? (p : Program) (ip : Nat) : Option SourcePos :=
  (p.lines.takeWhile fun entry => entry.ip ≤ ip).getLast?.map LineEntry.pos

end Program

end RegisterMachine
