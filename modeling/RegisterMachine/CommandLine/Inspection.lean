import RegisterMachine.Program.Basic

/-!
# Listing a program

The packages, functions and workers of a program, and how much there is of the rest.
-/

namespace RegisterMachine.Program

/-- The line of a package. An init function is named if it is there. -/
def packageLine (p : Program) (package : PackageInfo) : String :=
  match package.initFunction.bind p.function? with
  | some init => "  package " ++ package.name ++ " (init: " ++ init.name ++ ")"
  | none => "  package " ++ package.name

def workerLine (w : WorkerInfo) : String :=
  "      worker " ++ w.name ++ " @" ++ toString w.entry

/-- The lines of a function and of its named workers. -/
def functionLines (f : FunctionInfo) (index : Nat) : List String :=
  ("  #" ++ toString index ++ " " ++ f.package ++ "." ++ f.name ++ " @" ++
    toString f.defaultWorker.entry) :: f.workers.map workerLine

def summaryLine (p : Program) : String :=
  toString p.code.size ++ " instruction(s), " ++ toString p.constants.size ++ " constant(s), " ++
    toString p.lines.length ++ " line entries"

/-- The whole listing. -/
def inspection (p : Program) : List String :=
  ["Entry package: " ++ p.entryPackage] ++ p.packages.map p.packageLine ++ ["", "Functions:"] ++
    (p.functions.toList.zipIdx.flatMap fun (f, i) => functionLines f i) ++ ["", p.summaryLine]

end RegisterMachine.Program
