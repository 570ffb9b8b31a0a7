import Mathlib.Logic.Relation
import RegisterMachine.Proofs.Machine.Moves

/-!
# The states a worker reaches

Workers share the world, so a worker's own steps do not tell what it finds there: between two of
them the others may have done anything. `Environment.Steps` therefore lets every step happen in a
world of its own. What holds of all the states that a worker reaches this way holds under every
schedule, and in particular in the runs of `Environment.runWorker`.
-/

namespace RegisterMachine

namespace Environment

/-- One step of a worker, in whatever world it finds. -/
def Steps (env : Environment) (w w' : Worker) : Prop := ∃ world, (env.step world w).2 = w'

/-- Some steps of a worker. -/
abbrev Reaches (env : Environment) : Worker → Worker → Prop := Relation.ReflTransGen env.Steps

/-- A step of a worker that has not ended is a move, and a worker that has ended makes none. -/
theorem Steps.cases {env : Environment} {w w' : Worker} (h : env.Steps w w') :
    (w.progress = .running ∧ Moves env w.stack w'.stack w'.progress) ∨
      (w.progress ≠ .running ∧ w' = w) := by
  obtain ⟨world, rfl⟩ := h
  by_cases hp : w.progress = .running
  · exact Or.inl ⟨hp, env.step_moves world hp⟩
  · exact Or.inr ⟨hp, by rw [env.step_of_not_running world hp]⟩

/-- What every step keeps holds of every state that is reached. -/
theorem Reaches.keeps {env : Environment} {P : Worker → Prop}
    (hs : ∀ w w', P w → env.Steps w w' → P w') {w w' : Worker} (h : env.Reaches w w') (hw : P w) :
    P w' := by
  induction h with
  | refl => exact hw
  | tail _ hstep ih => exact hs _ _ ih hstep

end Environment

/-! ## A run to look at

The statements of the modules below are about runs of any code. Here is a small one to hold them
against: a main function that has another one double its argument, with a worker beside it that
hands the argument on. -/

namespace Program

def mainInfo : FunctionInfo where
  name := "main"
  package := "main"
  defaultWorker := ⟨defaultWorkerName, 0, { ints := 2 }⟩
  workers := []

def doubleInfo : FunctionInfo where
  name := "double"
  package := "main"
  defaultWorker := ⟨defaultWorkerName, 2, { ints := 1 }⟩
  workers := [⟨"echo", 3, { ints := 1 }⟩]

def doubling : Program where
  entryPackage := "main"
  packages := []
  functions := #[mainInfo, doubleInfo]
  constants := #[]
  code :=
    #[.call ⟨1⟩ [⟨.int, 0⟩] [⟨.int, 1⟩], .ret [⟨.int, 1⟩],
      .intOp .add ⟨0⟩ ⟨0⟩ ⟨0⟩, .ret [⟨.int, 0⟩]]
  lines := []

end Program

def Environment.doubling : Environment := ⟨.doubling, [], 4⟩

/-- Its worker, about to double 21. -/
def Worker.doubling : Worker :=
  .start ⟨1, ⟨0⟩, "main", defaultWorkerName⟩
    { Frame.start ⟨0⟩ Program.mainInfo.defaultWorker with
      regs := { Registers.ofShape { ints := 2 } with ints := #[21, 0] } }

/-- The worker after `n` steps on its own. -/
def Worker.afterSteps (env : Environment) (w : Worker) : Nat → Worker
  | 0 => w
  | n + 1 => (env.step (.start .empty []) (w.afterSteps env n)).2

theorem Worker.reaches_afterSteps (env : Environment) (w : Worker) (n : Nat) :
    env.Reaches w (w.afterSteps env n) := by
  induction n with
  | zero => exact .refl
  | succ n ih => exact ih.tail ⟨_, rfl⟩

theorem Worker.doubling_fresh :
    Worker.doubling.FreshOf ⟨0⟩ Program.mainInfo.defaultWorker :=
  ⟨.empty, [(.value .int, .int 21)], _, rfl, rfl⟩

end RegisterMachine
