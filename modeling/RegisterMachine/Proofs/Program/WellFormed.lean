import RegisterMachine.Proofs.Frame.Arguments
import RegisterMachine.Proofs.Program.Operands

/-!
# Well-formed code

Nothing in a program says that its code stays inside itself or names registers that are there. A
program is **well formed** when both hold of what its workers can come to: `Program.Comes` is the set
of offsets that code leads to from a worker's first, and `WorkerInfo.Admits` is what is asked of the
instruction at each of them.

The set is taken along the control flow of one frame, so a call goes on behind itself, and both ways
out of a branch count whatever its condition. That makes well-formedness a condition on the code alone,
which a list of offsets can certify: `WorkerInfo.WellFormed.of_region` asks for finitely many checks, and
all of them can be computed.
-/

namespace RegisterMachine

/-- The offsets that code leads to from `entry` on. -/
inductive Program.Comes (p : Program) (entry : Nat) : Nat → Prop
  | entry : Comes p entry entry
  | next {ip n : Nat} {i : Instruction} (h : Comes p entry ip)
      (hi : p.instruction? ip = some i) (hn : n ∈ i.targets (ip + 1)) : Comes p entry n

/-- A function that is there to be called has room for the arguments in all its workers. -/
def Instruction.ArgsFit (p : Program) : Instruction → Prop
  | .call id args _ => ∀ info ∈ p.function? id, ∀ w ∈ info.defaultWorker :: info.workers,
      w.registers.Takes (args.map fun r => .value r.bank)
  | _ => True

/-- The worker has all registers that the instruction names, and a call's arguments fit. -/
def WorkerInfo.Admits (p : Program) (w : WorkerInfo) (i : Instruction) : Prop :=
  (∀ q ∈ i.places, q.2 < (w.registers.count q.1).toNat) ∧ i.ArgsFit p

/-- Wherever the worker comes to, there is an instruction and the worker admits it. -/
def WorkerInfo.WellFormed (p : Program) (w : WorkerInfo) : Prop :=
  ∀ ip, p.Comes w.entry ip → ∃ i, p.instruction? ip = some i ∧ w.Admits p i

/-- The worker is a default or a named worker of a function of the program. -/
def Program.HasWorker (p : Program) (w : WorkerInfo) : Prop :=
  ∃ info ∈ p.functions, w ∈ info.defaultWorker :: info.workers

def Program.WellFormed (p : Program) : Prop := ∀ w, p.HasWorker w → w.WellFormed p

theorem Program.HasWorker.of_function? {p : Program} {id : FunctionId} {info : FunctionInfo}
    {w : WorkerInfo} (hf : p.function? id = some info)
    (hw : w ∈ info.defaultWorker :: info.workers) : p.HasWorker w :=
  ⟨info, Array.mem_of_getElem? hf, hw⟩

/-! ## Checking it -/

instance (shape : RegisterShape) (banks : List Bank) : Decidable (shape.Takes banks) :=
  decidable_of_iff (∀ b ∈ ValueBank.all, banks.count (.value b) ≤ (shape.count (.value b)).toNat)
    ⟨fun h b => h b (by cases b <;> decide), fun h b _ => h b⟩

instance (p : Program) (i : Instruction) : Decidable (i.ArgsFit p) := by
  cases i <;> unfold Instruction.ArgsFit <;> infer_instance

instance (p : Program) (w : WorkerInfo) (i : Instruction) : Decidable (w.Admits p i) :=
  inferInstanceAs (Decidable (_ ∧ _))

/-- A list of offsets that code does not lead out of certifies a worker. -/
theorem WorkerInfo.WellFormed.of_region {p : Program} {w : WorkerInfo} (region : List Nat)
    (he : w.entry ∈ region)
    (h : ∀ ip ∈ region, ∃ i ∈ p.instruction? ip, w.Admits p i ∧ ∀ n ∈ i.targets (ip + 1), n ∈ region) :
    w.WellFormed p := by
  intro ip hc
  have hr : ip ∈ region := by
    induction hc with
    | entry => exact he
    | next _ hi hn ih =>
      obtain ⟨i, hi', -, ht⟩ := h _ ih
      rw [hi, Option.mem_some] at hi'
      subst hi'
      exact ht _ hn
  obtain ⟨i, hi, ha, -⟩ := h ip hr
  exact ⟨i, hi, ha⟩

end RegisterMachine
