import RegisterMachine.Proofs.Frame.Refusals
import RegisterMachine.Proofs.Machine.Faults
import RegisterMachine.Proofs.Machine.Reach

/-!
# Division and its remainder

Words wrap, and one quotient needs it: the least word divided by -1 is greater than every word. The quotient
and the remainder of two words still make up the word that was divided. No bound enters into that: on
numbers they do so exactly, and words are numbers but for multiples of the number of words
(`word_div_mul_add_mod`).

**`Environment.division_undone`** says so of workers. What an operation comes to is told there by its operands
alone: `Environment.Computes` and `Environment.Rejects` are about every worker that comes to such an
operation, whatever its program and its registers.
-/

namespace RegisterMachine

/-! ## On words -/

theorem word_div_mul_add_mod (a b : Int64) : a / b * b + a % b = a := by
  rw [← Int64.toInt_inj]
  calc (a / b * b + a % b).toInt
      = Int.bmod (Int.bmod (Int.bmod (a.toInt.tdiv b.toInt) (2 ^ 64) * b.toInt) (2 ^ 64)
          + a.toInt.tmod b.toInt) (2 ^ 64) := by
        rw [Int64.toInt_add, Int64.toInt_mul, Int64.toInt_div, Int64.toInt_mod]
    _ = Int.bmod (a.toInt.tdiv b.toInt * b.toInt + a.toInt.tmod b.toInt) (2 ^ 64) := by
        rw [Int.bmod_mul_bmod, Int.bmod_add_bmod]
    _ = Int.bmod a.toInt (2 ^ 64) := by rw [Int.tdiv_mul_add_tmod]
    _ = a.toInt := a.toInt_bmod

theorem word_natAbs_mod_lt (a : Int64) {b : Int64} (hb : b ≠ 0) :
    (a % b).toInt.natAbs < b.toInt.natAbs := by
  have hpos : 0 < b.toInt.natAbs := Int.natAbs_pos.mpr fun hzero => hb (Int64.toInt_inj.mp hzero)
  rw [Int64.toInt_mod, Int.natAbs_tmod]
  exact Nat.mod_lt _ hpos

theorem word_sign_mod (a b : Int64) : a % b = 0 ∨ (a % b).toInt.sign = a.toInt.sign := by
  by_cases hdvd : b.toInt ∣ a.toInt
  · refine .inl (Int64.toInt_inj.mp ?_)
    rw [Int64.toInt_mod]
    exact Int.tmod_eq_zero_of_dvd hdvd
  · refine .inr ?_
    rw [Int64.toInt_mod, Int.sign_tmod, if_neg hdvd]

/-! ## Of workers -/

namespace Frame

variable {f : Frame} {lhs rhs : IntReg} {a b : Int64}

/-- Which operand is looked at first makes no difference where both are there. -/
theorem exec_intOp (p : Program) (isHeld : Ref → Bool) (h : Heap) (op : IntOp) (dst : IntReg)
    (ha : f.get lhs = .ok a) (hb : f.get rhs = .ok b) :
    f.exec p isHeld h (.intOp op lhs rhs dst) =
      match op.eval? a b with
      | some c => (f.set dst c).map (h, ·)
      | none => .error .divisionByZero := by
  cases op with
  | add | sub | mul =>
    simp only [exec, IntOp.rhsFirst, ha, hb, Bind.bind, Except.bind]
    rfl
  | div | mod =>
    simp only [exec, IntOp.rhsFirst, ha, hb, Bind.bind, Except.bind]
    by_cases hzero : b = 0
    · simp [hzero, IntOp.eval?]
    · simp [hzero, IntOp.eval?]

end Frame

namespace Environment

variable {env : Environment} {op : IntOp} {a b c : Int64}

/-- Whichever worker comes to this operation with `a` and `b` in its operands and a register for the result
goes on with `c` in that register, and with everything else as it was. -/
def Computes (env : Environment) (op : IntOp) (a b c : Int64) : Prop :=
  ∀ (world : World) (w : Worker) (f : Frame) (below : CallStack) (lhs rhs dst : IntReg),
    w.At env.program f below (.intOp op lhs rhs dst) → f.get lhs = .ok a → f.get rhs = .ok b →
    f.Has dst.place →
    ∃ g, env.step world w = (world, { w with stack := g :: below }) ∧
      f.past.AgreesOff [dst.place] g ∧ g.ip = f.ip + 1 ∧ g.get dst = .ok c

/-- Whichever worker comes to this operation with `a` and `b` in its operands fails with a division by zero. -/
def Rejects (env : Environment) (op : IntOp) (a b : Int64) : Prop :=
  ∀ (world : World) (w : Worker) (f : Frame) (below : CallStack) (lhs rhs dst : IntReg),
    w.At env.program f below (.intOp op lhs rhs dst) → f.get lhs = .ok a → f.get rhs = .ok b →
    env.step world w = (world, w.failed env.program .divisionByZero)

theorem computes_of_eval? (env : Environment) (h : op.eval? a b = some c) : env.Computes op a b c := by
  intro world w f below lhs rhs dst hat ha hb hdst
  have hexec := Frame.exec_intOp (f := f.past) env.program (world.isHeld (f.past :: below))
    world.store.heap op dst ha hb
  have hset := f.past.set_meets dst c
  have hx := env.execute_local world w.info f.past below (i := .intOp op lhs rhs dst) rfl
  rw [hexec, h] at hx
  dsimp only at hx
  cases hg : f.past.set dst c with
  | error e =>
    obtain ⟨hlacks, -⟩ := (f.past.set_has dst c).of_error hg
    exact absurd hdst hlacks
  | ok g =>
    obtain ⟨hoff, hip, hget⟩ := hset.of_ok hg
    rw [hg] at hx
    exact ⟨g, step_of_goOn hat hx, hoff, hip, hget⟩

theorem rejects_of_eval? (env : Environment) (h : op.eval? a b = none) : env.Rejects op a b := by
  intro world w f below lhs rhs dst hat ha hb
  rw [step_failed_iff hat rfl, Frame.exec_intOp (f := f.past) _ _ _ op dst ha hb, h]

/-- **What a division takes apart goes together again.** Dividing by zero fails, and so does asking for the
remainder. By any other word both go through: the quotient is the one rounded toward zero, as far as a word
goes, and the remainder is smaller than the divisor and on the side of what was divided. The quotient times
the divisor, and the remainder added, is what was divided. -/
theorem division_undone (env : Environment) (a b : Int64) :
    (b = 0 → env.Rejects .div a b ∧ env.Rejects .mod a b) ∧
    (b ≠ 0 → ∃ quotient remainder product : Int64,
      env.Computes .div a b quotient ∧
      quotient.toInt = Int.bmod (a.toInt.tdiv b.toInt) (2 ^ 64) ∧
      env.Computes .mod a b remainder ∧
      remainder.toInt.natAbs < b.toInt.natAbs ∧
      (remainder = 0 ∨ remainder.toInt.sign = a.toInt.sign) ∧
      env.Computes .mul quotient b product ∧
      env.Computes .add product remainder a) := by
  constructor
  · rintro rfl
    exact ⟨env.rejects_of_eval? rfl, env.rejects_of_eval? rfl⟩
  · intro hb
    have hdiv : IntOp.div.eval? a b = some (a / b) := if_neg hb
    have hmod : IntOp.mod.eval? a b = some (a % b) := if_neg hb
    have hadd : IntOp.add.eval? (a / b * b) (a % b) = some a := congrArg some (word_div_mul_add_mod a b)
    exact ⟨a / b, a % b, a / b * b, env.computes_of_eval? hdiv, Int64.toInt_div a b,
      env.computes_of_eval? hmod, word_natAbs_mod_lt a hb, word_sign_mod a b,
      env.computes_of_eval? rfl, env.computes_of_eval? hadd⟩

end Environment

/-! A worker that divides the least word by -1. -/

def Environment.dividing : Environment where
  program := { Program.doubling with code := #[.intOp .div ⟨0⟩ ⟨1⟩ ⟨2⟩] }
  natives := []
  maxDepth := 4

def Frame.dividing : Frame :=
  { Frame.start ⟨0⟩ Program.mainInfo.defaultWorker with
    regs := { Registers.ofShape { ints := 3 } with ints := #[Int64.minValue, -1, 0] } }

def Worker.dividing : Worker := .start ⟨1, ⟨0⟩, "main", defaultWorkerName⟩ .dividing

/-- The quotient is beyond the words and comes round to the least one again. -/
theorem Environment.dividing_wraps :
    (-1 : Int64) ≠ 0 ∧
      (∃ g, dividing.step (.start .empty []) .dividing
          = (.start .empty [], { Worker.dividing with stack := [g] }) ∧
        g.get (⟨2⟩ : IntReg) = .ok Int64.minValue) ∧
      ∃ product, dividing.Computes .mul Int64.minValue (-1) product ∧
        dividing.Computes .add product 0 Int64.minValue := by
  have hne : (-1 : Int64) ≠ 0 := by decide
  obtain ⟨quotient, remainder, product, hdiv, hquotient, -, hless, -, hmul, hadd⟩ :=
    (division_undone dividing Int64.minValue (-1)).2 hne
  have hleast : quotient = Int64.minValue := Int64.toInt_inj.mp hquotient
  have hzero : remainder = 0 := by
    have hone : (-1 : Int64).toInt.natAbs = 1 := by decide
    rw [hone] at hless
    exact Int64.toInt_inj.mp (Int.natAbs_eq_zero.mp (Nat.lt_one_iff.mp hless))
  subst hleast hzero
  have hroom : Frame.dividing.Has (⟨2⟩ : IntReg).place := Nat.lt_succ_self 2
  obtain ⟨g, hstep, -, -, hget⟩ := hdiv (.start .empty []) .dividing .dividing [] ⟨0⟩ ⟨1⟩ ⟨2⟩
    ⟨rfl, rfl, rfl⟩ rfl rfl hroom
  exact ⟨hne, ⟨g, hstep, hget⟩, product, hmul, hadd⟩

end RegisterMachine
