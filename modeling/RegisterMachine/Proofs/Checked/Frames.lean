import RegisterMachine.Proofs.Checked.Objects
import RegisterMachine.Proofs.Frame.Arguments
import RegisterMachine.Proofs.Machine.Local

/-!
# Instructions within a frame, with every check

Arguments are counted bank by bank, and the counters are as wide as a register number is. They do not
overflow, since a counter goes up only after it was the number of a register that the bank has, and no
bank has more registers than there are numbers (`Frame.bindChecked_safe`).

An instruction relies on more: on the arrays of the heap, which it keeps sound (`Frame.exec_sound`), and on
how far the iterators of the frame have got, which it takes one further at most (`Frame.exec_within`). Given
these, **`Frame.execChecked_safe`**: every operation that it uses has a result. A call or a return is none of
the instructions that are run within a frame.
-/

namespace RegisterMachine

open Checked

/-! ## Arguments -/

/-- Where the counter of a bank stands. -/
def Bank.ordinal : Bank → Nat
  | .value .int => 0
  | .value .float => 1
  | .value .str => 2
  | .value .bool => 3
  | .value .ref => 4
  | .iter => 5

theorem Bank.ordinal_lt (b : Bank) : b.ordinal < 6 := by
  cases b with
  | value b => cases b <;> decide
  | iter => decide

theorem Bank.ordinal_injective {b c : Bank} (h : b.ordinal = c.ordinal) : b = c := by
  revert h
  cases b with
  | value b => cases c with
    | value c => cases b <;> cases c <;> decide
    | iter => cases b <;> decide
  | iter => cases c with
    | value c => cases c <;> decide
    | iter => exact fun _ => rfl

namespace Frame

/-- Puts arguments into registers. The counter of a bank must be there, and is counted up once its
register has been written. -/
def bindFromChecked (h : Heap) (next : Array UInt16) (f : Frame) :
    List (Bank × Value) → Checked ExecutionError Frame
  | [] => pure f
  | (b, v) :: rest => do
      let due ← .must next[b.ordinal]?
      match b with
      | .iter => throw (.typeMismatch .value (h.tag v))
      | .value b => do
          let f ← .lift (f.write h ⟨b, due⟩ v)
          let after ← .must (register? (due.toNat + 1))
          let next ← .must (put? next (Bank.value b).ordinal after)
          bindFromChecked h next f rest

/-- Puts arguments into registers, each into the next of its bank. -/
def bindChecked (h : Heap) (f : Frame) (args : List (Bank × Value)) :
    Checked ExecutionError Frame :=
  f.bindFromChecked h (.replicate 6 0) args

/-- What is bound, or else what is wrong. -/
def bound : Frame × Option ExecutionError → Except ExecutionError Frame
  | (f, none) => .ok f
  | (_, some e) => .error e

theorem bind_eq_bound (h : Heap) (f : Frame) (args : List (Bank × Value)) :
    f.bind h args = bound (f.bindFrom h (fun _ => 0) args) := by
  unfold bind fill
  generalize f.bindFrom h (fun _ => 0) args = filled
  obtain ⟨g, error⟩ := filled
  cases error <;> rfl

/-- A register that was written is there. -/
theorem write_has (h : Heap) (f : Frame) (r : AnyReg) (v : Value) :
    Meets (fun _ => f.Has r.place) (fun _ => True) (f.write h r v) := by
  unfold write set Registers.set
  cases r.bank.ofValue? v with
  | none => exact trivial
  | some x =>
    dsimp only
    split
    · rename_i hlt
      exact hlt
    · exact trivial

/-- The counters count, each in its place. -/
structure Counts (counters : Array UInt16) (next : ValueBank → UInt16) : Prop where
  size : counters.size = 6
  due (b : ValueBank) : counters[(Bank.value b).ordinal]? = some (next b)

theorem Counts.up {counters : Array UInt16} {next : ValueBank → UInt16} (hc : Counts counters next)
    (b : ValueBank) (x : UInt16) :
    Counts (counters.setIfInBounds (Bank.value b).ordinal x) (fun c => if c = b then x else next c) where
  size := Array.size_setIfInBounds.trans hc.size
  due c := by
    have hlt := hc.size ▸ (Bank.value b).ordinal_lt
    by_cases hcb : c = b
    · subst hcb
      rw [if_pos rfl, Array.getElem?_setIfInBounds_self_of_lt hlt]
    · have hne : (Bank.value b).ordinal ≠ (Bank.value c).ordinal := fun he =>
        hcb (Bank.value.inj (Bank.ordinal_injective he)).symm
      rw [if_neg hcb, Array.getElem?_setIfInBounds_ne hne, hc.due c]

theorem Counts.congr {counters : Array UInt16} {next next' : ValueBank → UInt16}
    (hc : Counts counters next) (hn : ∀ b, next b = next' b) : Counts counters next' :=
  ⟨hc.size, fun b => hn b ▸ hc.due b⟩

/-- The frame is as it was but for registers that hold values. -/
def KeepsIterators (f g : Frame) : Prop := ∃ ps, f.AgreesOff ps g ∧ ∀ p ∈ ps, p.1 ≠ .iter

theorem KeepsIterators.trans {f g k : Frame} (h : f.KeepsIterators g) (h' : g.KeepsIterators k) :
    f.KeepsIterators k := by
  obtain ⟨ps, hg, hps⟩ := h
  obtain ⟨qs, hk, hqs⟩ := h'
  exact ⟨ps ++ qs, hg.trans hk, fun p hp => (List.mem_append.mp hp).elim (hps p) (hqs p)⟩

/-- A write to registers that hold values keeps to them. -/
theorem KeepsIterators.of_agreesOff {f g : Frame} {rs : List AnyReg}
    (h : f.AgreesOff (rs.map AnyReg.place) g) : f.KeepsIterators g := by
  refine ⟨_, h, fun p hp => ?_⟩
  obtain ⟨r, -, rfl⟩ := List.mem_map.mp hp
  exact fun he => nomatch he

theorem write_keepsIterators (h : Heap) (f : Frame) (r : AnyReg) (v : Value) :
    Meets f.KeepsIterators (fun _ => True) (f.write h r v) :=
  (f.write_meets h r v).mono (fun g hg => @KeepsIterators.of_agreesOff f g [r] hg.1)
    fun _ _ => trivial

theorem writeZip_keepsIterators (h : Heap) (f : Frame) (rs : List AnyReg) (vs : List Value) :
    Meets f.KeepsIterators (fun _ => True) (f.writeZip h rs vs) :=
  (writeZip_meets h rs vs f).mono (fun _ hg => .of_agreesOff hg.1) fun _ _ => trivial

theorem writeAll_keepsIterators (h : Heap) (f : Frame) (rs : List AnyReg) (vs : List Value) :
    Meets f.KeepsIterators (fun _ => True) (f.writeAll h rs vs) :=
  (writeAll_meets h rs vs f).mono (fun _ hg => .of_agreesOff hg.1) fun _ _ => trivial

theorem bindFromChecked_safe (h : Heap) (args : List (Bank × Value)) {counters : Array UInt16}
    {next : ValueBank → UInt16} {f : Frame} {shape : RegisterShape} (hf : f.Shaped shape)
    (hc : Counts counters next) :
    Safe f.KeepsIterators (f.bindFromChecked h counters args) (bound (f.bindFrom h next args)) := by
  induction args generalizing counters next f with
  | nil => exact .pure ⟨[], .refl f, fun p hp => absurd hp List.not_mem_nil⟩
  | cons a rest ih =>
    obtain ⟨b, v⟩ := a
    cases b with
    | iter =>
      refine .must (Array.getElem?_eq_getElem (hc.size ▸ Bank.ordinal_lt .iter)) ?_
      exact .throw _
    | value b =>
      have hstep : bound (f.bindFrom h next ((.value b, v) :: rest)) =
          f.write h ⟨b, next b⟩ v >>= fun g =>
            bound (g.bindFrom h (fun c => if c = b then next c + 1 else next c) rest) := by
        rw [bindFrom]
        cases f.write h ⟨b, next b⟩ v <;> rfl
      have hwrite : Meets (fun g => f.Has ⟨.value b, (next b).toNat⟩ ∧ f.KeepsIterators g)
          (fun _ => True) (f.write h ⟨b, next b⟩ v) :=
        .intro (fun g hg => ⟨(f.write_has h ⟨b, next b⟩ v).of_ok hg,
          (f.write_keepsIterators h ⟨b, next b⟩ v).of_ok hg⟩) fun _ _ => trivial
      rw [hstep]
      refine .must (hc.due b) ((Safe.lift hwrite).bind fun g hg => ?_)
      obtain ⟨hhas, hkeeps⟩ := hg
      -- the register is there, and a bank has no more of them than a counter can count
      have hlt : (next b).toNat + 1 < 2 ^ 16 := by
        have hin : (next b).toNat < (shape.count (.value b)).toNat := (hf.has_iff _).mp hhas
        have hbank : (shape.count (.value b)).toNat < 2 ^ 16 := UInt16.toNat_lt _
        omega
      have hafter : UInt16.ofNat ((next b).toNat + 1) = next b + 1 := by
        rw [UInt16.ofNat_add, UInt16.ofNat_toNat]
        rfl
      refine .must ((register?_of_lt hlt).trans (congrArg some hafter)) ?_
      refine .must (put?_of_lt (hc.size ▸ (Bank.value b).ordinal_lt) _) ?_
      obtain ⟨ps, hg, -⟩ := id hkeeps
      have hup : Counts (counters.setIfInBounds (Bank.value b).ordinal (next b + 1))
          (fun c => if c = b then next c + 1 else next c) := by
        refine (hc.up b (next b + 1)).congr fun c => ?_
        split
        · rename_i hcb
          rw [hcb]
        · rfl
      exact (ih (hf.of_agreesOff hg) hup).mono fun k hk => hkeeps.trans hk

theorem bindChecked_safe (h : Heap) (args : List (Bank × Value)) {f : Frame}
    {shape : RegisterShape} (hf : f.Shaped shape) :
    Safe f.KeepsIterators (f.bindChecked h args) (f.bind h args) := by
  rw [bind_eq_bound]
  refine bindFromChecked_safe h args hf ⟨Array.size_replicate, fun b => ?_⟩
  rw [Array.getElem?_replicate, if_pos (Bank.ordinal_lt _)]

/-! ## Iterators -/

/-- No iterator in the frame's registers has got further than to `n`. -/
def Within (n : Nat) (f : Frame) : Prop :=
  ∀ (i : Nat) (it : Iterator), (f.regs.bank .iter)[i]? = some (some it) → it.Within n

namespace Within

variable {f g : Frame} {n m : Nat}

theorem mono (hf : f.Within n) (hle : n ≤ m) : f.Within m := fun i it hit => (hf i it hit).mono hle

theorem start (id : FunctionId) (w : WorkerInfo) : (Frame.start id w).Within n := by
  intro i it hit
  have hnone : (Array.replicate w.registers.iters.toNat (none : Option Iterator))[i]? =
      some (some it) := hit
  rw [Array.getElem?_replicate] at hnone
  split at hnone <;> cases hnone

theorem keeps (hf : f.Within n) (hg : f.KeepsIterators g) : g.Within n := by
  obtain ⟨ps, hg, hps⟩ := hg
  intro i it hit
  rw [hg.slot (.iter, i) fun hm => hps _ hm rfl] at hit
  exact hf i it hit

theorem iterator (hf : f.Within n) (r : IterReg) :
    Meets (Iterator.Within n) (fun _ => True) (f.iterator r) := by
  refine ((f.get_meets r).mono (fun _ hx => hx) fun _ _ => trivial).bind fun it hit => ?_
  cases it with
  | none => exact trivial
  | some it => exact hf _ it hit

theorem set (hf : f.Within n) (r : IterReg) {it : Iterator} (hit : it.Within n) :
    Meets (Frame.Within n) (fun _ => True) (f.set r (some it)) := by
  refine (f.set_meets r (some it)).mono (fun g hg i other ho => ?_) fun _ _ => trivial
  obtain ⟨hagree, -, hget⟩ := hg
  by_cases hi : i = r.index.toNat
  · -- the register that has been written
    subst hi
    have hslot := (g.get_meets r).of_ok hget
    rw [show (g.regs.bank .iter)[r.index.toNat]? = some (some it) from hslot] at ho
    cases ho
    exact hit
  · rw [hagree.slot (.iter, i) fun hm => hi (by simpa [Reg.place] using hm)] at ho
    exact hf i other ho

end Within

/-! ## Instructions -/

end Frame

/-- A quotient by anything but zero, and whatever is no quotient, has a result. -/
theorem IntOp.exists_eval? (op : IntOp) (a : Int64) {b : Int64} (h : op.rhsFirst = true → b ≠ 0) :
    ∃ c, op.eval? a b = some c := by
  cases op with
  | div => exact ⟨_, if_neg (h rfl)⟩
  | mod => exact ⟨_, if_neg (h rfl)⟩
  | _ => exact ⟨_, rfl⟩

namespace Heap

variable {h : Heap}

theorem Sound.expectArray (hs : h.Sound) (v : Value) :
    Meets (fun x => x.2.Sound) (fun _ => True) (h.expectArray v) := by
  unfold Heap.expectArray
  split
  · rename_i r a ho
    unfold object? at ho
    split at ho
    · obtain ⟨o, hget, he⟩ := Option.map_eq_some_iff.mp ho
      cases he
      exact hs _ _ hget
    · cases ho
  · exact trivial
  · exact trivial

/-- The error value that throwing a value raises. -/
def thrownChecked (h : Heap) (v : Value) : Option ExecutionError :=
  match v with
  | .error e => some (.raised e)
  | .null => some .nullReference
  | v => (h.textChecked v).map fun message => .raised { message }

theorem Sound.thrownChecked_eq (hs : h.Sound) (v : Value) :
    h.thrownChecked v = some (h.thrown v) := by
  cases v with
  | null => rfl
  | error e => rfl
  | _ => exact congrArg (Option.map _) (hs.textChecked_eq _)

end Heap

namespace Frame

/-- Runs an instruction other than a call or a return: those have no business here. -/
def execChecked (p : Program) (isHeld : Ref → Bool) (h : Heap) (f : Frame) (i : Instruction) :
    Checked ExecutionError (Heap × Frame) :=
  match i with
  | .intOp op lhs rhs dst =>
      if op.rhsFirst then do
        let b ← .lift (f.get rhs)
        if b = 0 then throw .divisionByZero else
        let a ← .lift (f.get lhs)
        let c ← .must (op.eval? a b)
        .lift ((f.set dst c).map (h, ·))
      else do
        let a ← .lift (f.get lhs)
        let b ← .lift (f.get rhs)
        let c ← .must (op.eval? a b)
        .lift ((f.set dst c).map (h, ·))
  | .arrayLoad array index dst => do
      let v ← .lift (f.get array)
      let (_, a) ← .lift (h.expectArray v)
      let index ← .lift (f.get index)
      let v ← (a.getChecked index).mapError .array
      .lift ((f.write h dst v).map (h, ·))
  | .arrayStore array index src => do
      let v ← .lift (f.get array)
      let (r, a) ← .lift (h.expectArray v)
      let v ← .lift (f.read src)
      let index ← .lift (f.get index)
      let h ← (h.setElementChecked r a index v).mapError .array
      pure (h, f)
  | .length src dst => do
      let v ← .lift (f.get src)
      let n ← h.lengthOfChecked v
      .lift ((f.set dst n).map (h, ·))
  | .iterNext iter dsts =>
      match Arity.ofWidth? dsts.length with
      | none => throw (.iterator (.invalidArity dsts.length))
      | some arity => do
          let it ← .lift (f.iterator iter)
          let (values, it) ← (it.nextChecked h isHeld arity).mapError .iterator
          let f ← .lift (f.set iter (some it))
          .lift ((f.writeZip h dsts values).map (h, ·))
  | .throw error => do
      let v ← .lift (f.get error)
      let e ← .must (h.thrownChecked v)
      throw e
  | .call .. | .nativeCall .. | .ret .. => .must none
  | i => .lift (f.exec p isHeld h i)

variable {h : Heap} {f : Frame}

theorem keep_sound (hs : h.Sound) (x : Except ExecutionError Frame) :
    Meets (fun r => r.1.Sound) (fun _ => True) (x.map (h, ·)) :=
  (Meets.any (x := x)).map fun _ _ => hs

theorem setNew_sound (hs : h.Sound) (o : Object) (ho : o.Sound) (dst : RefReg) :
    Meets (fun r => r.1.Sound) (fun _ => True) (f.setNew h o dst) :=
  Meets.bind_any fun _ => hs.alloc ho

/-- An instruction keeps the heap sound. -/
theorem exec_sound (p : Program) (isHeld : Ref → Bool) (hs : h.Sound) (i : Instruction) :
    Meets (fun r => r.1.Sound) (fun _ => True) (f.exec p isHeld h i) := by
  cases i with
  | nop | goto => exact hs
  | intConst | floatConst | boolConst | null => exact keep_sound hs _
  | move | not | iterHasNext | newError => exact Meets.bind_any fun _ => keep_sound hs _
  | floatOp | intCompare | floatLess | strEqual | concat | newRange | length =>
    exact Meets.bind_any fun _ => Meets.bind_any fun _ => keep_sound hs _
  | strConst dst index =>
    simp only [exec]
    cases p.constant? index with
    | some s => exact keep_sound hs _
    | none => exact trivial
  | intOp op lhs rhs dst =>
    simp only [exec]
    split
    · refine Meets.bind_any fun b => ?_
      split
      · exact trivial
      · refine Meets.bind_any fun a => ?_
        cases op.eval? a b with
        | some c => exact keep_sound hs _
        | none => exact trivial
    · refine Meets.bind_any fun a => Meets.bind_any fun b => ?_
      cases op.eval? a b with
      | some c => exact keep_sound hs _
      | none => exact trivial
  | branch => exact Meets.bind_any fun _ => hs
  | newArray kind length dst =>
    cases length with
    | none => exact setNew_sound hs (.array (.empty kind)) (ArrayObject.sound_empty kind) dst
    | some r =>
      refine Meets.bind_any fun n => ?_
      cases ha : ArrayObject.ofLength kind n with
      | error e => exact trivial
      | ok a => exact setNew_sound hs (.array a) ((ArrayObject.ofLength_meets kind n).of_ok ha) dst
  | newMap dst => exact setNew_sound hs (.map []) trivial dst
  | newRecord typeName dst => exact setNew_sound hs (.record typeName []) trivial dst
  | arrayLoad array index dst =>
    refine Meets.bind_any fun v => Meets.bind_any fun a => ?_
    refine Meets.bind_any fun index => Meets.bind_any fun v => ?_
    exact keep_sound hs _
  | arrayStore array index src =>
    refine Meets.bind_any fun v => (hs.expectArray v).bind fun a ha => ?_
    refine Meets.bind_any fun v => Meets.bind_any fun index => ?_
    have hset := hs.setElement_meets (r := a.1) ha index v
    cases hx : h.setElement a.1 a.2 index v with
    | error e => exact trivial
    | ok k => exact hset.of_ok hx
  | mapStore map key src =>
    refine Meets.bind_any fun v => Meets.bind_any fun m => ?_
    exact Meets.bind_any fun v => Meets.bind_any fun key => hs.set trivial
  | mapLoad map key dst =>
    refine Meets.bind_any fun v => Meets.bind_any fun m => Meets.bind_any fun key => ?_
    exact keep_sound hs _
  | fieldStore record field src =>
    refine Meets.bind_any fun v => Meets.bind_any fun m => ?_
    exact Meets.bind_any fun v => hs.set trivial
  | fieldLoad record field dst =>
    refine Meets.bind_any fun v => Meets.bind_any fun m => ?_
    exact keep_sound hs _
  | iterNew collection iter =>
    refine Meets.bind_any fun v => ?_
    split
    · exact trivial
    · cases Iterator.over? h v with
      | some it => exact keep_sound hs _
      | none => exact trivial
  | iterNext iter dsts =>
    simp only [exec]
    cases Arity.ofWidth? dsts.length with
    | none => exact trivial
    | some arity =>
      refine Meets.bind_any fun it => ?_
      cases it.next h isHeld arity with
      | error e => exact trivial
      | ok r => exact Meets.bind_any fun f => keep_sound hs _
  | throw error => exact Meets.bind_any fun _ => trivial
  | call | nativeCall | ret => exact hs

/-- An instruction takes an iterator of its frame one further, and no other. -/
theorem exec_within (p : Program) (isHeld : Ref → Bool) (hs : h.Sound) {n : Nat} (hf : f.Within n)
    (hn : n + 1 < 2 ^ 63) {i : Instruction} (hi : i.isLocal = true) :
    Meets (fun r => r.2.Within (n + 1)) (fun _ => True) (f.exec p isHeld h i) := by
  cases i with
  | iterNew collection iter =>
    refine Meets.bind_any fun v => ?_
    split
    · exact trivial
    · cases hit : Iterator.over? h v with
      | none => exact trivial
      | some it =>
        have hnew := (Iterator.within_of_over? hs hit).mono (Nat.zero_le (n + 1))
        exact ((hf.mono (Nat.le_succ n)).set iter hnew).map fun _ hg => hg
  | iterNext iter dsts =>
    simp only [exec]
    cases Arity.ofWidth? dsts.length with
    | none => exact trivial
    | some arity =>
      refine (hf.iterator iter).bind fun it hit => ?_
      have hnext := (Iterator.nextChecked_safe isHeld hs hit hn arity).meets
      cases hr : it.next h isHeld arity with
      | error e => exact trivial
      | ok r =>
        refine ((hf.mono (Nat.le_succ n)).set iter (hnext.of_ok hr)).bind fun g hg => ?_
        exact (g.writeZip_keepsIterators h dsts r.1).map fun k hk => hg.keeps hk
  | _ =>
    refine (f.exec_meets p isHeld h hi).mono (fun r hr => ?_) fun _ _ => trivial
    exact (hf.mono (Nat.le_succ n)).keeps ⟨_, hr.2, by simp [Reg.place, AnyReg.place]⟩

theorem exec_iterNext (p : Program) (isHeld : Ref → Bool) (iter : IterReg) {dsts : List AnyReg}
    {arity : Arity} (ha : Arity.ofWidth? dsts.length = some arity) :
    f.exec p isHeld h (.iterNext iter dsts) =
      f.iterator iter >>= fun it =>
        (it.next h isHeld arity).mapError ExecutionError.iterator >>= fun r =>
          f.set iter (some r.2) >>= fun g => (g.writeZip h dsts r.1).map (h, ·) := by
  simp only [exec, ha]
  refine bind_congr fun it => ?_
  cases it.next h isHeld arity <;> rfl

/-- **Every operation that an instruction uses has a result.** -/
theorem execChecked_safe (p : Program) (isHeld : Ref → Bool) (hs : h.Sound) {n : Nat}
    (hf : f.Within n) (hn : n + 1 < 2 ^ 63) {i : Instruction} (hi : i.isLocal = true) :
    Safe (fun r => r.1.Sound ∧ r.2.Within (n + 1)) (f.execChecked p isHeld h i)
      (f.exec p isHeld h i) := by
  have hmeets : Meets (fun r => r.1.Sound ∧ r.2.Within (n + 1)) (fun _ => True)
      (f.exec p isHeld h i) :=
    .intro (fun r hr => ⟨(exec_sound p isHeld hs i).of_ok hr,
      (exec_within p isHeld hs hf hn hi).of_ok hr⟩) fun _ _ => trivial
  suffices hsafe : Safe (fun _ => True) (f.execChecked p isHeld h i) (f.exec p isHeld h i) from
    ⟨hsafe.run_eq, hmeets⟩
  cases i with
  | intOp op lhs rhs dst =>
    simp only [execChecked, exec]
    split
    · refine .bind_lift fun b => ?_
      split
      · exact .throw _
      · refine .bind_lift fun a => ?_
        obtain ⟨c, hc⟩ := op.exists_eval? a (b := b) fun _ => ‹¬ b = 0›
        rw [hc]
        exact .must rfl (.lift Meets.any)
    · refine .bind_lift fun a => .bind_lift fun b => ?_
      obtain ⟨c, hc⟩ := op.exists_eval? a (b := b) fun h => absurd h ‹_›
      rw [hc]
      exact .must rfl (.lift Meets.any)
  | arrayLoad array index dst =>
    refine .bind_lift fun v => (Safe.lift (hs.expectArray v)).bind fun a ha => ?_
    refine .bind_lift fun index => (ha.getChecked_safe index).mapError.bind fun v _ => ?_
    exact .lift Meets.any
  | arrayStore array index src =>
    refine .bind_lift fun v => (Safe.lift (hs.expectArray v)).bind fun a ha => ?_
    refine .bind_lift fun v => .bind_lift fun index => ?_
    exact (hs.setElementChecked_safe a.1 ha index v).mapError.bind fun h _ => .pure trivial
  | length src dst =>
    exact .bind_lift fun v => (h.lengthOfChecked_safe v).bind fun n _ => .lift Meets.any
  | iterNext iter dsts =>
    cases ha : Arity.ofWidth? dsts.length with
    | none =>
      simp only [execChecked, exec, ha]
      exact .throw _
    | some arity =>
      rw [exec_iterNext p isHeld iter ha]
      simp only [execChecked, ha]
      refine (Safe.lift (hf.iterator iter)).bind fun it hit => ?_
      have hnext := Iterator.nextChecked_safe isHeld hs hit hn arity
      exact hnext.mapError.bind fun r _ => .bind_lift fun g => .lift Meets.any
  | throw error =>
    exact .bind_lift fun v => .must (hs.thrownChecked_eq v) (.throw _)
  | call | nativeCall | ret => exact absurd hi (by simp)
  | _ => exact .lift Meets.any

end Frame

end RegisterMachine
