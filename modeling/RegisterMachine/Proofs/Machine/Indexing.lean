import RegisterMachine.Proofs.Frame.Refusals
import RegisterMachine.Proofs.Machine.Faults
import RegisterMachine.Proofs.Machine.Reach
import RegisterMachine.Proofs.Value.Indexing

/-!
# Errors of arrays are faults of workers

The instructions on arrays have a good many other ways to fail: a register can be wanting, or hold something that is
no array, or be of the wrong bank for the element. None of these is taken for an error of an array, and an error of an
array is none of these, so what the array says is what the worker fails with, and all of it.
**`Environment.index_errors_exact`** puts that together with what arrays say about indices.
-/

namespace RegisterMachine

namespace Frame

variable {f : Frame} {p : Program} {isHeld : Ref → Bool} {h : Heap} {array dst : RefReg} {index : IntReg}
  {v : Value} {r : Ref} {a : ArrayObject} {i : Int64} {e : IndexError}

/-- A register that cannot be written to is no error of an array. -/
theorem set_ne_array {b : Bank} (r : Reg b) (x : b.Slot) (e : ArrayError) :
    f.set r x ≠ .error (.array e) := by
  intro hset
  obtain ⟨-, he⟩ := (f.set_has r x).of_error hset
  cases he

theorem write_ne_array (r : AnyReg) (v : Value) (e : ArrayError) : f.write h r v ≠ .error (.array e) := by
  intro hwrite
  have hturned : f.TurnsDown h r (some v) (.array e) := (put_meets h f r (some v)).of_error hwrite
  cases hturned

/-- A load fails as the array does. -/
theorem exec_arrayLoad_iff {dst : AnyReg} (ha : f.get array = .ok v) (hr : h.expectArray v = .ok (r, a))
    (hi : f.get index = .ok i) :
    f.exec p isHeld h (.arrayLoad array index dst) = .error (.array (.index e)) ↔
      a.get i = .error (.index e) := by
  have hexec : f.exec p isHeld h (.arrayLoad array index dst) =
      ExecutionError.ofArray (a.get i) >>= fun u => (f.write h dst u).map (h, ·) := by
    simp only [exec, ha, hr, hi, Bind.bind, Except.bind]
  rw [hexec]
  cases a.get i with
  | ok u =>
    refine iff_of_false (fun herror => ?_) (by simp)
    exact write_ne_array dst u _ (map_eq_error_iff.mp herror)
  | error e' =>
    show Except.error (ExecutionError.array e') = _ ↔ _
    simp

/-- So does a store. -/
theorem exec_arrayStore_iff {src : AnyReg} {u : Value} (ha : f.get array = .ok v)
    (hr : h.expectArray v = .ok (r, a)) (hu : f.read src = .ok u) (hi : f.get index = .ok i) :
    f.exec p isHeld h (.arrayStore array index src) = .error (.array (.index e)) ↔
      a.set i u (h.tag u) = .error (.index e) := by
  have hexec : f.exec p isHeld h (.arrayStore array index src) =
      ExecutionError.ofArray ((a.set i u (h.tag u)).map fun a => h.set r (.array a)) >>= fun k => .ok (k, f) := by
    simp only [exec, ha, hr, hu, hi, Bind.bind, Except.bind, Heap.setElement]
  rw [hexec]
  cases a.set i u (h.tag u) with
  | ok b => exact iff_of_false (fun herror => by cases herror) (by simp)
  | error e' =>
    show Except.error (ExecutionError.array e') = _ ↔ _
    simp

/-- And so does making an array of a length. -/
theorem exec_newArray_iff {kind : ElementKind} {length : IntReg} (hi : f.get length = .ok i) :
    f.exec p isHeld h (.newArray kind (some length) dst) = .error (.array (.index e)) ↔
      ArrayObject.ofLength kind i = .error e := by
  simp only [exec, hi, Bind.bind, Except.bind]
  cases ArrayObject.ofLength kind i with
  | ok a =>
    refine iff_of_false (fun herror => ?_) (by simp)
    unfold setNew at herror
    dsimp only [Bind.bind, Except.bind] at herror
    cases hset : f.set dst (Value.collection (h.alloc (.array a)).2) with
    | ok g =>
      rw [hset] at herror
      cases herror
    | error e' =>
      rw [hset] at herror
      cases herror
      exact set_ne_array dst _ _ hset
  | error e' => simp

end Frame

namespace Environment

/-- **What is wrong with an index is said exactly.** `IndexError.Due` tells which of the two errors there are is met,
if one is: first what is beyond every array, then what is outside the one at hand. These are all the errors of a read,
of a write or an addition of a value that the array can store, and of making an array of a length. An instruction that
reads, writes or makes an array fails with these and leaves the world as it is; it fails with no other error of an
index. -/
theorem index_errors_exact {a : ArrayObject} (ha : a.Sound) :
    (∀ i e, a.get i = .error e ↔ ∃ e', e = .index e' ∧
      IndexError.Due i a.size (maxArraySize < i.toInt ∨ i.toInt < -2147483648)
        (i.toInt < 0 ∨ a.size ≤ i.toInt) e') ∧
    (∀ v tag, a.kind.accepts v = true →
      (∀ i e, a.set i v tag = .error e ↔ ∃ e', e = .index e' ∧
        IndexError.Due i a.size (maxArraySize ≤ i.toInt ∨ i.toInt < -2147483648) (i.toInt < 0) e') ∧
      ∀ e, a.push v tag = .error e ↔
        a.size = maxArraySize ∧ e = .index (.tooLarge (.ofNat maxArraySize))) ∧
    (∀ kind n e, ArrayObject.ofLength kind n = .error e ↔
      IndexError.Due n 0 (maxArraySize < n.toInt ∨ n.toInt < -2147483648) (n.toInt < 0) e) ∧
    ∀ (env : Environment) (world : World) (w : Worker) (f : Frame) (below : CallStack) (i : Int64)
      (e : IndexError),
      let fails := env.step world w = (world, w.failed env.program (.array (.index e)))
      (∀ array index dst v r, w.At env.program f below (.arrayLoad array index dst) →
        f.get array = .ok v → world.store.heap.expectArray v = .ok (r, a) → f.get index = .ok i →
        (fails ↔ IndexError.Due i a.size (maxArraySize < i.toInt ∨ i.toInt < -2147483648)
          (i.toInt < 0 ∨ a.size ≤ i.toInt) e)) ∧
      (∀ array index src v r u, w.At env.program f below (.arrayStore array index src) →
        f.get array = .ok v → world.store.heap.expectArray v = .ok (r, a) → f.read src = .ok u →
        f.get index = .ok i → a.kind.accepts u = true →
        (fails ↔ IndexError.Due i a.size (maxArraySize ≤ i.toInt ∨ i.toInt < -2147483648)
          (i.toInt < 0) e)) ∧
      ∀ kind length dst, w.At env.program f below (.newArray kind (some length) dst) →
        f.get length = .ok i →
        (fails ↔ IndexError.Due i 0 (maxArraySize < i.toInt ∨ i.toInt < -2147483648)
          (i.toInt < 0) e) := by
  refine ⟨fun i e => ArrayObject.get_eq_error_iff, fun v tag hv => ?_,
    fun kind n e => ArrayObject.ofLength_eq_error_iff, fun env world w f below i e => ?_⟩
  · exact ⟨fun i e => ha.set_eq_error_iff hv, fun e => ha.push_eq_error_iff hv⟩
  refine ⟨?_, ?_, ?_⟩
  · intro array index dst v r hat harray hr hi
    rw [step_failed_iff hat rfl, Frame.exec_arrayLoad_iff (f := f.past) harray hr hi,
      ArrayObject.get_eq_error_iff]
    simp
  · intro array index src v r u hat harray hr hu hi haccepts
    rw [step_failed_iff hat rfl, Frame.exec_arrayStore_iff (f := f.past) harray hr hu hi,
      ha.set_eq_error_iff haccepts]
    simp
  · intro kind length dst hat hlength
    rw [step_failed_iff hat rfl, Frame.exec_newArray_iff (f := f.past) hlength,
      ArrayObject.ofLength_eq_error_iff]

end Environment

/-! A worker that is about to write 5 at the greatest number of elements. -/

def Environment.overreaching : Environment where
  program := { Program.doubling with code := #[.arrayStore ⟨0⟩ ⟨0⟩ ⟨.int, 1⟩] }
  natives := []
  maxDepth := 4

def Frame.overreaching : Frame :=
  { Frame.start ⟨0⟩ Program.mainInfo.defaultWorker with
    regs :=
      { Registers.ofShape { ints := 2, refs := 1 } with
        ints := #[2147483639, 5]
        refs := #[.collection ⟨0⟩] } }

def Worker.overreaching : Worker := .start ⟨1, ⟨0⟩, "main", defaultWorkerName⟩ .overreaching

/-- A read says of this index that the array does not have it, a write that no array does. -/
theorem Environment.overreaching_fails :
    let world := World.start ⟨⟨#[.array (.empty .int)]⟩, #[]⟩ []
    (ArrayObject.empty .int).get 2147483639 = .error (.index (.outOfRange 2147483639 0)) ∧
      overreaching.step world .overreaching = (world, Worker.failed .overreaching overreaching.program
        (.array (.index (.tooLarge 2147483639)))) := by
  intro world
  obtain ⟨hget, -, -, hfails⟩ := index_errors_exact (ArrayObject.sound_empty .int)
  refine ⟨(hget _ _).mpr ⟨_, rfl, .inr ⟨by decide, by decide, rfl⟩⟩, ?_⟩
  obtain ⟨-, hstore, -⟩ := hfails overreaching world .overreaching .overreaching [] 2147483639
    (.tooLarge 2147483639)
  have hfive : (ArrayObject.empty .int).kind.accepts (.int 5) = true := rfl
  exact (hstore _ _ _ _ ⟨0⟩ _ ⟨rfl, rfl, rfl⟩ rfl rfl rfl rfl hfive).mpr (.inl ⟨by decide, rfl⟩)

end RegisterMachine
