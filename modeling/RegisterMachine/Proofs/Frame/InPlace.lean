import RegisterMachine.Proofs.Checked.Frames
import RegisterMachine.Proofs.Value.InPlace

/-!
# Instructions within a frame, carried out in place

Whoever runs the machine changes one register, slot or object after the other. Here the instructions within a
frame are written that way (`Frame.execInPlace`), a store down to the slots of its array. An object that could
not be put into a register is lost with the only handle on it.

**All instructions follow their definitions** (`Frame.execInPlace_follows`): at every error the heap is as it
was, and the frame, which the worker has for itself, has changed in registers at most.
-/

namespace RegisterMachine

open InPlace

namespace Frame

variable {h : Heap} {f : Frame}

/-- The heap is as it was, and the frame has changed in registers at most. -/
def Kept (h : Heap) (f : Frame) (s : Heap × Frame) : Prop :=
  s.1 = h ∧ (∃ ps, f.AgreesOff ps s.2) ∧ s.2.ip = f.ip

theorem Kept.refl : Kept h f (h, f) := ⟨rfl, ⟨[], .refl f⟩, rfl⟩

theorem Kept.trans {g : Frame} {s : Heap × Frame} (hg : Kept h f (h, g)) (hs : Kept h g s) :
    Kept h f s := by
  obtain ⟨-, ⟨ps, hps⟩, hip⟩ := hg
  obtain ⟨hh, ⟨qs, hqs⟩, hip'⟩ := hs
  exact ⟨hh, ⟨ps ++ qs, hps.trans hqs⟩, hip'.trans hip⟩

/-- Changes the frame. The heap is only looked at. -/
def inFrame (k : Heap → Frame → Except ExecutionError Frame) :
    InPlace (Heap × Frame) ExecutionError Unit :=
  tryChange fun s => (k s.1 s.2).map (s.1, ·)

/-- Makes an object and puts it into a register. Where there is no such register, nobody has got hold of the
object. -/
def setNewInPlace (o : Object) (dst : RefReg) : InPlace (Heap × Frame) ExecutionError Unit :=
  effect fun (h, f) =>
    let (h, r) := h.alloc o
    match f.set dst (Value.collection r) with
    | .ok f => (.ok (), (h, f))
    | .error e => (.error e, (⟨h.objects.pop⟩, f))

/-- Puts values into registers one after another. -/
def writeZipInPlace : List AnyReg → List Value → InPlace (Heap × Frame) ExecutionError Unit
  | r :: rs, v :: vs => do
      inFrame fun h f => f.write h r v
      writeZipInPlace rs vs
  | _, _ => pure ()

/-- The same, with defaults where the values have run out. -/
def writeAllInPlace : List AnyReg → List Value → InPlace (Heap × Frame) ExecutionError Unit
  | [], _ => pure ()
  | r :: rs, [] => do
      inFrame fun _ f => f.writeDefault r
      writeAllInPlace rs []
  | r :: rs, v :: vs => do
      inFrame fun h f => f.write h r v
      writeAllInPlace rs vs

/-- Carries out an instruction other than a call or a return. Those that neither make nor change an object
and do not iterate change their frame once, with the last thing they do. -/
def execInPlace (p : Program) (isHeld : Ref → Bool) :
    Instruction → InPlace (Heap × Frame) ExecutionError Unit
  | .newArray kind (some length) dst => do
      let n ← look fun s => s.2.get length
      let a ← look fun _ => (ArrayObject.ofLength kind n).mapError fun e => .array (.index e)
      setNewInPlace (.array a) dst
  | .newArray kind none dst => setNewInPlace (.array (.empty kind)) dst
  | .newMap dst => setNewInPlace (.map []) dst
  | .newRecord typeName dst => setNewInPlace (.record typeName []) dst
  | .arrayStore array index src => do
      let v ← look fun s => s.2.get array
      let (r, a) ← look fun s => s.1.expectArray v
      let v ← look fun s => s.2.read src
      let index ← look fun s => s.2.get index
      effect fun (h, f) => putBack .array (·, f) ((Heap.setElementInPlace r a index v).on h)
  | .mapStore map key src => do
      let v ← look fun s => s.2.get map
      let (r, entries) ← look fun s => s.1.expectMap v
      let v ← look fun s => s.2.read src
      let key ← look fun s => s.2.get key
      change fun (h, f) => (h.set r (.map (entries.insert key v)), f)
  | .fieldStore record field src => do
      let v ← look fun s => s.2.get record
      let (r, typeName, fields) ← look fun s => s.1.expectRecord v
      let v ← look fun s => s.2.read src
      change fun (h, f) => (h.set r (.record typeName (fields.insert field v)), f)
  | .iterNext iter dsts =>
      match Arity.ofWidth? dsts.length with
      | none => throw (.iterator (.invalidArity dsts.length))
      | some arity => do
          let it ← look fun s => s.2.iterator iter
          let (values, it) ← look fun s => (it.next s.1 isHeld arity).mapError .iterator
          inFrame fun _ f => f.set iter (some it)
          writeZipInPlace dsts values
  | i => inFrame fun h f => (f.exec p isHeld h i).map Prod.snd

theorem setNewInPlace_follows (o : Object) (dst : RefReg) :
    Follows (Kept h f) ((setNewInPlace o dst).on (h, f)) (f.setNew h o dst) := by
  rw [setNewInPlace, on_effect, setNew]
  dsimp only [bind, Except.bind]
  cases f.set dst (Value.collection (h.alloc o).2) with
  | ok g => rfl
  | error e =>
    refine ⟨rfl, ?_⟩
    have hpop : (⟨(h.alloc o).1.objects.pop⟩ : Heap) = h := by simp [Heap.alloc]
    dsimp only
    rw [hpop]
    exact .refl

/-- A change of registers, and then the rest of an instruction. -/
theorem inFrame_follows {k : Heap → Frame → Except ExecutionError Frame}
    {d : InPlace (Heap × Frame) ExecutionError Unit} {y : Frame → Except ExecutionError (Heap × Frame)}
    (hk : Meets (fun g => Kept h f (h, g)) (fun _ => True) (k h f))
    (hd : ∀ g, Follows (Kept h g) (d.on (h, g)) (y g)) :
    Follows (Kept h f) ((inFrame k >>= fun _ => d).on (h, f)) (k h f >>= y) := by
  have hy : k h f >>= y = ((k h f).map (h, ·)) >>= fun s => y s.2 := by
    cases k h f <;> rfl
  rw [hy]
  refine (Follows.tryChange .refl).bind fun s hs => ?_
  cases hg : k h f with
  | error e =>
    rw [hg] at hs
    cases hs
  | ok g =>
    rw [hg] at hs
    cases hs
    exact (hd g).mono fun s hs => (hk.of_ok hg).trans hs

/-- Writes keep a frame in all but registers. -/
theorem kept_of_agreesOff {ps : List Place} {P : Frame → Prop} {E : ExecutionError → Prop}
    {x : Except ExecutionError Frame}
    (hx : Meets (fun g => f.AgreesOff ps g ∧ g.ip = f.ip ∧ P g) E x) :
    Meets (fun g => Kept h f (h, g)) (fun _ => True) x :=
  hx.mono (fun _ hg => ⟨rfl, ⟨ps, hg.1⟩, hg.2.1⟩) fun _ _ => trivial

theorem writeZipInPlace_follows (rs : List AnyReg) (vs : List Value) (f : Frame) :
    Follows (Kept h f) ((writeZipInPlace rs vs).on (h, f)) ((f.writeZip h rs vs).map (h, ·)) := by
  induction rs generalizing vs f with
  | nil => rfl
  | cons r rs ih =>
    cases vs with
    | nil => rfl
    | cons v vs =>
      have hmap : (f.writeZip h (r :: rs) (v :: vs)).map (h, ·) =
          f.write h r v >>= fun g => (g.writeZip h rs vs).map (h, ·) := by
        rw [writeZip]
        cases f.write h r v <;> rfl
      rw [hmap, writeZipInPlace]
      exact inFrame_follows (kept_of_agreesOff (f.write_meets h r v)) (ih vs)

theorem writeAllInPlace_follows (rs : List AnyReg) (vs : List Value) (f : Frame) :
    Follows (Kept h f) ((writeAllInPlace rs vs).on (h, f)) ((f.writeAll h rs vs).map (h, ·)) := by
  induction rs generalizing vs f with
  | nil => rfl
  | cons r rs ih =>
    cases vs with
    | nil =>
      have hmap : (f.writeAll h (r :: rs) []).map (h, ·) =
          f.writeDefault r >>= fun g => (g.writeAll h rs []).map (h, ·) := by
        rw [writeAll]
        cases f.writeDefault r <;> rfl
      rw [hmap, writeAllInPlace]
      exact inFrame_follows (kept_of_agreesOff (f.writeDefault_meets r)) (ih [])
    | cons v vs =>
      have hmap : (f.writeAll h (r :: rs) (v :: vs)).map (h, ·) =
          f.write h r v >>= fun g => (g.writeAll h rs vs).map (h, ·) := by
        rw [writeAll]
        cases f.write h r v <;> rfl
      rw [hmap, writeAllInPlace]
      exact inFrame_follows (kept_of_agreesOff (f.write_meets h r v)) (ih vs)

end Frame

/-- Whether an instruction makes an object or changes one. -/
def Instruction.changesHeap : Instruction → Bool
  | .newArray .. | .newMap .. | .newRecord .. => true
  | .arrayStore .. | .mapStore .. | .fieldStore .. => true
  | _ => false

namespace Frame

variable {h : Heap} {f : Frame}

theorem keep_heap (x : Except ExecutionError Frame) :
    Meets (fun r => r.1 = h) (fun _ => True) (x.map (h, ·)) :=
  (Meets.any (x := x)).map fun _ _ => rfl

/-- The other instructions only look at the heap. -/
theorem exec_heap (p : Program) (isHeld : Ref → Bool) {i : Instruction} (hi : i.changesHeap = false) :
    Meets (fun r => r.1 = h) (fun _ => True) (f.exec p isHeld h i) := by
  cases i with
  | newArray | newMap | newRecord | arrayStore | mapStore | fieldStore => cases hi
  | nop | goto | call | nativeCall | ret => exact rfl
  | intConst | floatConst | boolConst | null => exact keep_heap _
  | move | not | iterHasNext | newError => exact Meets.bind_any fun _ => keep_heap _
  | floatOp | intCompare | floatLess | strEqual | concat | newRange | length =>
    exact Meets.bind_any fun _ => Meets.bind_any fun _ => keep_heap _
  | strConst dst index =>
    simp only [exec]
    cases p.constant? index with
    | some s => exact keep_heap _
    | none => exact trivial
  | intOp op lhs rhs dst =>
    simp only [exec]
    split
    · refine Meets.bind_any fun b => ?_
      split
      · exact trivial
      · refine Meets.bind_any fun a => ?_
        cases op.eval? a b with
        | some c => exact keep_heap _
        | none => exact trivial
    · refine Meets.bind_any fun a => Meets.bind_any fun b => ?_
      cases op.eval? a b with
      | some c => exact keep_heap _
      | none => exact trivial
  | branch => exact Meets.bind_any fun _ => rfl
  | arrayLoad array index dst =>
    refine Meets.bind_any fun v => Meets.bind_any fun a => ?_
    exact Meets.bind_any fun index => Meets.bind_any fun v => keep_heap _
  | mapLoad map key dst =>
    refine Meets.bind_any fun v => Meets.bind_any fun m => ?_
    exact Meets.bind_any fun key => keep_heap _
  | fieldLoad record field dst =>
    refine Meets.bind_any fun v => Meets.bind_any fun m => ?_
    exact keep_heap _
  | iterNew collection iter =>
    refine Meets.bind_any fun v => ?_
    split
    · exact trivial
    · cases Iterator.over? h v with
      | some it => exact keep_heap _
      | none => exact trivial
  | iterNext iter dsts =>
    simp only [exec]
    cases Arity.ofWidth? dsts.length with
    | none => exact trivial
    | some arity =>
      refine Meets.bind_any fun it => ?_
      cases it.next h isHeld arity with
      | error e => exact trivial
      | ok r => exact Meets.bind_any fun g => keep_heap _
  | throw error => exact Meets.bind_any fun _ => trivial

/-- What an instruction does that only looks at the heap, it does to the frame. -/
theorem inFrame_exec_follows (p : Program) (isHeld : Ref → Bool) {i : Instruction}
    (hi : i.changesHeap = false) :
    Follows (Kept h f) ((inFrame fun h f => (f.exec p isHeld h i).map Prod.snd).on (h, f))
      (f.exec p isHeld h i) := by
  have hexec : f.exec p isHeld h i = ((f.exec p isHeld h i).map Prod.snd).map (h, ·) := by
    have hheap := exec_heap (h := h) (f := f) p isHeld hi
    cases hx : f.exec p isHeld h i with
    | error e => rfl
    | ok r => exact congrArg Except.ok (Prod.ext (hheap.of_ok hx) rfl)
  have hfollows : Follows (Kept h f)
      ((inFrame fun h f => (f.exec p isHeld h i).map Prod.snd).on (h, f))
      (((f.exec p isHeld h i).map Prod.snd).map (h, ·)) := .tryChange .refl
  rw [← hexec] at hfollows
  exact hfollows

/-- **An instruction fails before it has changed an object**, whichever way it fails. -/
theorem execInPlace_follows (p : Program) (isHeld : Ref → Bool) (h : Heap) (f : Frame)
    (i : Instruction) :
    Follows (Kept h f) ((execInPlace p isHeld i).on (h, f)) (f.exec p isHeld h i) := by
  cases i with
  | newArray kind length dst =>
    cases length with
    | none => exact setNewInPlace_follows (.array (.empty kind)) dst
    | some r =>
      have hexec : f.exec p isHeld h (.newArray kind (some r) dst) =
          f.get r >>= fun n =>
            (ArrayObject.ofLength kind n).mapError (fun e => ExecutionError.array (.index e)) >>= fun a =>
              f.setNew h (.array a) dst := by
        simp only [exec]
        refine bind_congr fun n => ?_
        cases ArrayObject.ofLength kind n <;> rfl
      rw [hexec]
      exact .read .refl fun n _ => .read .refl fun a _ => setNewInPlace_follows (.array a) dst
  | newMap dst => exact setNewInPlace_follows (.map []) dst
  | newRecord typeName dst => exact setNewInPlace_follows (.record typeName []) dst
  | arrayStore array index src =>
    refine .read .refl fun v _ => .read .refl fun x hx => .read .refl fun w _ => .read .refl fun n _ => ?_
    obtain ⟨r, a⟩ := x
    have hr := ((h.expectArray_meets v).of_ok hx).2
    have hset := (Heap.setElementInPlace_follows hr n w).putBack (Kept h f)
      ExecutionError.array (·, f) fun h' hh => by rw [hh]; exact .refl
    rw [on_effect]
    cases hstored : h.setElement r a n w with
    | ok stored =>
      rw [hstored] at hset
      exact hset
    | error e =>
      rw [hstored] at hset
      exact hset
  | mapStore map key src =>
    refine .read .refl fun v _ => .read .refl fun x _ => ?_
    exact .read .refl fun v _ => .read .refl fun key _ => .change _
  | fieldStore record field src =>
    refine .read .refl fun v _ => .read .refl fun x _ => ?_
    exact .read .refl fun v _ => .change _
  | iterNext iter dsts =>
    cases ha : Arity.ofWidth? dsts.length with
    | none =>
      simp only [execInPlace, exec, ha]
      exact ⟨rfl, .refl⟩
    | some arity =>
      rw [exec_iterNext p isHeld iter ha]
      simp only [execInPlace, ha]
      refine .read .refl fun it _ => .read .refl fun r _ => ?_
      refine inFrame_follows (kept_of_agreesOff (f.set_meets iter (some r.2))) fun g => ?_
      exact writeZipInPlace_follows dsts r.1 g
  | _ => exact inFrame_exec_follows p isHeld rfl

end Frame

end RegisterMachine
