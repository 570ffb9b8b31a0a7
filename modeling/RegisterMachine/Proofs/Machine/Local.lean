import RegisterMachine.Machine.Local
import RegisterMachine.Proofs.Program.Operands

/-!
# An instruction keeps to what it names

`Frame.exec_meets` is all that is used about the instructions within a frame. When one succeeds,
the frame is what it was but for the destinations the instruction names, and is at one of its
targets; when one fails fatally, the error names one of its operands, and the frame does not have
it. The proof follows the instruction set, one case for each instruction, and every case is the
chain of accesses that the instruction makes.
-/

namespace RegisterMachine

/-! ## What can fail without a register being to blame -/

/-- Whatever goes wrong here is a condition of the program's own making. -/
def Harmless {α : Type} (x : Except ExecutionError α) : Prop :=
  Meets (fun _ => True) (fun e => e.isFatal = false) x

theorem Harmless.blames {α : Type} {x : Except ExecutionError α} (hx : Harmless x) (f : Frame)
    (ps : List Place) : Meets (fun _ => True) (f.Blames ps) x :=
  hx.mono (fun _ h => h) fun _ he => Frame.Blames.of_not_fatal he

/-- What a value refers to is where its reference leads. -/
theorem Heap.object?_eq_some {h : Heap} {v : Value} {r : Ref} {o : Object}
    (ho : h.object? v = some (r, o)) : v.ref? = some r ∧ h.get? r = some o := by
  cases v with
  | collection s =>
    obtain ⟨o', hget, he⟩ := Option.map_eq_some_iff.mp ho
    cases he
    exact ⟨rfl, hget⟩
  | _ => cases ho

/-- An array is found where the value refers to it. -/
theorem Heap.expectArray_meets (h : Heap) (v : Value) :
    Meets (fun x => v.ref? = some x.1 ∧ h.get? x.1 = some (.array x.2)) (fun e => e.isFatal = false)
      (h.expectArray v) := by
  unfold expectArray
  split
  · exact object?_eq_some ‹_›
  · rfl
  · rfl

theorem Heap.expectMap_meets (h : Heap) (v : Value) :
    Meets (fun x => v.ref? = some x.1 ∧ h.get? x.1 = some (.map x.2)) (fun e => e.isFatal = false)
      (h.expectMap v) := by
  unfold expectMap
  split
  · exact object?_eq_some ‹_›
  · rfl
  · rfl

theorem Heap.expectRecord_meets (h : Heap) (v : Value) :
    Meets (fun x => v.ref? = some x.1 ∧ h.get? x.1 = some (.record x.2.1 x.2.2))
      (fun e => e.isFatal = false) (h.expectRecord v) := by
  unfold expectRecord
  split
  · exact object?_eq_some ‹_›
  · rfl
  · rfl

theorem Heap.expectArray_harmless (h : Heap) (v : Value) : Harmless (h.expectArray v) :=
  (h.expectArray_meets v).mono (fun _ _ => trivial) fun _ he => he

theorem Heap.expectMap_harmless (h : Heap) (v : Value) : Harmless (h.expectMap v) :=
  (h.expectMap_meets v).mono (fun _ _ => trivial) fun _ he => he

theorem Heap.expectRecord_harmless (h : Heap) (v : Value) : Harmless (h.expectRecord v) :=
  (h.expectRecord_meets v).mono (fun _ _ => trivial) fun _ he => he

theorem Heap.lengthOf_harmless (h : Heap) (v : Value) : Harmless (h.lengthOf v) := by
  unfold lengthOf
  split
  all_goals first | exact trivial | rfl

theorem Heap.thrown_not_fatal (h : Heap) (v : Value) : (h.thrown v).isFatal = false := by
  cases v <;> rfl

theorem ExecutionError.ofArray_harmless {α : Type} (x : Except ArrayError α) :
    Harmless (ExecutionError.ofArray x) := by
  cases x with
  | ok a => exact trivial
  | error e => rfl

namespace Frame

/-! ## The last access of an instruction -/

/-- What an instruction leaves in its frame when it succeeds. -/
def Leaves (f : Frame) (places : List Place) (targets : List Nat) (r : Heap × Frame) : Prop :=
  r.2.ip ∈ targets ∧ f.AgreesOff places r.2

variable {f : Frame} {ps qs : List Place} {ns : List Nat}

theorem get_within {b : Bank} {r : Reg b} (hr : r.place ∈ ps) :
    Meets (fun _ => True) (f.Blames ps) (f.get r) :=
  (f.get_meets r).mono (fun _ _ => trivial) fun _ he => he.mono (by simpa using hr)

theorem read_within {r : AnyReg} (hr : r.place ∈ ps) :
    Meets (fun _ => True) (f.Blames ps) (f.read r) :=
  (f.read_meets r).mono (fun _ h => h) fun _ he => he.mono (by simpa using hr)

theorem iterator_within {r : IterReg} (hr : r.place ∈ ps) :
    Meets (fun _ => True) (f.Blames ps) (f.iterator r) :=
  (f.iterator_meets r).mono (fun _ h => h) fun _ he => he.mono (by simpa using hr)

theorem set_leaves (h : Heap) {b : Bank} {r : Reg b} (x : b.Slot) (hn : f.ip ∈ ns)
    (hp : r.place ∈ ps) (hq : r.place ∈ qs) :
    Meets (f.Leaves qs ns) (f.Blames ps) ((f.set r x).map (h, ·)) := by
  refine ((f.set_meets r x).mono (fun _ hg => hg) fun e he => he.mono ?_).map fun g hg => ?_
  · simpa using hp
  · exact ⟨hg.2.1 ▸ hn, hg.1.mono (by simpa using hq)⟩

theorem write_leaves (h : Heap) {r : AnyReg} (v : Value) (hn : f.ip ∈ ns)
    (hp : r.place ∈ ps) (hq : r.place ∈ qs) :
    Meets (f.Leaves qs ns) (f.Blames ps) ((f.write h r v).map (h, ·)) := by
  refine ((f.write_meets h r v).mono (fun _ hg => hg) fun e he => he.mono ?_).map fun g hg => ?_
  · simpa using hp
  · exact ⟨hg.2.1 ▸ hn, hg.1.mono (by simpa using hq)⟩

theorem setNew_leaves (h : Heap) (o : Object) {r : RefReg} (hn : f.ip ∈ ns)
    (hp : r.place ∈ ps) (hq : r.place ∈ qs) :
    Meets (f.Leaves qs ns) (f.Blames ps) (f.setNew h o r) :=
  set_leaves _ _ hn hp hq

theorem goTo_leaves (h : Heap) {ip : Nat} (hn : ip ∈ ns) :
    Meets (f.Leaves qs ns) (f.Blames ps) (.ok (h, { f with ip })) :=
  ⟨hn, AgreesOff.jump f ip⟩

theorem stay_leaves (h : Heap) (hn : f.ip ∈ ns) :
    Meets (f.Leaves qs ns) (f.Blames ps) (.ok (h, f)) :=
  ⟨hn, AgreesOff.refl f⟩

/-- The two destinations of a step of an iterator: the iterator itself and the registers that take
what it delivers. -/
theorem iterNext_leaves (h : Heap) (iter : IterReg) (dsts : List AnyReg) (it : Iterator)
    (values : List Value) (hn : f.ip ∈ ns) (hp : iter.place :: dsts.map AnyReg.place ⊆ ps) :
    Meets (f.Leaves (iter.place :: dsts.map AnyReg.place) ns) (f.Blames ps)
      (f.set iter (some it) >>= fun g => (g.writeZip h dsts values).map (h, ·)) := by
  have hi : [iter.place] ⊆ ps := fun p hm => hp (by simp_all)
  have hd : dsts.map AnyReg.place ⊆ ps := fun p hm => hp (List.mem_cons_of_mem _ hm)
  refine ((f.set_meets iter (some it)).mono (fun _ hg => hg) fun e he => he.mono hi).bind
    fun g hg => ?_
  refine ((g.writeZip_meets h dsts values).mono (fun _ hk => hk) fun e he => ?_).map fun k hk => ?_
  · exact (Blames.of_agreesOff hg.1 he).mono hd
  · exact ⟨(hk.2.trans hg.2.1) ▸ hn, hg.1.trans hk.1⟩

/-- **An instruction keeps to what it names.** -/
theorem exec_meets (p : Program) (isHeld : Ref → Bool) (h : Heap) (f : Frame) {i : Instruction}
    (hi : i.isLocal = true) :
    Meets (f.Leaves i.destinations (i.targets f.ip)) (f.Blames i.places)
      (f.exec p isHeld h i) := by
  cases i with
  | nop => exact stay_leaves h (by simp)
  | intConst dst value => exact set_leaves h _ (by simp) (by simp) (by simp)
  | floatConst dst value => exact set_leaves h _ (by simp) (by simp) (by simp)
  | boolConst dst value => exact set_leaves h _ (by simp) (by simp) (by simp)
  | strConst dst index =>
    simp only [exec]
    cases p.constant? index with
    | some s => exact set_leaves h _ (by simp) (by simp) (by simp)
    | none => exact Blames.of_not_fatal rfl
  | null dst => exact set_leaves h _ (by simp) (by simp) (by simp)
  | move src dst =>
    refine (read_within (by simp)).bind fun v _ => ?_
    exact write_leaves h v (by simp) (by simp) (by simp)
  | intOp op lhs rhs dst =>
    -- a divisor is looked at before its dividend, and other operands in their order
    simp only [exec]
    split
    · refine (get_within (by simp)).bind fun b _ => ?_
      split
      · exact Blames.of_not_fatal rfl
      · refine (get_within (by simp)).bind fun a _ => ?_
        cases op.eval? a b with
        | some c => exact set_leaves h _ (by simp) (by simp) (by simp)
        | none => exact Blames.of_not_fatal rfl
    · refine (get_within (by simp)).bind fun a _ => (get_within (by simp)).bind fun b _ => ?_
      cases op.eval? a b with
      | some c => exact set_leaves h _ (by simp) (by simp) (by simp)
      | none => exact Blames.of_not_fatal rfl
  | floatOp op lhs rhs dst =>
    refine (get_within (by simp)).bind fun a _ => (get_within (by simp)).bind fun b _ => ?_
    exact set_leaves h _ (by simp) (by simp) (by simp)
  | intCompare op lhs rhs dst =>
    refine (get_within (by simp)).bind fun a _ => (get_within (by simp)).bind fun b _ => ?_
    exact set_leaves h _ (by simp) (by simp) (by simp)
  | floatLess lhs rhs dst =>
    refine (get_within (by simp)).bind fun a _ => (get_within (by simp)).bind fun b _ => ?_
    exact set_leaves h _ (by simp) (by simp) (by simp)
  | strEqual lhs rhs dst =>
    refine (get_within (by simp)).bind fun a _ => (get_within (by simp)).bind fun b _ => ?_
    exact set_leaves h _ (by simp) (by simp) (by simp)
  | concat lhs rhs dst =>
    refine (get_within (by simp)).bind fun a _ => (get_within (by simp)).bind fun b _ => ?_
    exact set_leaves h _ (by simp) (by simp) (by simp)
  | not src dst =>
    refine (get_within (by simp)).bind fun a _ => ?_
    exact set_leaves h _ (by simp) (by simp) (by simp)
  | goto target => exact goTo_leaves h (by simp)
  | branch when cond target =>
    refine (get_within (by simp)).bind fun c _ => ?_
    split
    · exact goTo_leaves h (by simp)
    · exact stay_leaves h (by simp)
  | newArray kind length dst =>
    cases length with
    | none => exact setNew_leaves h _ (by simp) (by simp) (by simp)
    | some r =>
      refine (get_within (by simp)).bind fun n _ => ?_
      cases ArrayObject.ofLength kind n with
      | ok a => exact setNew_leaves h _ (by simp) (by simp) (by simp)
      | error e => exact Blames.of_not_fatal rfl
  | arrayLoad array index dst =>
    refine (get_within (by simp)).bind fun v _ => ?_
    refine ((h.expectArray_harmless v).blames f _).bind fun a _ => ?_
    refine (get_within (by simp)).bind fun index _ => ?_
    refine ((ExecutionError.ofArray_harmless _).blames f _).bind fun v _ => ?_
    exact write_leaves h v (by simp) (by simp) (by simp)
  | arrayStore array index src =>
    refine (get_within (by simp)).bind fun v _ => ?_
    refine ((h.expectArray_harmless v).blames f _).bind fun a _ => ?_
    refine (read_within (by simp)).bind fun v _ => (get_within (by simp)).bind fun index _ => ?_
    refine ((ExecutionError.ofArray_harmless _).blames f _).bind fun h _ => ?_
    exact stay_leaves h (by simp)
  | length src dst =>
    refine (get_within (by simp)).bind fun v _ => ?_
    refine ((h.lengthOf_harmless v).blames f _).bind fun n _ => ?_
    exact set_leaves h _ (by simp) (by simp) (by simp)
  | newMap dst => exact setNew_leaves h _ (by simp) (by simp) (by simp)
  | mapStore map key src =>
    refine (get_within (by simp)).bind fun v _ => ?_
    refine ((h.expectMap_harmless v).blames f _).bind fun m _ => ?_
    refine (read_within (by simp)).bind fun v _ => (get_within (by simp)).bind fun key _ => ?_
    exact stay_leaves _ (by simp)
  | mapLoad map key dst =>
    refine (get_within (by simp)).bind fun v _ => ?_
    refine ((h.expectMap_harmless v).blames f _).bind fun m _ => ?_
    refine (get_within (by simp)).bind fun key _ => ?_
    exact write_leaves h _ (by simp) (by simp) (by simp)
  | newRecord typeName dst => exact setNew_leaves h _ (by simp) (by simp) (by simp)
  | fieldStore record field src =>
    refine (get_within (by simp)).bind fun v _ => ?_
    refine ((h.expectRecord_harmless v).blames f _).bind fun m _ => ?_
    refine (read_within (by simp)).bind fun v _ => ?_
    exact stay_leaves _ (by simp)
  | fieldLoad record field dst =>
    refine (get_within (by simp)).bind fun v _ => ?_
    refine ((h.expectRecord_harmless v).blames f _).bind fun m _ => ?_
    exact write_leaves h _ (by simp) (by simp) (by simp)
  | newRange first last dst =>
    refine (get_within (by simp)).bind fun a _ => (get_within (by simp)).bind fun b _ => ?_
    exact set_leaves h _ (by simp) (by simp) (by simp)
  | iterNew collection iter =>
    refine (get_within (by simp)).bind fun v _ => ?_
    split
    · exact Blames.of_not_fatal rfl
    · cases Iterator.over? h v with
      | some it => exact set_leaves h _ (by simp) (by simp) (by simp)
      | none => exact Blames.of_not_fatal rfl
  | iterHasNext iter dst =>
    refine (iterator_within (by simp)).bind fun it _ => ?_
    exact set_leaves h _ (by simp) (by simp) (by simp)
  | iterNext iter dsts =>
    simp only [exec]
    cases Arity.ofWidth? dsts.length with
    | none => exact Blames.of_not_fatal rfl
    | some arity =>
      refine (iterator_within (by simp)).bind fun it _ => ?_
      cases it.next h isHeld arity with
      | error e => exact Blames.of_not_fatal rfl
      | ok r => exact iterNext_leaves h iter dsts r.2 r.1 (by simp) (by simp)
  | newError message dst =>
    refine (get_within (by simp)).bind fun a _ => ?_
    exact set_leaves h _ (by simp) (by simp) (by simp)
  | throw error =>
    refine (get_within (by simp)).bind fun v _ => ?_
    exact Blames.of_not_fatal (h.thrown_not_fatal v)
  | call id args rets => exact absurd hi (by simp)
  | nativeCall name args rets => exact absurd hi (by simp)
  | ret values => exact absurd hi (by simp)

end Frame

end RegisterMachine
