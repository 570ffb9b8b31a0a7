import RegisterMachine.Proofs.Frame.Alike

/-!
# An instruction in two frames at once

**`Frame.exec_alike`**: an instruction within a frame does the same in two frames that are alike, where
the heap of the one is within the heap of the other. The proof is one case for each instruction, and a
case is the chain of accesses that the instruction makes.
-/

namespace RegisterMachine

variable {l : Link} {h h' : Heap}

/-! ## What an instruction expects of a value -/

namespace Heap.Within

theorem expectArray (hw : h.Within l h') {v w : Value} (hv : v.Alike l w) :
    Agree (fun x y => l x.1 y.1 ∧ x.2.Alike l y.2) (h.expectArray v) (h'.expectArray w) := by
  have htag := hw.tag hv
  unfold Heap.expectArray Heap.object?
  rw [htag]
  cases hv with
  | @scalar v hv =>
    cases v with
    | collection r => cases hv
    | _ => exact .error _
  | collection hr =>
    obtain ⟨o, o', ho, ho', ha⟩ := hw.objects hr
    dsimp only
    rw [ho, ho']
    cases ha with
    | array ha => exact .ok ⟨hr, ha⟩
    | map ha => exact .error _
    | record ha => exact .error _

theorem expectMap (hw : h.Within l h') {v w : Value} (hv : v.Alike l w) :
    Agree (fun x y => l x.1 y.1 ∧ Entries.Alike l x.2 y.2) (h.expectMap v) (h'.expectMap w) := by
  have htag := hw.tag hv
  unfold Heap.expectMap Heap.object?
  rw [htag]
  cases hv with
  | @scalar v hv =>
    cases v with
    | collection r => cases hv
    | _ => exact .error _
  | collection hr =>
    obtain ⟨o, o', ho, ho', ha⟩ := hw.objects hr
    dsimp only
    rw [ho, ho']
    cases ha with
    | map ha => exact .ok ⟨hr, ha⟩
    | array ha => exact .error _
    | record ha => exact .error _

theorem expectRecord (hw : h.Within l h') {v w : Value} (hv : v.Alike l w) :
    Agree (fun x y => l x.1 y.1 ∧ x.2.1 = y.2.1 ∧ Entries.Alike l x.2.2 y.2.2)
      (h.expectRecord v) (h'.expectRecord w) := by
  have htag := hw.tag hv
  unfold Heap.expectRecord Heap.object?
  rw [htag]
  cases hv with
  | @scalar v hv =>
    cases v with
    | collection r => cases hv
    | _ => exact .error _
  | collection hr =>
    obtain ⟨o, o', ho, ho', ha⟩ := hw.objects hr
    dsimp only
    rw [ho, ho']
    cases ha with
    | record ha => exact .ok ⟨hr, rfl, ha⟩
    | array ha => exact .error _
    | map ha => exact .error _

theorem lengthOf (hw : h.Within l h') {v w : Value} (hv : v.Alike l w) :
    Agree Eq (h.lengthOf v) (h'.lengthOf w) := by
  have htag := hw.tag hv
  unfold Heap.lengthOf Heap.object?
  rw [htag]
  cases hv with
  | @scalar v hv =>
    cases v with
    | collection r => cases hv
    | _ => exact .refl _
  | collection hr =>
    obtain ⟨o, o', ho, ho', ha⟩ := hw.objects hr
    dsimp only
    rw [ho, ho']
    cases ha with
    | array ha => exact .ok (congrArg Int64.ofNat ha.size.symm)
    | map ha => exact .ok (congrArg Int64.ofNat ha.length_eq)
    | record ha => exact .error _

theorem thrown (hw : h.Within l h') {v w : Value} (hv : v.Alike l w) :
    h.thrown v = h'.thrown w := by
  have htext := hw.text hv
  unfold Heap.thrown
  cases hv with
  | @scalar v hv =>
    cases v with
    | null => rfl
    | error e => rfl
    | collection r => cases hv
    | _ => exact congrArg (fun message => ExecutionError.raised { message }) htext
  | collection hr => exact congrArg (fun message => ExecutionError.raised { message }) htext

end Heap.Within

theorem ExecutionError.ofArray_agree {α β : Type} {R : α → β → Prop} {x : Except ArrayError α}
    {y : Except ArrayError β} (hx : Agree R x y) : Agree R (ofArray x) (ofArray y) := hx.mapError

namespace Frame

/-- What an instruction leaves on both sides. -/
def InStep (l : Link) (h h' : Heap) (x y : Heap × Frame) : Prop :=
  ∃ l', h.InStep l h' l' x.1 y.1 ∧ x.2.Alike l' y.2

variable {f g : Frame}

/-- The heaps are as they were. -/
theorem keep_alike (hw : h.Within l h') {x y : Except ExecutionError Frame}
    (hx : Agree (Frame.Alike l) x y) : Agree (InStep l h h') (x.map (h, ·)) (y.map (h', ·)) :=
  hx.map fun _ _ hf => ⟨l, .refl hw, hf⟩

/-- The frames are as they were. -/
theorem stay_alike {k k' : Heap} (hk : Heap.InStep l h h' l k k') (hf : f.Alike l g) :
    Agree (InStep l h h') (.ok (k, f) : Except ExecutionError (Heap × Frame)) (.ok (k', g)) :=
  .ok ⟨l, hk, hf⟩

theorem setNew_alike (hw : h.Within l h') (hf : f.Alike l g) {o o' : Object} (ho : o.Alike l o')
    (dst : RefReg) : Agree (InStep l h h') (f.setNew h o dst) (g.setNew h' o' dst) := by
  obtain ⟨l', hstep, hnext⟩ := Heap.InStep.alloc hw ho
  have hset := (hf.mono fun _ _ => hstep.le).set dst (Value.Alike.collection hnext)
  exact hset.bind fun _ _ hf => .ok ⟨l', hstep, hf⟩

/-- What is read on both sides is the same where the bank holds no references. -/
theorem get_bind {α β : Type} {R : α → β → Prop} {b : Bank}
    (hb : ∀ x y : b.Slot, b.SlotAlike l x y → x = y) (hf : f.Alike l g) (r : Reg b)
    {k : b.Slot → Except ExecutionError α} {m : b.Slot → Except ExecutionError β}
    (hk : ∀ x, Agree R (k x) (m x)) : Agree R (f.get r >>= k) (g.get r >>= m) :=
  ((hf.get r).mono hb).bind_eq hk

/-- **An instruction within a frame does the same on both sides.** -/
theorem exec_alike (p : Program) {held held' : Ref → Bool} (hw : h.Within l h')
    (hheld : ∀ r s, l r s → held r = held' s) (hf : f.Alike l g) (i : Instruction) :
    Agree (InStep l h h') (f.exec p held h i) (g.exec p held' h' i) := by
  have hrefl := Heap.InStep.refl hw
  have htag : h.SameTags l h' := fun _ _ => hw.tag
  cases i with
  | nop => exact stay_alike hrefl hf
  | intConst dst value => exact keep_alike hw (hf.set dst rfl)
  | floatConst dst value => exact keep_alike hw (hf.set dst rfl)
  | boolConst dst value => exact keep_alike hw (hf.set dst rfl)
  | strConst dst index =>
    simp only [exec]
    cases p.constant? index with
    | some s => exact keep_alike hw (hf.set dst rfl)
    | none => exact .error _
  | null dst => exact keep_alike hw (hf.set dst (Value.Alike.scalar rfl))
  | move src dst => exact (hf.read src).bind fun v w hv => keep_alike hw (hf.write htag dst hv)
  | intOp op lhs rhs dst =>
    simp only [exec]
    split
    · -- a divisor is looked at before what it divides
      refine get_bind (fun _ _ => id) hf rhs fun b => ?_
      split
      · exact .error _
      · refine get_bind (fun _ _ => id) hf lhs fun a => ?_
        cases op.eval? a b with
        | some c => exact keep_alike hw (hf.set dst rfl)
        | none => exact .error _
    · refine get_bind (fun _ _ => id) hf lhs fun a => get_bind (fun _ _ => id) hf rhs fun b => ?_
      cases op.eval? a b with
      | some c => exact keep_alike hw (hf.set dst rfl)
      | none => exact .error _
  | floatOp op lhs rhs dst =>
    refine get_bind (fun _ _ => id) hf lhs fun a => get_bind (fun _ _ => id) hf rhs fun b => ?_
    exact keep_alike hw (hf.set dst rfl)
  | intCompare op lhs rhs dst =>
    refine get_bind (fun _ _ => id) hf lhs fun a => get_bind (fun _ _ => id) hf rhs fun b => ?_
    exact keep_alike hw (hf.set dst rfl)
  | floatLess lhs rhs dst =>
    refine get_bind (fun _ _ => id) hf lhs fun a => get_bind (fun _ _ => id) hf rhs fun b => ?_
    exact keep_alike hw (hf.set dst rfl)
  | strEqual lhs rhs dst =>
    refine get_bind (fun _ _ => id) hf lhs fun a => get_bind (fun _ _ => id) hf rhs fun b => ?_
    exact keep_alike hw (hf.set dst rfl)
  | concat lhs rhs dst =>
    refine get_bind (fun _ _ => id) hf lhs fun a => get_bind (fun _ _ => id) hf rhs fun b => ?_
    exact keep_alike hw (hf.set dst rfl)
  | not src dst =>
    refine get_bind (fun _ _ => id) hf src fun a => ?_
    exact keep_alike hw (hf.set dst rfl)
  | goto target => exact stay_alike hrefl (hf.goTo target)
  | branch when cond target =>
    refine get_bind (fun _ _ => id) hf cond fun c => ?_
    refine stay_alike hrefl ?_
    split
    · exact hf.goTo target
    · exact hf
  | newArray kind length dst =>
    cases length with
    | none =>
      refine setNew_alike hw hf (.array (.mk ?_)) dst
      exact Growable.Alike.replicate kind.slotAlike_default defaultArraySize 0
    | some r =>
      refine get_bind (fun _ _ => id) hf r fun n => ?_
      have hnew := ArrayObject.Alike.ofLength l kind n
      cases ha : ArrayObject.ofLength kind n with
      | error e => exact .error _
      | ok a =>
        rw [ha] at hnew
        cases hnew with
        | ok hnew => exact setNew_alike hw hf (.array hnew) dst
  | arrayLoad array index dst =>
    refine (hf.get array).bind fun v w hv => (hw.expectArray hv).bind fun a b hab => ?_
    refine get_bind (fun _ _ => id) hf index fun index => ?_
    refine (ExecutionError.ofArray_agree (hab.2.get index)).bind fun v w hv => ?_
    exact keep_alike hw (hf.write htag dst hv)
  | arrayStore array index src =>
    refine (hf.get array).bind fun v w hv => (hw.expectArray hv).bind fun a b hab => ?_
    refine (hf.read src).bind fun v w hv => ?_
    refine get_bind (fun _ _ => id) hf index fun index => ?_
    have hset := Heap.InStep.setElement hw hab.1 hab.2 index hv
    exact (ExecutionError.ofArray_agree hset).bind fun k k' hk => stay_alike hk hf
  | length src dst =>
    refine (hf.get src).bind fun v w hv => (hw.lengthOf hv).bind_eq fun n => ?_
    exact keep_alike hw (hf.set dst rfl)
  | newMap dst => exact setNew_alike hw hf (.map .nil) dst
  | mapStore map key src =>
    refine (hf.get map).bind fun v w hv => (hw.expectMap hv).bind fun a b hab => ?_
    refine (hf.read src).bind fun v w hv => ?_
    refine get_bind (fun _ _ => id) hf key fun key => ?_
    exact stay_alike (.set hw hab.1 (.map (hab.2.insert key hv))) hf
  | mapLoad map key dst =>
    refine (hf.get map).bind fun v w hv => (hw.expectMap hv).bind fun a b hab => ?_
    refine get_bind (fun _ _ => id) hf key fun key => ?_
    exact keep_alike hw (hf.write htag dst (hab.2.get key))
  | newRecord typeName dst => exact setNew_alike hw hf (.record .nil) dst
  | fieldStore record field src =>
    refine (hf.get record).bind fun v w hv => (hw.expectRecord hv).bind fun a b hab => ?_
    obtain ⟨r, name, fields⟩ := a
    obtain ⟨s, name', fields'⟩ := b
    obtain ⟨hr, rfl, hfields⟩ := hab
    refine (hf.read src).bind fun v w hv => ?_
    exact stay_alike (.set hw hr (.record (hfields.insert field hv))) hf
  | fieldLoad record field dst =>
    refine (hf.get record).bind fun v w hv => (hw.expectRecord hv).bind fun a b hab => ?_
    exact keep_alike hw (hf.write htag dst (hab.2.2.get field))
  | newRange first last dst =>
    refine get_bind (fun _ _ => id) hf first fun a => get_bind (fun _ _ => id) hf last fun b => ?_
    exact keep_alike hw (hf.set dst (Value.Alike.scalar rfl))
  | iterNew collection iter =>
    refine (hf.get collection).bind fun v w hv => ?_
    rw [Value.Alike.isNull hv, hw.tag hv]
    split
    · exact .error _
    · have hover := Iterator.Alike.over? hw hv
      generalize Iterator.over? h v = x at hover
      generalize Iterator.over? h' w = y at hover
      cases hover with
      | some hit => exact keep_alike hw (hf.set iter (.some hit))
      | none => exact .error _
  | iterHasNext iter dst =>
    refine (hf.iterator iter).bind fun it it' hit => ?_
    rw [hit.hasNext hheld]
    exact keep_alike hw (hf.set dst rfl)
  | iterNext iter dsts =>
    simp only [exec]
    cases Arity.ofWidth? dsts.length with
    | none => exact .error _
    | some arity =>
      refine (hf.iterator iter).bind fun it it' hit => ?_
      have hnext := Iterator.Alike.next hw hheld arity hit
      generalize it.next h held arity = x at hnext
      generalize it'.next h' held' arity = y at hnext
      cases hnext with
      | error e => exact .error _
      | @ok a b hab =>
        obtain ⟨values, it⟩ := a
        obtain ⟨values', it'⟩ := b
        refine (hf.set iter (.some hab.2)).bind fun f g hf => ?_
        exact keep_alike hw (hf.writeZip htag dsts hab.1)
  | newError message dst =>
    refine get_bind (fun _ _ => id) hf message fun message => ?_
    exact keep_alike hw (hf.set dst (Value.Alike.scalar rfl))
  | throw error =>
    refine (hf.get error).bind fun v w hv => ?_
    rw [hw.thrown hv]
    exact .error _
  | call id args rets => exact stay_alike hrefl hf
  | nativeCall name args rets => exact stay_alike hrefl hf
  | ret values => exact stay_alike hrefl hf

end Frame

end RegisterMachine
