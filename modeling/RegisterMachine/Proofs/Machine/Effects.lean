import RegisterMachine.Proofs.Machine.Moves
import RegisterMachine.Proofs.Value.Isolation

/-!
# How far an instruction reaches

A step that executes anything but a call or a return can be felt in the top frame and in the heap, and
nowhere else. In the frame it is felt at the destinations of the instruction (`Frame.exec_meets`). In the
heap it is felt in one collection at most: the one that a store writes to (`Frame.exec_touches`). All else
about the heap is that there may be a new collection in it.

**`Environment.step_local`** puts these together, for every state of the world and every stack.
-/

namespace RegisterMachine

namespace Frame

/-- The collection in a register. -/
def collection? (f : Frame) (r : RefReg) : Option Ref := (f.get r).toOption.bind Value.ref?

/-- The collection that an instruction writes to. Only stores have one. -/
def storesTo? (f : Frame) : Instruction → Option Ref
  | .arrayStore array _ _ => f.collection? array
  | .mapStore map _ _ => f.collection? map
  | .fieldStore record _ _ => f.collection? record
  | _ => none

/-- The iterator that an instruction takes from is moved, and no further than by the one element. -/
def TakesFrom (isHeld : Ref → Bool) (h : Heap) (f g : Frame) : Instruction → Prop
  | .iterNext iter dsts => ∃ arity it values it', Arity.ofWidth? dsts.length = some arity ∧
      f.iterator iter = .ok it ∧ it.next h isHeld arity = .ok (values, it') ∧ g.iterator iter = .ok it'
  | _ => True

variable {f : Frame} {h : Heap} {target? : Option Ref}

/-! ## What is felt in the heap -/

theorem keep_touches (x : Except ExecutionError Frame) :
    Meets (fun r => h.Touched target? r.1) (fun _ => True) (x.map (h, ·)) :=
  (Meets.any (x := x)).map fun _ _ => .same

theorem setNew_touches (o : Object) (dst : RefReg) :
    Meets (fun r => h.Touched target? r.1) (fun _ => True) (f.setNew h o dst) :=
  Meets.bind_any fun _ => .made o

/-- A store goes on with the collection that its register holds, whichever type it asks for. -/
theorem stores_touches {α : Type} {r : RefReg} {expect : Value → Except ExecutionError (Ref × α)}
    {k : Ref × α → Except ExecutionError (Heap × Frame)}
    (hx : ∀ v, Meets (fun x => v.ref? = some x.1) (fun _ => True) (expect v))
    (hk : ∀ x, f.collection? r = some x.1 →
      Meets (fun y => h.Touched (f.collection? r) y.1) (fun _ => True) (k x)) :
    Meets (fun y => h.Touched (f.collection? r) y.1) (fun _ => True)
      (f.get r >>= fun v => expect v >>= k) := by
  refine (Meets.any.with_eq).bind fun v hv => (hx v).bind fun x hvx => hk x ?_
  rw [collection?, hv.1]
  exact hvx

/-- **An instruction writes to the collection that it names, and to no other.** -/
theorem exec_touches (p : Program) (isHeld : Ref → Bool) (h : Heap) (f : Frame) (i : Instruction) :
    Meets (fun r => h.Touched (f.storesTo? i) r.1) (fun _ => True) (f.exec p isHeld h i) := by
  cases i with
  | nop | goto => exact .same
  | intConst | floatConst | boolConst | null => exact keep_touches _
  | move | not | iterHasNext | newError => exact Meets.bind_any fun _ => keep_touches _
  | floatOp | intCompare | floatLess | strEqual | concat | newRange | length =>
    exact Meets.bind_any fun _ => Meets.bind_any fun _ => keep_touches _
  | strConst dst index =>
    simp only [exec]
    cases p.constant? index with
    | some s => exact keep_touches _
    | none => exact trivial
  | intOp op lhs rhs dst =>
    simp only [exec]
    split
    · refine Meets.bind_any fun b => ?_
      split
      · exact trivial
      · refine Meets.bind_any fun a => ?_
        cases op.eval? a b with
        | some c => exact keep_touches _
        | none => exact trivial
    · refine Meets.bind_any fun a => Meets.bind_any fun b => ?_
      cases op.eval? a b with
      | some c => exact keep_touches _
      | none => exact trivial
  | branch => exact Meets.bind_any fun _ => .same
  | newArray kind length dst =>
    cases length with
    | none => exact setNew_touches (.array (.empty kind)) dst
    | some r =>
      refine Meets.bind_any fun n => ?_
      cases ArrayObject.ofLength kind n with
      | error e => exact trivial
      | ok a => exact setNew_touches (.array a) dst
  | newMap dst => exact setNew_touches (.map []) dst
  | newRecord typeName dst => exact setNew_touches (.record typeName []) dst
  | arrayLoad array index dst =>
    refine Meets.bind_any fun v => Meets.bind_any fun a => ?_
    exact Meets.bind_any fun index => Meets.bind_any fun v => keep_touches _
  | mapLoad map key dst =>
    exact Meets.bind_any fun v => Meets.bind_any fun m => Meets.bind_any fun key => keep_touches _
  | fieldLoad record field dst =>
    exact Meets.bind_any fun v => Meets.bind_any fun m => keep_touches _
  | arrayStore array index src =>
    refine stores_touches (fun v => (h.expectArray_meets v).mono (fun _ hx => hx.1) fun _ _ => trivial)
      fun x hx => Meets.bind_any fun v => Meets.bind_any fun index => ?_
    have hset := h.setElement_touched x.1 x.2 index v
    cases hk : h.setElement x.1 x.2 index v with
    | error e => exact trivial
    | ok k => exact hx ▸ hset.of_ok hk
  | mapStore map key src =>
    refine stores_touches (fun v => (h.expectMap_meets v).mono (fun _ hx => hx.1) fun _ _ => trivial)
      fun x hx => Meets.bind_any fun v => Meets.bind_any fun key => ?_
    exact .written hx _
  | fieldStore record field src =>
    refine stores_touches (fun v => (h.expectRecord_meets v).mono (fun _ hx => hx.1) fun _ _ => trivial)
      fun x hx => Meets.bind_any fun v => ?_
    exact .written hx _
  | iterNew collection iter =>
    refine Meets.bind_any fun v => ?_
    split
    · exact trivial
    · cases Iterator.over? h v with
      | some it => exact keep_touches _
      | none => exact trivial
  | iterNext iter dsts =>
    simp only [exec]
    cases Arity.ofWidth? dsts.length with
    | none => exact trivial
    | some arity =>
      refine Meets.bind_any fun it => ?_
      cases it.next h isHeld arity with
      | error e => exact trivial
      | ok r => exact Meets.bind_any fun g => keep_touches _
  | throw error => exact Meets.bind_any fun v => trivial
  | call | nativeCall | ret => exact .same

/-! ## What is felt in the frame -/

/-- What is delivered goes to registers of values, and the iterator stays where it has been put. -/
theorem exec_takesFrom (p : Program) (isHeld : Ref → Bool) (h : Heap) (f : Frame) (i : Instruction) :
    Meets (fun r => f.TakesFrom isHeld h r.2 i) (fun _ => True) (f.exec p isHeld h i) := by
  cases i with
  | iterNext iter dsts =>
    simp only [exec]
    cases harity : Arity.ofWidth? dsts.length with
    | none => exact trivial
    | some arity =>
      refine (Meets.any.with_eq).bind fun it hit => ?_
      cases hnext : it.next h isHeld arity with
      | error e => exact trivial
      | ok r =>
        obtain ⟨values, it'⟩ := r
        refine ((f.set_meets iter (some it')).mono (fun _ hg => hg) fun _ _ => trivial).bind fun g hg => ?_
        refine ((g.writeZip_meets h dsts values).mono (fun _ hk => hk) fun _ _ => trivial).map fun k hk => ?_
        refine ⟨arity, it, values, it', harity, hit.1, hnext, ?_⟩
        -- it has been put there before the values were written, and they go to other banks
        have hoff : iter.place ∉ dsts.map AnyReg.place := by simp [Reg.place, AnyReg.place]
        rw [iterator, hk.1.get hoff, hg.2.2]
        rfl
  | _ => exact Meets.any

end Frame

namespace Environment

/-- **An instruction is felt where it says it is, and nowhere else.** A step that does not fail leaves all
frames but the top one as they were, and in the top one all but the next instruction and the registers that
the instruction gives something to; an iterator that it takes from has delivered one element more. Nothing is
printed, nobody is started, and the collections that were there are as they were, but for the one that a
store writes to. -/
theorem step_local (env : Environment) (world : World) {w : Worker} {f : Frame} {below : CallStack}
    {i : Instruction} (hw : w.progress = .running) (hs : w.stack = f :: below)
    (hi : env.program.instruction? f.ip = some i) (hl : i.isLocal = true)
    (hok : ∀ fault, (env.step world w).2.progress ≠ .faulted fault) :
    ∃ heap g, env.step world w =
        ({ world with store := { world.store with heap } }, { w with stack := g :: below }) ∧
      f.AgreesOff i.destinations g ∧ g.ip ∈ i.targets (f.ip + 1) ∧
      f.TakesFrom (world.isHeld (f.past :: below)) world.store.heap g i ∧
      ∀ r, r.index < world.store.heap.size → f.storesTo? i ≠ some r →
        heap.get? r = world.store.heap.get? r := by
  have hstep := env.execute_local world w.info f.past below hl
  have hadvance : env.advance world w.info w.stack =
      env.execute world w.info (f.past :: below) i := by
    rw [hs]
    unfold advance
    dsimp only
    rw [hi]
  unfold step at hok ⊢
  rw [hw] at hok ⊢
  dsimp only at hok ⊢
  rw [hadvance, hstep] at hok ⊢
  cases hx : f.past.exec env.program (world.isHeld (f.past :: below)) world.store.heap i with
  | error e =>
    rw [hx] at hok
    exact absurd rfl (hok _)
  | ok r =>
    obtain ⟨heap, g⟩ := r
    obtain ⟨hip, hagree⟩ := (Frame.exec_meets env.program _ world.store.heap f.past hl).of_ok hx
    have htouched := (Frame.exec_touches env.program _ world.store.heap f.past i).of_ok hx
    have htakes := (Frame.exec_takesFrom env.program _ world.store.heap f.past i).of_ok hx
    refine ⟨heap, g, rfl, hagree.of_jump, hip, ?_, fun r hr hne => ?_⟩
    · cases i <;> exact htakes
    · -- the registers are the same before the instruction and past it, and so is the collection it names
      refine htouched.get?_eq hr fun he => hne (he ▸ ?_)
      cases i <;> rfl

end Environment

/-- A function that stores into a map, under a key it is given as well. -/
def Program.storing : Program where
  entryPackage := "app"
  packages := []
  functions := #[⟨"put", "app", ⟨defaultWorkerName, 0, { strs := 1, refs := 1 }⟩, []⟩]
  constants := #[]
  code := #[.mapStore ⟨0⟩ ⟨0⟩ ⟨.str, 0⟩, .ret []]
  lines := []

/-- Of two maps the one that is stored into changes, and the other one does not. -/
theorem Environment.storing_local :
    let env : Environment := ⟨.storing, [], 8⟩
    let world : World := .start ⟨⟨#[.map [], .map []]⟩, #[]⟩ []
    let frame := ((Frame.start ⟨0⟩ ⟨defaultWorkerName, 0, { strs := 1, refs := 1 }⟩).fill
      world.store.heap [(.value .ref, .collection ⟨0⟩), (.value .str, .str "key")]).1
    let w : Worker := .start ⟨1, ⟨0⟩, "put", defaultWorkerName⟩ frame
    ∃ heap g, env.step world w =
        ({ world with store := { world.store with heap } }, { w with stack := [g] }) ∧
      g.ip = 1 ∧ heap.get? ⟨0⟩ = some (.map [("key", .str "key")]) ∧ heap.get? ⟨1⟩ = some (.map []) := by
  intro env world frame w
  obtain ⟨heap, g, hstep, -, hip, -, hheap⟩ :=
    env.step_local world (w := w) rfl (show w.stack = [frame] from rfl) rfl rfl fun _ hf => nomatch hf
  have hold := congrArg (fun x => x.1.store.heap.get? ⟨0⟩) hstep
  exact ⟨heap, g, hstep, List.mem_singleton.mp hip, hold.symm, hheap ⟨1⟩ (by decide) (by decide)⟩

end RegisterMachine
