import RegisterMachine.Machine.Local
import RegisterMachine.Proofs.Program.Operands
import RegisterMachine.Proofs.Value.Render

/-!
# Frames that are alike

Two frames are alike when they are activations of the same code at the same place and their registers
hold alike values. An instruction that is executed in both, each in its own heap, either fails in both
with one error or succeeds in both, and the frames are still alike: **`Frame.exec_alike`**. The one
thing about the heaps that an instruction asks beyond the objects it names is which of them are held,
so that is taken to have the same answer on both sides.
-/

namespace RegisterMachine

/-! ## Iterators -/

inductive Iterator.Alike (l : Link) : Iterator → Iterator → Prop
  | array {r s : Ref} (hr : l r s) (cursor length : Nat) :
      Alike l (.array r cursor length) (.array s cursor length)
  | map {r s : Ref} (hr : l r s) (keys : List String) : Alike l (.map r keys) (.map s keys)
  | range (source : IntRange) (cursor : Int64) (next : Option Int64) :
      Alike l (.range source cursor next) (.range source cursor next)

namespace Iterator.Alike

variable {l k : Link} {h h' : Heap} {it it' : Iterator}

theorem mono (hi : it.Alike l it') (hl : ∀ r s, l r s → k r s) : it.Alike k it' := by
  cases hi with
  | array hr cursor length => exact .array (hl _ _ hr) cursor length
  | map hr keys => exact .map (hl _ _ hr) keys
  | range source cursor next => exact .range source cursor next

theorem over? (hw : h.Within l h') {v w : Value} (hv : v.Alike l w) :
    Option.Rel (Iterator.Alike l) (Iterator.over? h v) (Iterator.over? h' w) := by
  cases hv with
  | @scalar v hv =>
    cases v with
    | collection r => cases hv
    | range r => exact .some (.range _ _ _)
    | _ => exact .none
  | @collection r s hr =>
    obtain ⟨o, o', ho, ho', ha⟩ := hw.objects hr
    unfold Iterator.over?
    dsimp only
    rw [ho, ho']
    cases ha with
    | array ha =>
      dsimp only
      rw [ha.size]
      exact .some (.array hr _ _)
    | map ha =>
      dsimp only
      rw [ha.keys]
      exact .some (.map hr _)
    | record ha => exact .none

theorem hasNext {held held' : Ref → Bool} (hheld : ∀ r s, l r s → held r = held' s)
    (hi : it.Alike l it') : it.hasNext held = it'.hasNext held' := by
  cases hi with
  | array hr cursor length => exact congrArg (decide (cursor < length) && ·) (hheld _ _ hr)
  | map hr keys => exact congrArg (!keys.isEmpty && ·) (hheld _ _ hr)
  | range source cursor next => rfl

theorem pack (arity : Arity) {position v w : Value} (hp : position.ref? = none)
    (hv : v.Alike l w) :
    List.Forall₂ (Value.Alike l) (arity.pack position v) (arity.pack position w) := by
  cases arity with
  | one => exact .cons hv .nil
  | two => exact .cons (.scalar hp) (.cons hv .nil)

theorem next (hw : h.Within l h') {held held' : Ref → Bool}
    (hheld : ∀ r s, l r s → held r = held' s) (arity : Arity) (hi : it.Alike l it') :
    Agree (fun x y => List.Forall₂ (Value.Alike l) x.1 y.1 ∧ x.2.Alike l y.2)
      (it.next h held arity) (it'.next h' held' arity) := by
  cases hi with
  | @array r s hr cursor length =>
    obtain ⟨o, o', ho, ho', ha⟩ := hw.objects hr
    unfold Iterator.next
    dsimp only
    rw [ho, ho', hheld r s hr]
    by_cases hc : cursor < length
    · rw [if_pos hc, if_pos hc]
      by_cases hs : held' s = true
      · rw [if_pos hs, if_pos hs]
        cases ha with
        | @array a b ha =>
          have hget := ha.get (.ofNat cursor)
          dsimp only
          generalize a.get (.ofNat cursor) = x at hget
          generalize b.get (.ofNat cursor) = y at hget
          cases hget with
          | ok hv => exact .ok ⟨pack arity rfl hv, .array hr _ _⟩
          | error e => exact .error _
        | map ha => exact .error _
        | record ha => exact .error _
      · rw [if_neg hs, if_neg hs]
        exact .error _
    · rw [if_neg hc, if_neg hc]
      exact .error _
  | @map r s hr keys =>
    obtain ⟨o, o', ho, ho', ha⟩ := hw.objects hr
    unfold Iterator.next
    dsimp only
    rw [ho, ho', hheld r s hr]
    cases keys with
    | nil => exact .error _
    | cons key rest =>
      by_cases hs : held' s = true
      · dsimp only
        rw [if_pos hs, if_pos hs]
        cases ha with
        | map ha => exact .ok ⟨pack arity rfl (ha.get key), .map hr _⟩
        | array ha => exact .error _
        | record ha => exact .error _
      · dsimp only
        rw [if_neg hs, if_neg hs]
        exact .error _
  | range source cursor next =>
    unfold Iterator.next
    cases next with
    | none => exact .error _
    | some current =>
      dsimp only
      split
      · exact .ok ⟨pack arity rfl (.scalar rfl), .range _ _ _⟩
      · exact .error _

end Iterator.Alike

/-! ## Registers -/

namespace ValueBank

/-- Only the registers of one bank hold values with references. -/
def SlotAlike (l : Link) : (b : ValueBank) → b.Slot → b.Slot → Prop
  | ref, v, w => Value.Alike l v w
  | _, x, y => x = y

variable {l k : Link} {b : ValueBank}

theorem SlotAlike.mono {x y : b.Slot} (h : b.SlotAlike l x y) (hl : ∀ r s, l r s → k r s) :
    b.SlotAlike k x y := by
  cases b with
  | ref => exact Value.Alike.mono h hl
  | _ => exact h

theorem SlotAlike.toValue {x y : b.Slot} (h : b.SlotAlike l x y) :
    (b.toValue x).Alike l (b.toValue y) := by
  cases b with
  | ref => exact h
  | _ =>
    cases h
    exact .scalar rfl

theorem slotAlike_default : b.SlotAlike l b.default b.default := by
  cases b with
  | ref => exact .scalar rfl
  | _ => exact rfl

theorem ofValue?_alike {v w : Value} (h : v.Alike l w) :
    Option.Rel (b.SlotAlike l) (b.ofValue? v) (b.ofValue? w) := by
  cases b with
  | ref => exact .some h
  | _ =>
    cases h with
    | scalar h => cases v <;> first | exact .none | exact .some rfl
    | collection h => exact .none

end ValueBank

def Bank.SlotAlike (l : Link) : (b : Bank) → b.Slot → b.Slot → Prop
  | .value b, x, y => b.SlotAlike l x y
  | .iter, x, y => Option.Rel (Iterator.Alike l) x y

theorem Bank.SlotAlike.mono {l k : Link} {b : Bank} {x y : b.Slot} (h : b.SlotAlike l x y)
    (hl : ∀ r s, l r s → k r s) : b.SlotAlike k x y := by
  cases b with
  | value b => exact ValueBank.SlotAlike.mono h hl
  | iter =>
    cases h with
    | some h => exact .some (h.mono hl)
    | none => exact .none

/-- Register for register, in every bank. -/
def Registers.Alike (l : Link) (regs regs' : Registers) : Prop :=
  ∀ b, List.Forall₂ (b.SlotAlike l) (regs.bank b).toList (regs'.bank b).toList

namespace Registers.Alike

variable {l k : Link} {regs regs' : Registers}

theorem mono (h : regs.Alike l regs') (hl : ∀ r s, l r s → k r s) : regs.Alike k regs' :=
  fun b => (h b).imp fun _ _ hx => hx.mono hl

theorem ofShape (l : Link) (shape : RegisterShape) :
    Alike l (Registers.ofShape shape) (Registers.ofShape shape) := by
  intro b
  have hrep : ∀ (n : Nat) (x : b.Slot), b.SlotAlike l x x →
      List.Forall₂ (b.SlotAlike l) (Array.replicate n x).toList (Array.replicate n x).toList := by
    intro n x hx
    rw [Array.toList_replicate]
    exact forall₂_replicate n hx
  cases b with
  | value b =>
    cases b with
    | ref => exact hrep _ _ (Value.Alike.scalar rfl)
    | _ => exact hrep _ _ rfl
  | iter => exact hrep _ _ .none

theorem get {b : Bank} (h : regs.Alike l regs') (r : Reg b) :
    Agree (b.SlotAlike l) (regs.get r) (regs'.get r) := by
  have hslot := forall₂_getElem? (h b) r.index.toNat
  rw [Array.getElem?_toList, Array.getElem?_toList] at hslot
  unfold Registers.get
  generalize (regs.bank b)[r.index.toNat]? = x at hslot
  generalize (regs'.bank b)[r.index.toNat]? = y at hslot
  cases hslot with
  | some hxy => exact .ok hxy
  | none => exact .error _

theorem set {b : Bank} (h : regs.Alike l regs') (r : Reg b) {x y : b.Slot}
    (hxy : b.SlotAlike l x y) : Agree (Alike l) (regs.set r x) (regs'.set r y) := by
  have hsize : (regs.bank b).size = (regs'.bank b).size := (h b).length_eq
  unfold Registers.set
  rw [hsize]
  split
  · refine .ok fun c => ?_
    by_cases hc : c = b
    · subst hc
      rw [bank_modify_self, bank_modify_self, Array.toList_setIfInBounds, Array.toList_setIfInBounds]
      exact forall₂_set (h c) _ hxy
    · rw [bank_modify_of_ne _ hc, bank_modify_of_ne _ hc]
      exact h c
  · exact .error _

theorem held (h : regs.Alike l regs') : List.Forall₂ l regs.held regs'.held :=
  forall₂_filterMap_ref? (h (.value .ref))

end Registers.Alike

/-! ## Frames -/

structure Frame.Alike (l : Link) (f g : Frame) : Prop where
  function : f.function = g.function
  worker : f.worker = g.worker
  ip : f.ip = g.ip
  entry : f.entry = g.entry
  returnTo : f.returnTo = g.returnTo
  rets : f.rets = g.rets
  regs : f.regs.Alike l g.regs

/-- Alike values have one type. All that an error says about a value is its type. -/
abbrev Heap.SameTags (l : Link) (h h' : Heap) : Prop := ∀ v w, v.Alike l w → h'.tag w = h.tag v

namespace Frame.Alike

variable {l k : Link} {h h' : Heap} {f g : Frame}

theorem mono (hf : f.Alike l g) (hl : ∀ r s, l r s → k r s) : f.Alike k g :=
  { hf with regs := hf.regs.mono hl }

theorem start (l : Link) (id : FunctionId) (w : WorkerInfo) :
    Alike l (Frame.start id w) (Frame.start id w) :=
  ⟨rfl, rfl, rfl, rfl, rfl, rfl, .ofShape l w.registers⟩

theorem returningTo (hf : f.Alike l g) (ip : Nat) (rets : List AnyReg) :
    (f.returningTo ip rets).Alike l (g.returningTo ip rets) :=
  { hf with returnTo := rfl, rets := rfl }

theorem goTo (hf : f.Alike l g) (ip : Nat) :
    Alike l { f with ip } { g with ip } :=
  { hf with ip := rfl }

theorem past (hf : f.Alike l g) : f.past.Alike l g.past :=
  { hf with ip := congrArg (· + 1) hf.ip }

/-! ### One register -/

theorem get {b : Bank} (hf : f.Alike l g) (r : Reg b) :
    Agree (b.SlotAlike l) (f.get r) (g.get r) := hf.regs.get r

theorem set {b : Bank} (hf : f.Alike l g) (r : Reg b) {x y : b.Slot} (hxy : b.SlotAlike l x y) :
    Agree (Frame.Alike l) (f.set r x) (g.set r y) :=
  (hf.regs.set r hxy).map fun _ _ hr => { hf with regs := hr }

theorem iterator (hf : f.Alike l g) (r : IterReg) :
    Agree (Iterator.Alike l) (f.iterator r) (g.iterator r) := by
  refine (hf.get r).bind fun x y hxy => ?_
  cases hxy with
  | some h => exact .ok h
  | none => exact .error _

theorem read (hf : f.Alike l g) (r : AnyReg) :
    Agree (Value.Alike l) (f.read r) (g.read r) :=
  (hf.get r.reg).map fun _ _ hx => ValueBank.SlotAlike.toValue hx

theorem write (ht : h.SameTags l h') (hf : f.Alike l g) (r : AnyReg) {v w : Value}
    (hv : v.Alike l w) : Agree (Frame.Alike l) (f.write h r v) (g.write h' r w) := by
  have hslot := ValueBank.ofValue?_alike (b := r.bank) hv
  unfold Frame.write
  rw [ht v w hv]
  generalize r.bank.ofValue? v = x at hslot
  generalize r.bank.ofValue? w = y at hslot
  cases hslot with
  | some hxy => exact hf.set r.reg hxy
  | none => exact .error _

theorem writeDefault (hf : f.Alike l g) (r : AnyReg) :
    Agree (Frame.Alike l) (f.writeDefault r) (g.writeDefault r) :=
  hf.set r.reg ValueBank.slotAlike_default

/-! ### Some registers -/

theorem readAll (hf : f.Alike l g) (regs : List AnyReg) :
    Agree (List.Forall₂ (Value.Alike l)) (f.readAll regs) (g.readAll regs) :=
  Agree.mapM (T := Eq) (List.forall₂_refl regs) fun r _ hr => hr ▸ hf.read r

theorem writeAll (ht : h.SameTags l h') (regs : List AnyReg) {vs ws : List Value}
    (hv : List.Forall₂ (Value.Alike l) vs ws) (hf : f.Alike l g) :
    Agree (Frame.Alike l) (f.writeAll h regs vs) (g.writeAll h' regs ws) := by
  induction regs generalizing vs ws f g with
  | nil => exact .ok hf
  | cons r rest ih =>
    cases hv with
    | nil => exact (hf.writeDefault r).bind fun _ _ hf => ih .nil hf
    | cons hv hvs => exact (hf.write ht r hv).bind fun _ _ hf => ih hvs hf

theorem writeZip (ht : h.SameTags l h') (regs : List AnyReg) {vs ws : List Value}
    (hv : List.Forall₂ (Value.Alike l) vs ws) (hf : f.Alike l g) :
    Agree (Frame.Alike l) (f.writeZip h regs vs) (g.writeZip h' regs ws) := by
  induction regs generalizing vs ws f g with
  | nil => exact .ok hf
  | cons r rest ih =>
    cases hv with
    | nil => exact .ok hf
    | cons hv hvs => exact (hf.write ht r hv).bind fun _ _ hf => ih hvs hf

/-- Arguments, each for the same bank. -/
abbrev ArgsAlike (l : Link) : List (Bank × Value) → List (Bank × Value) → Prop :=
  List.Forall₂ fun x y => x.1 = y.1 ∧ x.2.Alike l y.2

theorem bindFrom (ht : h.SameTags l h') {args args' : List (Bank × Value)}
    (ha : ArgsAlike l args args') (next : ValueBank → UInt16) (hf : f.Alike l g) :
    (f.bindFrom h next args).1.Alike l (g.bindFrom h' next args').1 ∧
      (f.bindFrom h next args).2 = (g.bindFrom h' next args').2 := by
  induction ha generalizing next f g with
  | nil => exact ⟨hf, rfl⟩
  | @cons x y args args' hx _ ih =>
    obtain ⟨b, v⟩ := x
    obtain ⟨b', w⟩ := y
    obtain ⟨rfl, hv⟩ := hx
    cases b with
    | iter =>
      unfold Frame.bindFrom
      rw [ht v w hv]
      exact ⟨hf, rfl⟩
    | value b =>
      have hw := hf.write ht ⟨b, next b⟩ hv
      unfold Frame.bindFrom
      generalize f.write h ⟨b, next b⟩ v = x at hw
      generalize g.write h' ⟨b, next b⟩ w = y at hw
      cases hw with
      | ok hfg => exact ih _ hfg
      | error e => exact ⟨hf, rfl⟩

theorem bind (ht : h.SameTags l h') {args args' : List (Bank × Value)}
    (ha : ArgsAlike l args args') (hf : f.Alike l g) :
    Agree (Frame.Alike l) (f.bind h args) (g.bind h' args') := by
  obtain ⟨hframe, herror⟩ := bindFrom ht ha (fun _ => 0) hf
  unfold Frame.bind Frame.fill
  generalize f.bindFrom h (fun _ => 0) args = x at hframe herror
  generalize g.bindFrom h' (fun _ => 0) args' = y at hframe herror
  obtain ⟨f', e⟩ := x
  obtain ⟨g', e'⟩ := y
  cases herror
  cases e with
  | none => exact .ok hframe
  | some e => exact .error e

end Frame.Alike

end RegisterMachine
