import RegisterMachine.Proofs.Checked.Values
import RegisterMachine.Proofs.Value.Copy
import RegisterMachine.Value.Render

/-!
# Texts and copies, with every check

Writing out an array and copying one both look at the elements as a part of the slots, and a copy of an
array of any values has each of its elements put into a slot of its own. In a sound heap all of that is
there. A copy keeps the heap sound, since it begins as the original and gets as many elements as that has
(`ArrayObject.Sound.refill`).

Both go into objects within objects, and the proofs are by induction on how deep they may go.
-/

namespace RegisterMachine

open Checked

/-! ## Slots -/

/-- Writes into the slots from `place` on, one after another. -/
def fillChecked {α : Type} (slots : Array α) (place : Nat) : List α → Option (Array α)
  | [] => some slots
  | x :: rest => do
      let slots ← put? slots place x
      fillChecked slots (place + 1) rest

theorem fillChecked_eq {α : Type} (items : List α) {before after : List α} {slots : Array α}
    (hs : slots.toList = before ++ after) (hle : items.length ≤ after.length) :
    fillChecked slots before.length items =
      some (before ++ items ++ after.drop items.length).toArray := by
  induction items generalizing before after slots with
  | nil =>
    rw [List.append_nil, List.length_nil, List.drop_zero, ← hs, Array.toArray_toList]
    rfl
  | cons x rest ih =>
    cases after with
    | nil => exact absurd hle (Nat.not_succ_le_zero _)
    | cons old after =>
      have hlt : before.length < slots.size := by
        rw [← Array.length_toList, hs, List.length_append, List.length_cons]
        omega
      have hset : (slots.setIfInBounds before.length x).toList = before ++ [x] ++ after := by
        rw [Array.toList_setIfInBounds, hs, List.set_append_right _ _ (Nat.le_refl _), Nat.sub_self,
          List.set_cons_zero, List.append_assoc]
        rfl
      have hnext := ih hset (Nat.le_of_succ_le_succ hle)
      rw [List.length_append, List.length_singleton] at hnext
      rw [fillChecked, put?_of_lt hlt]
      refine hnext.trans ?_
      rw [List.append_assoc before, List.length_cons, List.drop_succ_cons]
      rfl

namespace Growable

variable {α : Type} [Inhabited α] {a : Growable α} {v : View α}

theorem sliceChecked_eq (h : a.Shows v) : a.sliceChecked = some a.toList := if_pos h.size_le

/-- Other elements, as many of them, in the place of those that are there. -/
theorem refill_shows (h : a.Shows v) {items : List α} (hlen : items.length = v.elements.length) :
    (⟨(items ++ a.slots.toList.drop items.length).toArray, a.size⟩ : Growable α).Shows
      ⟨items, v.capacity⟩ := by
  refine .of_slots ?_ (h.size.trans hlen.symm) ?_ h.le_max
  · rw [hlen, h.slots_eq, List.drop_left, ← hlen]
  · show items.length ≤ _
    rw [hlen]
    exact h.elements_le

end Growable

namespace ArrayObject

variable {a : ArrayObject}

theorem Sound.length_shared {elements : Growable ElementKind.any.Slot}
    (h : Sound ⟨.any, elements⟩) : (shared ⟨.any, elements⟩).length = elements.size :=
  Sound.length_toList h

theorem Sound.refill (h : a.Sound) {items : List Value} (hlen : items.length = a.shared.length) :
    (a.refill items).Sound := by
  obtain ⟨kind, elements⟩ := a
  cases kind with
  | any =>
    rw [h.length_shared] at hlen
    obtain ⟨v, hv⟩ := h
    exact ⟨_, Growable.refill_shows hv (hlen.trans hv.size)⟩
  | _ => exact h

end ArrayObject

/-! ## Objects -/

namespace Object

variable {o : Object}

/-- The text of an object, given the text of the values it holds. -/
def textChecked (o : Object) (ofValue : Value → Option String) : Option String :=
  let entriesText (entries : Entries) : Option String := do
    let items ← entries.mapM fun (k, v) => (ofValue v).map fun text => k ++ ":" ++ text
    some (braced items)
  match o with
  | array ⟨.any, elements⟩ => do
      let items ← (← elements.sliceChecked).mapM ofValue
      some (bracketed items)
  | array ⟨kind, elements⟩ => do
      let slots ← elements.sliceChecked
      some (bracketed (slots.map kind.slotText))
  | map entries => entriesText entries
  | record _ fields => entriesText fields

/-- Every value the object holds that may refer to another object. -/
def valuesChecked (o : Object) : Option (List Value) :=
  match o with
  | array ⟨.any, elements⟩ => elements.sliceChecked
  | o => some o.values

/-- The object with other values in the place of those it holds. -/
def refillChecked (o : Object) (values : List Value) : Option Object :=
  match o with
  | array ⟨.any, elements⟩ => do
      let slots ← fillChecked elements.slots 0 values
      some (array ⟨.any, ⟨slots, elements.size⟩⟩)
  | o => some (o.refill values)

theorem entriesText_eq {ofValue? : Value → Option String} {ofValue : Value → String}
    (hv : ∀ v, ofValue? v = some (ofValue v)) (entries : Entries) :
    (entries.mapM fun (k, v) => (ofValue? v).map fun text => k ++ ":" ++ text) =
      some (entries.map fun (k, v) => k ++ ":" ++ ofValue v) :=
  mapM_eq_some fun (k, v) _ => congrArg (Option.map fun text => k ++ ":" ++ text) (hv v)

theorem Sound.textChecked_eq (ho : o.Sound) {ofValue? : Value → Option String}
    {ofValue : Value → String} (hv : ∀ v, ofValue? v = some (ofValue v)) :
    o.textChecked ofValue? = some (o.text ofValue) := by
  cases o with
  | array a =>
    obtain ⟨kind, elements⟩ := a
    obtain ⟨view, hview⟩ := ho
    have hslice := Growable.sliceChecked_eq hview
    cases kind with
    | any =>
      have hitems := mapM_eq_some (l := elements.toList) fun v _ => hv v
      show elements.sliceChecked.bind (fun slots => (slots.mapM ofValue?).bind _) = _
      rw [hslice, Option.bind_some, hitems]
      rfl
    | _ =>
      show elements.sliceChecked.bind _ = _
      rw [hslice]
      rfl
  | map entries =>
    show Option.bind (List.mapM _ entries) _ = _
    rw [entriesText_eq hv]
    rfl
  | record typeName fields =>
    show Option.bind (List.mapM _ fields) _ = _
    rw [entriesText_eq hv]
    rfl

theorem Sound.valuesChecked_eq (ho : o.Sound) : o.valuesChecked = some o.values := by
  cases o with
  | map entries => rfl
  | record typeName fields => rfl
  | array a =>
    obtain ⟨kind, elements⟩ := a
    cases kind with
    | any =>
      obtain ⟨view, hview⟩ := ho
      refine (Growable.sliceChecked_eq hview).trans (congrArg some ?_)
      exact (List.map_id' elements.toList).symm
    | _ => rfl

theorem Sound.refillChecked_eq (ho : o.Sound) {values : List Value}
    (hlen : values.length = o.values.length) : o.refillChecked values = some (o.refill values) := by
  cases o with
  | map entries => rfl
  | record typeName fields => rfl
  | array a =>
    obtain ⟨kind, elements⟩ := a
    cases kind with
    | any =>
      rw [show (array ⟨.any, elements⟩).values = ArrayObject.shared ⟨.any, elements⟩ from rfl,
        ArrayObject.Sound.length_shared ho] at hlen
      have hle : values.length ≤ elements.slots.toList.length := by
        rw [hlen, Array.length_toList]
        exact (ArrayObject.Sound.size_le ho).1
      have hfill := fillChecked_eq values (List.nil_append elements.slots.toList).symm hle
      show (fillChecked elements.slots 0 values).bind _ = _
      rw [show 0 = ([] : List Value).length from rfl, hfill]
      rfl
    | _ => rfl

theorem Sound.outline (ho : o.Sound) : o.outline.Sound := by
  cases o with
  | array a => exact ho
  | _ => exact trivial

theorem Sound.refill (ho : o.Sound) {values : List Value}
    (hlen : values.length = o.values.length) : (o.refill values).Sound := by
  cases o with
  | array a => exact ArrayObject.Sound.refill ho hlen
  | _ => exact trivial

end Object

/-! ## Texts -/

namespace Heap

variable {h : Heap}

/-- The text of a value inside the objects on `path`. -/
def textWithinChecked (h : Heap) :
    (depth : Nat) → (path : List Ref) → Value → Option String
  | depth, path, .collection r =>
      match h.get? r with
      | none => some Value.null.scalarText
      | some o =>
          if path.contains r then some o.ellipsis
          else
            match depth with
            | 0 => some o.ellipsis
            | depth + 1 => o.textChecked (h.textWithinChecked depth (r :: path))
  | _, _, v => some v.scalarText

/-- The text of a value. -/
def textChecked (h : Heap) (v : Value) : Option String := h.textWithinChecked h.size [] v

theorem Sound.textWithinChecked_eq (hs : h.Sound) (depth : Nat) (path : List Ref) (v : Value) :
    h.textWithinChecked depth path v = some (h.textWithin depth path v) := by
  induction depth generalizing path v with
  | zero =>
    cases v with
    | collection r =>
      rw [textWithinChecked, textWithin]
      cases h.get? r with
      | none => rfl
      | some o =>
        dsimp only
        split <;> rfl
    | _ => rfl
  | succ depth ih =>
    cases v with
    | collection r =>
      rw [textWithinChecked, textWithin]
      cases ho : h.get? r with
      | none => rfl
      | some o =>
        dsimp only
        split
        · rfl
        · exact (hs r o ho).textChecked_eq (ih (r :: path))
    | _ => rfl

theorem Sound.textChecked_eq (hs : h.Sound) (v : Value) : h.textChecked v = some (h.text v) :=
  hs.textWithinChecked_eq h.size [] v

end Heap

/-! ## Copies -/

/-- Passes a state along a list from left to right. -/
def mapAccumChecked {α β σ : Type} (f : σ → α → Option (σ × β)) :
    σ → List α → Option (σ × List β)
  | s, [] => some (s, [])
  | s, a :: rest => do
      let (s, b) ← f s a
      let (s, bs) ← mapAccumChecked f s rest
      some (s, b :: bs)

/-- What every link keeps, the list keeps, and there are as many results as there were elements. -/
theorem mapAccumChecked_eq {α β σ : Type} {P : σ → Prop} {f : σ → α → Option (σ × β)}
    {g : σ → α → σ × β} (hf : ∀ s a, P s → f s a = some (g s a) ∧ P (g s a).1) (l : List α) {s : σ}
    (hs : P s) :
    mapAccumChecked f s l = some (mapAccum g s l) ∧ P (mapAccum g s l).1 ∧
      (mapAccum g s l).2.length = l.length := by
  induction l generalizing s with
  | nil => exact ⟨rfl, hs, rfl⟩
  | cons a rest ih =>
    obtain ⟨ha, hnext⟩ := hf s a hs
    obtain ⟨hrest, hlast, hlen⟩ := ih hnext
    refine ⟨?_, hlast, congrArg Nat.succ hlen⟩
    rw [mapAccumChecked, ha]
    show (mapAccumChecked f (g s a).1 rest).bind _ = _
    rw [hrest]
    rfl

namespace Copying

/-- Copies a value. -/
def copyChecked : (depth : Nat) → Copying → Value → Option (Copying × Value)
  | depth, s, .collection r =>
      match s.copies.lookup r with
      | some done => some (s, .collection done)
      | none =>
          match depth, s.heap.get? r with
          | 0, _ | _, none => some (s, .collection r)
          | depth + 1, some o => do
              let elements ← o.valuesChecked
              let (heap, fresh) := s.heap.alloc o.outline
              let (s, values) ←
                mapAccumChecked (copyChecked depth) ⟨heap, (r, fresh) :: s.copies⟩ elements
              let filled ← o.refillChecked values
              some (⟨s.heap.set fresh filled, s.copies⟩, .collection fresh)
  | _, s, v => some (s, v)

theorem copyChecked_succ (depth : Nat) {s : Copying} {r : Ref} {o : Object} (hs : o.Sound)
    (hn : s.copies.lookup r = none) (ho : s.heap.get? r = some o) :
    copyChecked (depth + 1) s (.collection r) =
      (mapAccumChecked (copyChecked depth) (s.opened r o) o.values).bind fun x =>
        (o.refillChecked x.2).map fun filled =>
          (x.1.filled s.heap.next filled, .collection s.heap.next) := by
  unfold copyChecked
  rw [hn]
  dsimp only
  rw [ho]
  dsimp only
  rw [hs.valuesChecked_eq]
  refine congrArg (mapAccumChecked (copyChecked depth) (s.opened r o) o.values).bind (funext fun x => ?_)
  show (o.refillChecked x.2).bind _ = _
  cases o.refillChecked x.2 <;> rfl

theorem copyChecked_eq (depth : Nat) {s : Copying} (hs : s.heap.Sound) (v : Value) :
    copyChecked depth s v = some (copy depth s v) ∧ (copy depth s v).1.heap.Sound := by
  induction depth generalizing s v with
  | zero =>
    cases v with
    | collection r =>
      unfold copyChecked copy
      cases s.copies.lookup r with
      | some done => exact ⟨rfl, hs⟩
      | none => exact ⟨rfl, hs⟩
    | _ => exact ⟨rfl, hs⟩
  | succ depth ih =>
    cases v with
    | collection r =>
      cases hn : s.copies.lookup r with
      | some done =>
        unfold copyChecked copy
        rw [hn]
        exact ⟨rfl, hs⟩
      | none =>
        cases ho : s.heap.get? r with
        | none =>
          unfold copyChecked copy
          rw [hn]
          dsimp only
          rw [ho]
          exact ⟨rfl, hs⟩
        | some o =>
          have hobj := hs r o ho
          have hopened : (s.opened r o).heap.Sound := hs.alloc hobj.outline
          obtain ⟨heq, hsound, hlen⟩ := mapAccumChecked_eq (P := fun s : Copying => s.heap.Sound)
            (fun s v hs => ih hs v) o.values hopened
          rw [copyChecked_succ depth hobj hn ho, copy_succ depth hn ho, heq, Option.bind_some,
            hobj.refillChecked_eq hlen]
          exact ⟨rfl, hsound.set (hobj.refill hlen)⟩
    | _ => exact ⟨rfl, hs⟩

end Copying

namespace Heap

variable {h : Heap}

/-- Copies a value deeply. -/
def copyChecked (h : Heap) (v : Value) : Option (Heap × Value) := do
  let (s, copied) ← Copying.copyChecked h.size ⟨h, []⟩ v
  some (s.heap, copied)

theorem Sound.copyChecked_eq (hs : h.Sound) (v : Value) : h.copyChecked v = some (h.copy v) := by
  have hcopy := (Copying.copyChecked_eq h.size (s := ⟨h, []⟩) hs v).1
  show (Copying.copyChecked h.size ⟨h, []⟩ v).bind _ = _
  rw [hcopy]
  rfl

end Heap

end RegisterMachine
