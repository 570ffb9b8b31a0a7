import RegisterMachine.Proofs.Agree
import RegisterMachine.Value.Heap

/-!
# Values that are alike

Two programs that do the same in two heaps do not get the same references, and nothing else tells
them apart. A `Link` pairs references of the one heap with references of the other, and two values are
`Alike` under it when they are the same but for collections, and those are linked. Slots, arrays,
entries and objects are alike when the values in them are, one for one.

All slots of an array count, also those past its size: a write further out exposes them.

Every operation on alike objects has alike results, which is what the lemmas of this file say, one
for each operation.
-/

namespace RegisterMachine

/-- Which references of two heaps go together. -/
abbrev Link := Ref → Ref → Prop

/-! ## Values -/

inductive Value.Alike (l : Link) : Value → Value → Prop
  | scalar {v : Value} (h : v.ref? = none) : Alike l v v
  | collection {r s : Ref} (h : l r s) : Alike l (.collection r) (.collection s)

namespace Value.Alike

variable {l k : Link} {v w : Value}

theorem mono (h : v.Alike l w) (hl : ∀ r s, l r s → k r s) : v.Alike k w := by
  cases h with
  | scalar h => exact .scalar h
  | collection h => exact .collection (hl _ _ h)

theorem ref? (h : v.Alike l w) : Option.Rel l v.ref? w.ref? := by
  cases h with
  | scalar h =>
    rw [h]
    exact .none
  | collection h => exact .some h

theorem eq_of_ref? (h : v.Alike l w) (hv : v.ref? = none) : w = v := by
  cases h with
  | scalar h => rfl
  | collection h => cases hv

theorem isNull (h : v.Alike l w) : w.isNull = v.isNull := by
  cases h with
  | scalar h => rfl
  | collection h => rfl

end Value.Alike

/-- The references of alike values. -/
theorem forall₂_filterMap_ref? {l : Link} {vs ws : List Value}
    (h : List.Forall₂ (Value.Alike l) vs ws) :
    List.Forall₂ l (vs.filterMap Value.ref?) (ws.filterMap Value.ref?) :=
  List.rel_filterMap (fun _ _ hv => Value.Alike.ref? hv) h

/-! ## Slots and growable arrays -/

namespace ElementKind

/-- Only an array of any values has slots with references. -/
def SlotAlike (l : Link) : (kind : ElementKind) → kind.Slot → kind.Slot → Prop
  | any, v, w => Value.Alike l v w
  | _, x, y => x = y

variable {l k : Link} {kind : ElementKind}

theorem SlotAlike.mono {x y : kind.Slot} (h : kind.SlotAlike l x y)
    (hl : ∀ r s, l r s → k r s) : kind.SlotAlike k x y := by
  cases kind with
  | any => exact Value.Alike.mono h hl
  | _ => exact h

theorem slotAlike_default : kind.SlotAlike l default default := by
  cases kind with
  | any => exact .scalar rfl
  | _ => exact rfl

theorem SlotAlike.toValue {x y : kind.Slot} (h : kind.SlotAlike l x y) :
    (kind.toValue x).Alike l (kind.toValue y) := by
  cases kind with
  | any => exact h
  | _ =>
    cases h
    exact .scalar rfl

theorem accepts_alike {v w : Value} (h : v.Alike l w) : kind.accepts w = kind.accepts v := by
  cases h with
  | scalar h => rfl
  | collection h => cases kind <;> rfl

theorem ofValue?_alike {v w : Value} (h : v.Alike l w) :
    Option.Rel (kind.SlotAlike l) (kind.ofValue? v) (kind.ofValue? w) := by
  cases kind with
  | any => exact .some h
  | _ =>
    cases h with
    | scalar h => cases v <;> first | exact .none | exact .some rfl
    | collection h => exact .none

end ElementKind

/-- Two growable arrays, slot for slot. -/
structure Growable.Alike {α : Type} (R : α → α → Prop) (a b : Growable α) : Prop where
  slots : List.Forall₂ R a.slots.toList b.slots.toList
  size : a.size = b.size

namespace Growable.Alike

variable {α : Type} {R S : α → α → Prop} {a b : Growable α}

theorem mono (h : a.Alike R b) (hr : ∀ x y, R x y → S x y) : a.Alike S b :=
  ⟨h.slots.imp hr, h.size⟩

theorem capacity (h : a.Alike R b) : a.capacity = b.capacity := h.slots.length_eq

theorem toList (h : a.Alike R b) : List.Forall₂ R a.toList b.toList := by
  unfold Growable.toList
  rw [h.size]
  exact List.forall₂_take _ h.slots

variable [Inhabited α] {x y : α}

theorem replicate (hd : R default default) (n m : Nat) :
    Alike R ⟨Array.replicate n default, m⟩ ⟨Array.replicate n default, m⟩ := by
  refine ⟨?_, rfl⟩
  rw [Array.toList_replicate]
  exact forall₂_replicate n hd

theorem ofLength (hd : R default default) (length : Int64) :
    Agree (Alike R) (Growable.ofLength length) (Growable.ofLength length) :=
  (Agree.refl (writeIndex length 0)).bind_eq fun n => .ok (replicate hd n n)

theorem get (h : a.Alike R b) (hd : R default default) (index : Int64) :
    Agree R (a.get index) (b.get index) := by
  unfold Growable.get
  rw [h.size]
  refine (Agree.refl _).bind_eq fun place => ?_
  have hrel := forall₂_getElem? h.slots place
  rw [Array.getElem?_toList, Array.getElem?_toList] at hrel
  rw [Array.getD_eq_getD_getElem?, Array.getD_eq_getD_getElem?]
  generalize a.slots[place]? = o at hrel
  generalize b.slots[place]? = o' at hrel
  cases hrel with
  | some hxy => exact .ok hxy
  | none => exact .ok hd

theorem pad (h : a.Alike R b) (hd : R default default) (n : Nat) :
    (a.pad n).Alike R (b.pad n) := by
  refine ⟨?_, h.size⟩
  show List.Forall₂ R (a.slots ++ _).toList (b.slots ++ _).toList
  have hc : a.slots.size = b.slots.size := h.capacity
  rw [Array.toList_append, Array.toList_append, Array.toList_replicate, Array.toList_replicate, hc]
  exact List.rel_append h.slots (forall₂_replicate _ hd)

theorem reserve (h : a.Alike R b) (hd : R default default) (requested : UInt64) :
    Agree (Alike R) (a.reserve requested) (b.reserve requested) := by
  unfold Growable.reserve
  rw [h.capacity]
  split
  · exact .ok h
  · split
    · exact .error _
    · exact .ok (h.pad hd _)

theorem set (h : a.Alike R b) (hd : R default default) (index : Int64) (hxy : R x y) :
    Agree (Alike R) (a.set index x) (b.set index y) := by
  unfold Growable.set
  rw [h.size]
  refine (Agree.refl _).bind_eq fun place => ?_
  refine (h.reserve hd _).bind fun a b hab => .ok ⟨?_, ?_⟩
  · show List.Forall₂ R (a.slots.setIfInBounds place x).toList (b.slots.setIfInBounds place y).toList
    rw [Array.toList_setIfInBounds, Array.toList_setIfInBounds]
    exact forall₂_set hab.slots place hxy
  · exact congrArg (max · (place + 1)) hab.size

end Growable.Alike

/-! ## Objects -/

inductive ArrayObject.Alike (l : Link) : ArrayObject → ArrayObject → Prop
  | mk {kind : ElementKind} {a b : Growable kind.Slot} (h : a.Alike (kind.SlotAlike l) b) :
      Alike l ⟨kind, a⟩ ⟨kind, b⟩

namespace ArrayObject.Alike

variable {l k : Link} {a b : ArrayObject}

theorem mono (h : a.Alike l b) (hl : ∀ r s, l r s → k r s) : a.Alike k b := by
  cases h with
  | mk h => exact .mk (h.mono fun _ _ hx => hx.mono hl)

theorem kind (h : a.Alike l b) : b.kind = a.kind := by
  cases h with
  | mk h => rfl

theorem size (h : a.Alike l b) : b.size = a.size := by
  cases h with
  | mk h => exact h.size.symm

theorem toList (h : a.Alike l b) : List.Forall₂ (Value.Alike l) a.toList b.toList := by
  cases h with
  | mk h => exact List.rel_map (fun _ _ hx => hx.toValue) h.toList

theorem shared (h : a.Alike l b) : List.Forall₂ (Value.Alike l) a.shared b.shared := by
  unfold ArrayObject.shared
  rw [h.kind]
  split
  · exact h.toList
  · exact .nil

theorem get (h : a.Alike l b) (index : Int64) :
    Agree (Value.Alike l) (a.get index) (b.get index) := by
  cases h with
  | @mk kind a b h =>
    have hx := h.get kind.slotAlike_default index
    unfold ArrayObject.get
    generalize a.get index = x at hx
    generalize b.get index = y at hx
    cases hx with
    | ok hxy => exact .ok hxy.toValue
    | error e => exact .error _

theorem set (h : a.Alike l b) (index : Int64) {v w : Value} (hv : v.Alike l w) (tag : TypeTag) :
    Agree (Alike l) (a.set index v tag) (b.set index w tag) := by
  cases h with
  | @mk kind a b h =>
    unfold ArrayObject.set
    dsimp only
    rw [ElementKind.accepts_alike hv]
    split
    · have hslot := kind.ofValue?_alike hv
      generalize kind.ofValue? v = x at hslot
      generalize kind.ofValue? w = y at hslot
      cases hslot with
      | none => exact .error _
      | some hxy =>
        have hset := h.set kind.slotAlike_default index hxy
        dsimp only
        generalize Growable.set a index _ = x at hset
        generalize Growable.set b index _ = y at hset
        cases hset with
        | ok hab => exact .ok (.mk hab)
        | error e => exact .error _
    · exact .error _

theorem ofLength (l : Link) (kind : ElementKind) (length : Int64) :
    Agree (Alike l) (ArrayObject.ofLength kind length) (ArrayObject.ofLength kind length) :=
  (Growable.Alike.ofLength kind.slotAlike_default length).map fun _ _ h => .mk h

end ArrayObject.Alike

/-- Two lists of entries, with the same keys. -/
abbrev Entries.Alike (l : Link) : Entries → Entries → Prop :=
  List.Forall₂ fun x y => x.1 = y.1 ∧ x.2.Alike l y.2

namespace Entries.Alike

variable {l k : Link} {xs ys : Entries}

theorem keys (h : Entries.Alike l xs ys) : Entries.keys ys = Entries.keys xs := by
  induction h with
  | nil => rfl
  | cons hx _ ih =>
    show _ :: Entries.keys _ = _ :: Entries.keys _
    rw [ih, hx.1]

theorem values (h : Entries.Alike l xs ys) :
    List.Forall₂ (Value.Alike l) (xs.map Prod.snd) (ys.map Prod.snd) :=
  List.rel_map (fun _ _ hx => hx.2) h

theorem get (h : Entries.Alike l xs ys) (key : String) :
    (Entries.get xs key).Alike l (Entries.get ys key) := by
  unfold Entries.get Entries.get?
  induction h with
  | nil => exact .scalar rfl
  | @cons x y xs ys hx _ ih =>
    obtain ⟨k, v⟩ := x
    obtain ⟨k', w⟩ := y
    obtain ⟨rfl, hv⟩ := hx
    rw [List.lookup_cons, List.lookup_cons]
    cases key == k with
    | true => exact hv
    | false => exact ih

theorem insert (h : Entries.Alike l xs ys) (key : String) {v w : Value} (hv : v.Alike l w) :
    Entries.Alike l (Entries.insert xs key v) (Entries.insert ys key w) := by
  induction h with
  | nil => exact .cons ⟨rfl, hv⟩ .nil
  | @cons x y xs ys hx ht ih =>
    obtain ⟨k, old⟩ := x
    obtain ⟨k', old'⟩ := y
    obtain ⟨rfl, hold⟩ := hx
    unfold Entries.insert
    cases k == key with
    | true => exact .cons ⟨rfl, hv⟩ ht
    | false => exact .cons ⟨rfl, hold⟩ ih

end Entries.Alike

inductive Object.Alike (l : Link) : Object → Object → Prop
  | array {a b : ArrayObject} (h : a.Alike l b) : Alike l (.array a) (.array b)
  | map {xs ys : Entries} (h : Entries.Alike l xs ys) : Alike l (.map xs) (.map ys)
  | record {name : String} {xs ys : Entries} (h : Entries.Alike l xs ys) :
      Alike l (.record name xs) (.record name ys)

namespace Object.Alike

variable {l k : Link} {o o' : Object}

theorem mono (h : o.Alike l o') (hl : ∀ r s, l r s → k r s) : o.Alike k o' := by
  cases h with
  | array h => exact .array (h.mono hl)
  | map h => exact .map (h.imp fun _ _ hx => ⟨hx.1, hx.2.mono hl⟩)
  | record h => exact .record (h.imp fun _ _ hx => ⟨hx.1, hx.2.mono hl⟩)

theorem tag (h : o.Alike l o') : o'.tag = o.tag := by
  cases h with
  | array h => exact congrArg TypeTag.array h.kind
  | map h => rfl
  | record h => rfl

theorem refs (h : o.Alike l o') : List.Forall₂ l o.refs o'.refs := by
  cases h with
  | array h => exact forall₂_filterMap_ref? h.shared
  | map h => exact forall₂_filterMap_ref? h.values
  | record h => exact forall₂_filterMap_ref? h.values

end Object.Alike

end RegisterMachine
