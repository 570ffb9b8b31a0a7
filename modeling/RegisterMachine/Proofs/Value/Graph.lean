import RegisterMachine.Value.Heap

/-!
# The graph below a value

A value that is a collection stands for a graph: the collections that can be reached from it
(`Heap.Leads`), with what each of them holds. Which references those are is an accident of the heap,
and `Heap.Iso` says that two graphs differ in nothing else: a renaming of references takes the one
value to the other, is one to one on the collections, and makes the `Object.Counterpart` of every one
of them. That it takes the one graph *onto* the other is not asked for, because it follows
(`Heap.Iso.leads_iff`).
-/

namespace RegisterMachine

/-! ## Renaming references -/

/-- The value with another reference in the place of its own. A value that is no collection has
none. -/
def Value.rename (φ : Ref → Ref) : Value → Value
  | .collection r => .collection (φ r)
  | v => v

namespace Value

variable {φ ψ : Ref → Ref} {v : Value}

@[simp] theorem ref?_rename (φ : Ref → Ref) (v : Value) : (v.rename φ).ref? = v.ref?.map φ := by
  cases v <;> rfl

theorem rename_of_ref?_eq_none (h : v.ref? = none) : v.rename φ = v := by
  cases v with
  | collection r => exact absurd h (by simp [ref?])
  | _ => rfl

theorem rename_congr (h : ∀ r, v.ref? = some r → φ r = ψ r) : v.rename φ = v.rename ψ := by
  cases v with
  | collection r => exact congrArg collection (h r rfl)
  | _ => rfl

end Value

theorem filterMap_ref?_rename (φ : Ref → Ref) (vs : List Value) :
    (vs.map (Value.rename φ)).filterMap Value.ref? = (vs.filterMap Value.ref?).map φ := by
  rw [List.filterMap_map, List.map_filterMap]
  congr 1
  funext v
  exact v.ref?_rename φ

/-- Two objects of one variant, alike in everything but for references, which `φ` takes from the
first to the second. -/
inductive Object.Counterpart (φ : Ref → Ref) : Object → Object → Prop
  | array {a b : ArrayObject} (hk : b.kind = a.kind) (hs : b.size = a.size)
      (hc : b.capacity = a.capacity) (he : b.toList = a.toList.map (Value.rename φ)) :
      Counterpart φ (.array a) (.array b)
  | map {xs ys : Entries} (he : ys = xs.map fun x => (x.1, x.2.rename φ)) :
      Counterpart φ (.map xs) (.map ys)
  | record {name : String} {xs ys : Entries} (he : ys = xs.map fun x => (x.1, x.2.rename φ)) :
      Counterpart φ (.record name xs) (.record name ys)

namespace Object.Counterpart

variable {φ : Ref → Ref} {o o' : Object}

theorem values_eq (h : o.Counterpart φ o') : o'.values = o.values.map (Value.rename φ) := by
  cases h with
  | @array a b hk hs hc he =>
    show b.shared = a.shared.map _
    unfold ArrayObject.shared
    rw [hk]
    cases a.kind with
    | any => exact he
    | _ => rfl
  | map he => simp [values, he, Function.comp_def]
  | record he => simp [values, he, Function.comp_def]

theorem refs_eq (h : o.Counterpart φ o') : o'.refs = o.refs.map φ := by
  unfold refs
  rw [h.values_eq, filterMap_ref?_rename]

end Object.Counterpart

/-! ## Reachable collections -/

namespace Heap

/-- The collections that can be reached from a value. -/
inductive Leads (h : Heap) (v : Value) : Ref → Prop
  | here {r : Ref} (hv : v.ref? = some r) : Leads h v r
  | on {r s : Ref} {o : Object} (hr : Leads h v r) (ho : h.get? r = some o) (hs : s ∈ o.refs) :
      Leads h v s

/-- A value's reference leads somewhere. -/
def Covers (h : Heap) (v : Value) : Prop := ∀ r, v.ref? = some r → r.index < h.size

/-- The references of all objects lead somewhere. -/
def Closed (h : Heap) : Prop := ∀ r o, h.get? r = some o → ∀ v ∈ o.values, h.Covers v

instance (h : Heap) (v : Value) : Decidable (h.Covers v) :=
  inferInstanceAs (Decidable (∀ r ∈ v.ref?, r.index < h.size))

/-- To find out whether a heap is closed it takes one look at each object. -/
theorem closed_iff (h : Heap) : h.Closed ↔ ∀ o ∈ h.objects, ∀ v ∈ o.values, h.Covers v := by
  constructor
  · intro hc o ho
    obtain ⟨i, hi⟩ := Array.mem_iff_getElem?.mp ho
    exact hc ⟨i⟩ o hi
  · intro hc r o ho
    exact hc o (Array.mem_of_getElem? ho)

instance (h : Heap) : Decidable h.Closed := decidable_of_iff' _ h.closed_iff

theorem exists_get? {h : Heap} {r : Ref} (hr : r.index < h.size) : ∃ o, h.get? r = some o :=
  ⟨_, Array.getElem?_eq_getElem hr⟩

theorem Leads.index_lt {h : Heap} {v : Value} {r : Ref} (hl : h.Leads v r) (hc : h.Closed)
    (hv : h.Covers v) : r.index < h.size := by
  cases hl with
  | here hr => exact hv r hr
  | on hr ho hs =>
    obtain ⟨w, hw, hws⟩ := List.mem_filterMap.mp hs
    exact hc _ _ ho w hw _ hws

/-- `φ` takes the graph of `v` in `h` to that of `w` in `h'`. -/
structure Iso (h : Heap) (v : Value) (φ : Ref → Ref) (h' : Heap) (w : Value) : Prop where
  value : w = v.rename φ
  injective (r s : Ref) : h.Leads v r → h.Leads v s → φ r = φ s → r = s
  counterpart (r : Ref) : h.Leads v r →
    ∃ o o', h.get? r = some o ∧ h'.get? (φ r) = some o' ∧ o.Counterpart φ o'

/-- A renaming takes the collections of the one graph to those of the other, and to all of them. -/
theorem Iso.leads_iff {h h' : Heap} {v w : Value} {φ : Ref → Ref} (hi : h.Iso v φ h' w) (s : Ref) :
    h'.Leads w s ↔ ∃ r, h.Leads v r ∧ φ r = s := by
  constructor
  · intro hl
    induction hl with
    | @here s hs =>
      rw [hi.value, Value.ref?_rename] at hs
      obtain ⟨r, hr, he⟩ := Option.map_eq_some_iff.mp hs
      exact ⟨r, .here hr, he⟩
    | @on s t o' _ ho' ht ih =>
      obtain ⟨r, hr, rfl⟩ := ih
      obtain ⟨o, o'', ho, ho'', hcp⟩ := hi.counterpart r hr
      rw [ho'', Option.some.injEq] at ho'
      subst ho'
      rw [hcp.refs_eq] at ht
      obtain ⟨u, hu, rfl⟩ := List.mem_map.mp ht
      exact ⟨u, hr.on ho hu, rfl⟩
  · rintro ⟨r, hr, rfl⟩
    induction hr with
    | @here r hr =>
      refine .here ?_
      rw [hi.value, Value.ref?_rename, hr]
      rfl
    | @on r t o hr ho ht ih =>
      obtain ⟨o₁, o', ho₁, ho', hcp⟩ := hi.counterpart r hr
      rw [ho, Option.some.injEq] at ho₁
      subst ho₁
      refine ih.on ho' ?_
      rw [hcp.refs_eq]
      exact List.mem_map_of_mem ht

end Heap

end RegisterMachine
