import RegisterMachine.Proofs.Value.Alike

/-!
# A heap within another

`h.Within l h'` says that the heap `h` is, under another numbering, a part of the heap `h'`: every
object of `h` is linked to one of `h'` that is alike, and no two to the same. What else there is in
`h'` does not matter, so this is how a worker that has a heap to itself compares with one that shares
it.

An operation on both sides keeps this up. `Heap.InStep` adds to it that nothing of `h'` was touched
outside of `h`, so that other heaps within `h'` are as they were.
-/

namespace RegisterMachine

namespace Heap

/-- Every object of `h` has its own in `h'`. -/
structure Within (l : Link) (h h' : Heap) : Prop where
  functional {r s s' : Ref} : l r s → l r s' → s = s'
  injective {r r' s : Ref} : l r s → l r' s → r = r'
  total {r : Ref} : r.index < h.size → ∃ s, l r s
  objects {r s : Ref} : l r s → ∃ o o', h.get? r = some o ∧ h'.get? s = some o' ∧ o.Alike l o'

/-- `h` and `h'` have become `k` and `k'`, by the same operation in both. The link may have got new
pairs, of new objects. -/
structure InStep (l : Link) (h h' : Heap) (l' : Link) (k k' : Heap) : Prop where
  within : k.Within l' k'
  le {r s : Ref} : l r s → l' r s
  new {r s : Ref} : l' r s → l r s ∨ h'.size ≤ s.index
  size : h'.size ≤ k'.size
  cover {s : Ref} : h'.size ≤ s.index → s.index < k'.size → ∃ r, l' r s
  /-- What is not linked stays what it was. -/
  frame {s : Ref} : s.index < h'.size → (∀ r, ¬ l r s) → k'.get? s = h'.get? s

theorem index_lt_of_get? {h : Heap} {r : Ref} {o : Object} (hr : h.get? r = some o) :
    r.index < h.size := (Array.getElem?_eq_some_iff.mp hr).1

@[simp] theorem size_alloc (h : Heap) (o : Object) : (h.alloc o).1.size = h.size + 1 :=
  Array.size_push o

@[simp] theorem size_set (h : Heap) (r : Ref) (o : Object) : (h.set r o).size = h.size :=
  Array.size_setIfInBounds

namespace Within

variable {l : Link} {h h' : Heap}

theorem left_lt (hw : h.Within l h') {r s : Ref} (hr : l r s) : r.index < h.size := by
  obtain ⟨o, -, ho, -, -⟩ := hw.objects hr
  exact index_lt_of_get? ho

theorem right_lt (hw : h.Within l h') {r s : Ref} (hr : l r s) : s.index < h'.size := by
  obtain ⟨-, o', -, ho', -⟩ := hw.objects hr
  exact index_lt_of_get? ho'

theorem tag (hw : h.Within l h') {v w : Value} (hv : v.Alike l w) : h'.tag w = h.tag v := by
  cases hv with
  | @scalar v hv =>
    cases v with
    | collection r => cases hv
    | _ => rfl
  | collection hr =>
    obtain ⟨o, o', ho, ho', ha⟩ := hw.objects hr
    unfold Heap.tag
    dsimp only
    rw [ho, ho', Option.map_some, Option.map_some, ha.tag]

/-- Linked objects refer to linked objects. -/
theorem closed (hw : h.Within l h') {r s t : Ref} {o' : Object} (hr : l r s)
    (ho' : h'.get? s = some o') (ht : t ∈ o'.refs) : ∃ u, l u t := by
  obtain ⟨p, p', -, hp', ha⟩ := hw.objects hr
  rw [ho', Option.some.injEq] at hp'
  subst hp'
  obtain ⟨u, -, hu⟩ := exists_of_forall₂_right ha.refs ht
  exact ⟨u, hu⟩

/-- What matters of the larger heap is what is linked. -/
theorem of_get?_eq {k' : Heap} (hw : h.Within l h') (hget : ∀ r s, l r s → k'.get? s = h'.get? s) :
    h.Within l k' where
  functional := hw.functional
  injective := hw.injective
  total := hw.total
  objects hr := by
    rw [hget _ _ hr]
    exact hw.objects hr

/-- Membership in linked lists is linked. -/
theorem mem_iff (hw : h.Within l h') {rs ss : List Ref} (hl : List.Forall₂ l rs ss) {r s : Ref}
    (hr : l r s) : r ∈ rs ↔ s ∈ ss := by
  constructor
  · intro hm
    obtain ⟨t, ht, hrt⟩ := exists_of_forall₂_left hl hm
    rwa [hw.functional hr hrt]
  · intro hm
    obtain ⟨t, ht, hts⟩ := exists_of_forall₂_right hl hm
    rwa [hw.injective hr hts]

/-- Nothing at all is a heap within every other. -/
theorem empty (h' : Heap) : Within (fun _ _ => False) .empty h' :=
  ⟨fun h => h.elim, fun h => h.elim, fun h => absurd h (Nat.not_lt_zero _), fun h => h.elim⟩

end Within

namespace InStep

variable {l : Link} {h h' : Heap}

theorem refl (hw : h.Within l h') : InStep l h h' l h h' where
  within := hw
  le hr := hr
  new hr := .inl hr
  size := Nat.le_refl _
  cover hle hlt := absurd hlt (Nat.not_lt.mpr hle)
  frame _ _ := rfl

/-- A new object on both sides. -/
theorem alloc (hw : h.Within l h') {o o' : Object} (ho : o.Alike l o') :
    ∃ l', InStep l h h' l' (h.alloc o).1 (h'.alloc o').1 ∧ l' h.next h'.next := by
  let l' : Link := fun r s => l r s ∨ r = h.next ∧ s = h'.next
  -- what is linked was there before
  have left_ne : ∀ {r s}, l r s → r ≠ h.next := fun hr e => by
    rw [e] at hr
    exact absurd (hw.left_lt hr) (Nat.lt_irrefl _)
  have right_ne : ∀ {r s}, l r s → s ≠ h'.next := fun hr e => by
    rw [e] at hr
    exact absurd (hw.right_lt hr) (Nat.lt_irrefl _)
  refine ⟨l', ⟨⟨?_, ?_, ?_, ?_⟩, .inl, ?_, ?_, ?_, ?_⟩, .inr ⟨rfl, rfl⟩⟩
  · rintro r s s' (hr | ⟨rfl, rfl⟩) (hr' | ⟨e, rfl⟩)
    · exact hw.functional hr hr'
    · exact absurd e (left_ne hr)
    · exact absurd rfl (left_ne hr')
    · rfl
  · rintro r r' s (hr | ⟨rfl, rfl⟩) (hr' | ⟨rfl, e⟩)
    · exact hw.injective hr hr'
    · exact absurd e (right_ne hr)
    · exact absurd rfl (right_ne hr')
    · rfl
  · intro r hr
    rw [size_alloc] at hr
    rcases Nat.lt_succ_iff_lt_or_eq.mp hr with hr | hr
    · obtain ⟨s, hs⟩ := hw.total hr
      exact ⟨s, .inl hs⟩
    · exact ⟨h'.next, .inr ⟨by cases r; exact congrArg Ref.mk hr, rfl⟩⟩
  · rintro r s (hr | ⟨rfl, rfl⟩)
    · obtain ⟨p, p', hp, hp', ha⟩ := hw.objects hr
      refine ⟨p, p', ?_, ?_, ha.mono fun _ _ => .inl⟩
      · rw [get?_alloc_of_ne (left_ne hr), hp]
      · rw [get?_alloc_of_ne (right_ne hr), hp']
    · exact ⟨o, o', get?_alloc_next h o, get?_alloc_next h' o', ho.mono fun _ _ => .inl⟩
  · rintro r s (hr | ⟨-, rfl⟩)
    · exact .inl hr
    · exact .inr (Nat.le_refl _)
  · rw [size_alloc]
    exact Nat.le_succ _
  · intro s hle hlt
    rw [size_alloc] at hlt
    have hs : s.index = h'.size := Nat.le_antisymm (Nat.lt_succ_iff.mp hlt) hle
    exact ⟨h.next, .inr ⟨rfl, by cases s; exact congrArg Ref.mk hs⟩⟩
  · intro s hs _
    refine get?_alloc_of_ne fun e => ?_
    rw [e] at hs
    exact Nat.lt_irrefl _ hs

/-- New contents for linked objects. -/
theorem set (hw : h.Within l h') {r s : Ref} {o o' : Object} (hr : l r s) (ho : o.Alike l o') :
    InStep l h h' l (h.set r o) (h'.set s o') where
  within := by
    refine ⟨hw.functional, hw.injective, fun ht => hw.total (by rwa [size_set] at ht), ?_⟩
    intro t u ht
    obtain ⟨p, p', hp, hp', ha⟩ := hw.objects ht
    by_cases hrt : t = r
    · subst hrt
      cases hw.functional ht hr
      exact ⟨o, o', get?_set_self o hp, get?_set_self o' hp', ho⟩
    · have hsu : u ≠ s := fun e => hrt (hw.injective (e ▸ ht) hr)
      refine ⟨p, p', ?_, ?_, ha⟩
      · rw [get?_set_of_ne o hrt, hp]
      · rw [get?_set_of_ne o' hsu, hp']
  le hr := hr
  new hr := .inl hr
  size := Nat.le_of_eq (size_set h' s o').symm
  cover hle hlt := by
    rw [size_set] at hlt
    exact absurd hlt (Nat.not_lt.mpr hle)
  frame _ hnone := get?_set_of_ne o' fun e => hnone r (e ▸ hr)

theorem setElement (hw : h.Within l h') {r s : Ref} {a b : ArrayObject} (hr : l r s)
    (hab : a.Alike l b) (index : Int64) {v w : Value} (hv : v.Alike l w) :
    Agree (fun k k' => InStep l h h' l k k') (h.setElement r a index v)
      (h'.setElement s b index w) := by
  unfold Heap.setElement
  rw [hw.tag hv]
  exact (hab.set index hv _).map fun _ _ hc => set hw hr (.array hc)

end InStep

end Heap

end RegisterMachine
