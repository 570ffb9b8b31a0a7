import Mathlib.Logic.Function.Basic
import RegisterMachine.Proofs.Value.Liveness

/-!
# A heap in parts

Several owners have their objects in one heap. Each numbers its own as in a heap of its own, and its
`Link` says where in the common heap they are. `Ownership.Parts` is what keeps the owners out of each
other's way: every object has one owner, and refers to objects of that owner only.

An owner that changes something, or makes new objects, leaves all other parts as they are
(`Parts.kept`), and the heap is in parts afterwards (`Parts.inStep`).
-/

namespace RegisterMachine

/-- Where each owner's objects are. -/
abbrev Ownership := Nat → Link

namespace Ownership

/-- Every object of the heap has one owner and refers to objects of the same. -/
structure Parts (own : Ownership) (h : Heap) : Prop where
  bound {i : Nat} {r s : Ref} : own i r s → s.index < h.size
  disjoint {i j : Nat} {r r' s : Ref} : own i r s → own j r' s → i = j
  cover {s : Ref} : s.index < h.size → ∃ i r, own i r s
  closed {i : Nat} {r s t : Ref} {o : Object} :
    own i r s → h.get? s = some o → t ∈ o.refs → ∃ r', own i r' t

/-- Everything is of one owner. -/
def sole (i : Nat) (l : Link) : Ownership := fun j r s => j = i ∧ l r s

@[simp] theorem sole_self (i : Nat) (l : Link) : sole i l i = l := by
  funext r s
  exact propext (and_iff_right rfl)

namespace Parts

variable {own : Ownership} {i j : Nat} {l' : Link} {h h' k k' : Heap}

/-- What another owner's step leaves of a part. -/
theorem get?_eq (hp : own.Parts h') (hs : Heap.InStep (own i) h h' l' k k') (hij : j ≠ i) {r s : Ref}
    (hr : own j r s) : k'.get? s = h'.get? s :=
  hs.frame (hp.bound hr) fun _ hr' => hij (hp.disjoint hr hr')

/-- A heap of another owner is within the common one as before. -/
theorem kept (hp : own.Parts h') (hs : Heap.InStep (own i) h h' l' k k') (hij : j ≠ i) {g : Heap}
    (hg : g.Within (own j) h') : g.Within (Function.update own i l' j) k' := by
  rw [Function.update_of_ne hij]
  exact hg.of_get?_eq fun r s hr => hp.get?_eq hs hij hr

/-- Nobody loses anything. -/
theorem le_update (hs : Heap.InStep (own i) h h' l' k k') {r s : Ref} (hr : own j r s) :
    Function.update own i l' j r s := by
  by_cases hij : j = i
  · subst hij
    rw [Function.update_self]
    exact hs.le hr
  · rwa [Function.update_of_ne hij]

/-- Who takes a step may get new objects, and nobody else gets anything. -/
theorem of_update (hs : Heap.InStep (own i) h h' l' k k') {r s : Ref}
    (hr : Function.update own i l' j r s) : own j r s ∨ j = i ∧ h'.size ≤ s.index := by
  by_cases hij : j = i
  · subst hij
    rw [Function.update_self] at hr
    exact (hs.new hr).imp_right fun hle => ⟨rfl, hle⟩
  · rw [Function.update_of_ne hij] at hr
    exact .inl hr

theorem inStep (hp : own.Parts h') (hs : Heap.InStep (own i) h h' l' k k') :
    Ownership.Parts (Function.update own i l') k' where
  bound {j r s} hr := by
    by_cases hij : j = i
    · subst hij
      rw [Function.update_self] at hr
      exact hs.within.right_lt hr
    · rw [Function.update_of_ne hij] at hr
      exact Nat.lt_of_lt_of_le (hp.bound hr) hs.size
  disjoint hr hr' := by
    -- an old object has its old owner, and all new ones are of the owner that took the step
    rcases of_update hs hr with hold | ⟨hi, hle⟩ <;>
      rcases of_update hs hr' with hold' | ⟨hi', hle'⟩
    · exact hp.disjoint hold hold'
    · exact absurd (hp.bound hold) (Nat.not_lt.mpr hle')
    · exact absurd (hp.bound hold') (Nat.not_lt.mpr hle)
    · exact hi.trans hi'.symm
  cover {s} hlt := by
    rcases Nat.lt_or_ge s.index h'.size with hold | hnew
    · obtain ⟨j, r, hr⟩ := hp.cover hold
      exact ⟨j, r, le_update hs hr⟩
    · obtain ⟨r, hr⟩ := hs.cover hnew hlt
      exact ⟨i, r, by rwa [Function.update_self]⟩
  closed {j r s t o} hr ho ht := by
    by_cases hij : j = i
    · subst hij
      rw [Function.update_self] at hr ⊢
      exact hs.within.closed hr ho ht
    · rw [Function.update_of_ne hij] at hr ⊢
      rw [hp.get?_eq hs hij hr] at ho
      exact hp.closed hr ho ht

/-- What holds an object of an owner is a root that leads there or another object of that owner. -/
theorem isHeld (hp : own.Parts h') (hw : h.Within (own i) h') {roots roots' : List Ref}
    (hroots : ∀ r s, own i r s → (r ∈ roots ↔ s ∈ roots')) {r s : Ref} (hr : own i r s) :
    h.isHeld roots r = h'.isHeld roots' s := by
  refine hw.isHeld hroots (fun t o u ho hu hm => ?_) hr
  obtain ⟨v, hv⟩ := hm
  obtain ⟨j, r', ht⟩ := hp.cover (Heap.index_lt_of_get? ho)
  obtain ⟨r'', hu'⟩ := hp.closed ht ho hu
  cases hp.disjoint hv hu'
  exact ⟨r', ht⟩

/-- Where there is one owner there is nothing to keep apart. -/
theorem sole (hw : h.Within l' h') (i : Nat) (hc : ∀ s, s.index < h'.size → ∃ r, l' r s) :
    (Ownership.sole i l').Parts h' where
  bound hr := hw.right_lt hr.2
  disjoint hr hr' := hr.1.trans hr'.1.symm
  cover {s} hs := by
    obtain ⟨r, hr⟩ := hc s hs
    exact ⟨i, r, rfl, hr⟩
  closed hr ho ht := by
    obtain ⟨u, hu⟩ := hw.closed hr.2 ho ht
    exact ⟨u, hr.1, hu⟩

end Parts

end Ownership

end RegisterMachine
