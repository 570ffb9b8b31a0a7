import RegisterMachine.Proofs.Value.Growable
import RegisterMachine.Value.Heap

/-!
# Heaps whose arrays are as arrays are made

Nothing in the type of an array says that its elements have slots. It holds of every array that is made
and changed by the operations on arrays, which is what `Growable.Shows` is about; `Heap.Sound` says it of
all arrays of a heap at once, whatever their kind. It is kept by whatever can happen to a heap: a new
object, new contents for an object, and the writes of elements.

In a sound array an index below the size leads to an element (`ArrayObject.Sound.get_of_lt`), and a write that
succeeds takes none away (`ArrayObject.Sound.set_meets`).
-/

namespace RegisterMachine

/-- The array is a list with a capacity. -/
def ArrayObject.Sound (a : ArrayObject) : Prop := ∃ v, a.elements.Shows v

/-- If the object is an array, it is a sound one. Of maps and records there is nothing to ask. -/
def Object.Sound : Object → Prop
  | .array a => a.Sound
  | _ => True

def Heap.Sound (h : Heap) : Prop := ∀ r o, h.get? r = some o → o.Sound

namespace ArrayObject

variable {a : ArrayObject}

/-- However an array is made, it is sound. -/
theorem make_meets {kind : ElementKind} (origin : Growable.Origin kind.Slot) :
    Meets Sound (fun _ => True)
      (origin.make.map fun elements => (⟨kind, elements⟩ : ArrayObject)) := by
  refine (origin.make_meets.mono (fun _ h => h) fun _ _ => trivial).map ?_
  rintro elements ⟨v, -, hv⟩
  exact ⟨v, hv⟩

theorem sound_empty (kind : ElementKind) : (empty kind).Sound := @make_meets kind .empty

theorem ofLength_meets (kind : ElementKind) (length : Int64) :
    Meets Sound (fun _ => True) (ofLength kind length) := @make_meets kind (.ofLength length)

theorem ofStrings_meets (items : List String) : Meets Sound (fun _ => True) (ofStrings items) :=
  @make_meets .string (.ofArray items.toArray)

theorem Sound.size_le (h : a.Sound) : a.size ≤ a.capacity ∧ a.capacity ≤ maxArraySize := by
  obtain ⟨v, hv⟩ := h
  exact ⟨hv.size_le, hv.capacity_le⟩

theorem Sound.length_toList (h : a.Sound) : a.toList.length = a.size := by
  obtain ⟨v, hv⟩ := h
  rw [toList, List.length_map, hv.elements, ← hv.size]
  rfl

/-- An index below the size is that of an element. -/
theorem Sound.get_of_lt (h : a.Sound) {k : Nat} (hk : k < a.size) :
    ∃ element, a.toList[k]? = some element ∧ a.get (.ofNat k) = .ok element := by
  obtain ⟨v, hv⟩ := h
  have hsize : a.elements.size = v.elements.length := hv.size
  have hlt : k < v.elements.length := by
    rw [← hsize]
    exact hk
  have hle := hv.elements_le
  have hmax := hv.le_max
  have hlimit : maxArraySize < 2 ^ 63 := by decide
  have hindex : (Int64.ofNat k).toInt = k := Int64.toInt_ofNat_of_lt (by omega)
  -- what the view answers, the array answers
  have hget := Growable.get_eq hv (.ofNat k)
  rw [Growable.View.serve, hindex, if_pos (Int.natCast_nonneg k), Int.toNat_natCast,
    List.getElem?_eq_getElem hlt] at hget
  refine ⟨a.kind.toValue v.elements[k], ?_, ?_⟩
  · rw [toList, hv.elements, List.getElem?_map, List.getElem?_eq_getElem hlt]
    rfl
  · unfold ArrayObject.get
    cases hx : a.elements.get (.ofNat k) with
    | error e =>
      rw [hx] at hget
      cases hget
    | ok x =>
      rw [hx] at hget
      cases hget
      rfl

/-- A write keeps the array sound, and never makes it shorter. -/
theorem Sound.set_meets (h : a.Sound) (index : Int64) (v : Value) (tag : TypeTag) :
    Meets (fun b => b.Sound ∧ a.size ≤ b.size) (fun _ => True) (a.set index v tag) := by
  obtain ⟨view, hview⟩ := h
  unfold ArrayObject.set
  split
  · split
    · exact trivial
    · rename_i x _
      have hm := Growable.set_meets hview index x
      split
      · rename_i elements hset
        obtain ⟨hin, hshows⟩ := hm.of_ok hset
        refine ⟨⟨_, hshows⟩, ?_⟩
        show a.elements.size ≤ elements.size
        rw [hview.size, hshows.size, Growable.View.write, List.length_set,
          Growable.View.length_padded]
        exact Nat.le_max_left _ _
      · exact trivial
  · exact trivial

end ArrayObject

namespace Heap

variable {h : Heap} {r : Ref} {o : Object}

theorem sound_empty : Heap.empty.Sound := by
  intro r o ho
  simp [get?, empty] at ho

theorem Sound.alloc (hs : h.Sound) (ho : o.Sound) : (h.alloc o).1.Sound := by
  intro s o' hs'
  by_cases hn : s = h.next
  · rw [hn, get?_alloc_next] at hs'
    cases hs'
    exact ho
  · rw [get?_alloc_of_ne hn] at hs'
    exact hs s o' hs'

theorem Sound.set (hs : h.Sound) (ho : o.Sound) : (h.set r o).Sound := by
  intro s o' hs'
  by_cases hn : s = r
  · subst hn
    cases hold : h.get? s with
    | none =>
      have : (h.set s o).get? s = none := by
        simp only [get?, Heap.set, Array.getElem?_eq_none_iff, Array.size_setIfInBounds] at hold ⊢
        exact hold
      rw [this] at hs'
      cases hs'
    | some old =>
      rw [get?_set_self o hold] at hs'
      cases hs'
      exact ho
  · rw [get?_set_of_ne o hn] at hs'
    exact hs s o' hs'

theorem Sound.setElement_meets (hs : h.Sound) {a : ArrayObject} (ha : a.Sound) (index : Int64)
    (v : Value) : Meets Sound (fun _ => True) (h.setElement r a index v) :=
  (ha.set_meets index v (h.tag v)).map fun _ hb => hs.set hb.1

end Heap

end RegisterMachine
