import RegisterMachine.Value.Object

/-!
# The heap

Every array, map and record of a run, in the order they were made. Objects are added and changed,
never removed: a reference stays good for ever, and whether anything still holds an object is a
question about the references that lead to it (`Value.Liveness`).
-/

namespace RegisterMachine

structure Heap where
  objects : Array Object

namespace Heap

def empty : Heap := ⟨#[]⟩

instance : Inhabited Heap := ⟨empty⟩

def size (h : Heap) : Nat := h.objects.size

def get? (h : Heap) (r : Ref) : Option Object := h.objects[r.index]?

/-- The reference that the next new object will have. -/
def next (h : Heap) : Ref := ⟨h.objects.size⟩

def alloc (h : Heap) (o : Object) : Heap × Ref := (⟨h.objects.push o⟩, h.next)

/-- Gives an object new contents. -/
def set (h : Heap) (r : Ref) (o : Object) : Heap := ⟨h.objects.setIfInBounds r.index o⟩

theorem get?_alloc_next (h : Heap) (o : Object) : (h.alloc o).1.get? h.next = some o := by
  simp [alloc, get?, next]

theorem get?_alloc_of_ne {h : Heap} {o : Object} {r : Ref} (hr : r ≠ h.next) :
    (h.alloc o).1.get? r = h.get? r := by
  have : r.index ≠ h.objects.size := fun e => hr (by cases r; simp_all [next])
  simp only [alloc, get?, Array.getElem?_push]
  simp [this]

theorem get?_set_self {h : Heap} {r : Ref} {old : Object} (o : Object) (hr : h.get? r = some old) :
    (h.set r o).get? r = some o := by
  have : r.index < h.objects.size := (Array.getElem?_eq_some_iff.1 hr).1
  simp [set, get?, this]

theorem get?_set_of_ne {h : Heap} {r s : Ref} (o : Object) (hs : s ≠ r) :
    (h.set r o).get? s = h.get? s := by
  have : ¬ r.index = s.index := fun e => hs (by cases r; cases s; simp_all)
  simp [set, get?, this]

/-- The array, map or record that a value refers to. -/
def object? (h : Heap) (v : Value) : Option (Ref × Object) :=
  match v with
  | .collection r => (h.get? r).map (r, ·)
  | _ => none

/-- The type of a value. A reference that leads nowhere counts as null. -/
def tag (h : Heap) : Value → TypeTag
  | .null => .null
  | .int _ => .int
  | .float _ => .float
  | .bool _ => .boolean
  | .str _ => .string
  | .blob _ => .blob
  | .range _ => .range
  | .error _ => .error
  | .collection r => ((h.get? r).map Object.tag).getD .null

/-- Whether a value can be iterated over: arrays, maps and ranges can. -/
def isIterable (h : Heap) (v : Value) : Bool :=
  match v with
  | .range _ => true
  | .collection r =>
      match h.get? r with
      | some (.array _) | some (.map _) => true
      | _ => false
  | _ => false

/-- Writes an element of the array at `r`. -/
def setElement (h : Heap) (r : Ref) (a : ArrayObject) (index : Int64) (v : Value) :
    Except ArrayError Heap :=
  (a.set index v (h.tag v)).map fun a => h.set r (.array a)

/-- Adds an element to the array at `r`. -/
def pushElement (h : Heap) (r : Ref) (a : ArrayObject) (v : Value) : Except ArrayError Heap :=
  (a.push v (h.tag v)).map fun a => h.set r (.array a)

end Heap

end RegisterMachine
