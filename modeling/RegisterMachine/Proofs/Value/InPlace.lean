import RegisterMachine.Proofs.InPlace
import RegisterMachine.Value.Heap

/-!
# Writing elements in place

Makes room in the array that is there, fills a slot of it and raises its size, in this order, each of which
stays when something after it fails. It does not: whatever can fail comes before the first change
(`Growable.setInPlace_follows`, and for arrays on a heap `Heap.setElementInPlace_follows`). So a write that is
turned down has changed nothing.
-/

namespace RegisterMachine

open InPlace

namespace Growable

variable {α : Type} [Inhabited α]

/-- Makes room. -/
def reserveInPlace (requested : UInt64) : InPlace (Growable α) IndexError Unit := do
  let capacity ← look fun a => .ok a.capacity
  if requested.toNat ≤ capacity then pure ()
  else if maxArraySize < requested.toNat then throw (.tooLarge (requested.toInt64 - 1))
  else change fun a => a.pad (grownCapacity (.ofNat capacity) requested).toNat

/-- Writes an element. The slots are there before the element is, and the size goes up last. -/
def setInPlace (index : Int64) (x : α) : InPlace (Growable α) IndexError Unit := do
  let place ← look fun a => writeIndex index a.size
  reserveInPlace (.ofNat (place + 1))
  change fun a => { a with slots := a.slots.setIfInBounds place x }
  change fun a => if a.size ≤ place then { a with size := place + 1 } else a

/-- Adds an element at the end, wherever that is. -/
def pushInPlace (x : α) : InPlace (Growable α) IndexError Unit := do
  let size ← look fun a => .ok a.size
  setInPlace (.ofNat size) x

theorem reserveInPlace_follows (a : Growable α) (requested : UInt64) :
    Follows (· = a) ((reserveInPlace requested).on a) (a.reserve requested) := by
  refine Follows.read (f := fun a : Growable α => .ok a.capacity)
    (y := fun _ => a.reserve requested) rfl fun capacity hcapacity => ?_
  cases hcapacity
  unfold reserve
  split
  · rfl
  · split
    · exact ⟨rfl, rfl⟩
    · rfl

theorem setInPlace_follows (a : Growable α) (index : Int64) (x : α) :
    Follows (· = a) ((setInPlace index x).on a) (a.set index x) := by
  refine Follows.read rfl fun place _ => (reserveInPlace_follows a _).bind fun roomy _ => ?_
  -- there is room now, and nothing that follows can fail
  show (Except.ok (), _) = (Except.ok (), _)
  congr 1
  dsimp only
  split
  · rename_i hle
    rw [Nat.max_eq_right (Nat.le_succ_of_le hle)]
  · rename_i hlt
    rw [Nat.max_eq_left (Nat.lt_of_not_le hlt)]

theorem pushInPlace_follows (a : Growable α) (x : α) :
    Follows (· = a) ((pushInPlace x).on a) (a.push x) := by
  refine Follows.read (f := fun a : Growable α => .ok a.size) (y := fun _ => a.push x) rfl
    fun size hsize => ?_
  cases hsize
  exact setInPlace_follows a (.ofNat a.size) x

end Growable

/-- Writes an element of an array that can store it. -/
def ArrayObject.setInPlace (index : Int64) (v : Value) (tag : TypeTag) :
    InPlace ArrayObject ArrayError Unit :=
  effect fun a =>
    if a.kind.accepts v then
      match a.kind.ofValue? v with
      | none => (.error (.elementType a.kind tag), a)
      | some x => putBack .index (⟨a.kind, ·⟩) ((Growable.setInPlace index x).on a.elements)
    else
      (.error (.elementType a.kind tag), a)

theorem ArrayObject.setInPlace_follows (a : ArrayObject) (index : Int64) (v : Value) (tag : TypeTag) :
    Follows (· = a) ((setInPlace index v tag).on a) (a.set index v tag) := by
  rw [setInPlace, on_effect, set]
  split
  · cases a.kind.ofValue? v with
    | none => exact ⟨rfl, rfl⟩
    | some x =>
      have hset := (Growable.setInPlace_follows a.elements index x).putBack (· = a)
        ArrayError.index (⟨a.kind, ·⟩) fun elements he => congrArg (ArrayObject.mk a.kind) he
      dsimp only
      cases hx : a.elements.set index x with
      | ok elements =>
        rw [hx] at hset
        exact hset
      | error e =>
        rw [hx] at hset
        exact hset
  · exact ⟨rfl, rfl⟩

/-- Adds an element to an array that can store it. -/
def ArrayObject.pushInPlace (v : Value) (tag : TypeTag) : InPlace ArrayObject ArrayError Unit := do
  let size ← look fun a => .ok a.size
  setInPlace (.ofNat size) v tag

theorem ArrayObject.pushInPlace_follows (a : ArrayObject) (v : Value) (tag : TypeTag) :
    Follows (· = a) ((pushInPlace v tag).on a) (a.push v tag) := by
  refine Follows.read (f := fun a : ArrayObject => .ok a.size) (y := fun _ => a.push v tag) rfl
    fun size hsize => ?_
  cases hsize
  exact a.setInPlace_follows (.ofNat a.size) v tag

namespace Heap

variable {h : Heap} {r : Ref} {a : ArrayObject}

/-- Giving an object the contents that it has changes nothing. -/
theorem set_of_get? {o : Object} (hr : h.get? r = some o) : h.set r o = h := by
  obtain ⟨hlt, rfl⟩ := Array.getElem?_eq_some_iff.mp hr
  rw [set, Array.setIfInBounds, dif_pos hlt, Array.set_getElem_self]

/-- An array that has been changed where it is. -/
theorem putBack_follows (hr : h.get? r = some (.array a)) {result : Except ArrayError Unit × ArrayObject}
    {changed : Except ArrayError ArrayObject} (hc : Follows (· = a) result changed) :
    Follows (· = h) (putBack id (fun a => h.set r (.array a)) result)
      (changed.map fun a => h.set r (.array a)) := by
  have hput := hc.putBack (· = h) id (fun a => h.set r (.array a)) fun b hb => by rw [hb, set_of_get? hr]
  rw [map_mapError_id] at hput
  exact hput

/-- Writes an element of the array at `r`, where it is. -/
def setElementInPlace (r : Ref) (a : ArrayObject) (index : Int64) (v : Value) :
    InPlace Heap ArrayError Unit :=
  effect fun h =>
    putBack id (fun a => h.set r (.array a)) ((ArrayObject.setInPlace index v (h.tag v)).on a)

/-- Adds an element to the array at `r`. -/
def pushElementInPlace (r : Ref) (a : ArrayObject) (v : Value) : InPlace Heap ArrayError Unit :=
  effect fun h => putBack id (fun a => h.set r (.array a)) ((ArrayObject.pushInPlace v (h.tag v)).on a)

theorem setElementInPlace_follows (hr : h.get? r = some (.array a)) (index : Int64) (v : Value) :
    Follows (· = h) ((setElementInPlace r a index v).on h) (h.setElement r a index v) :=
  putBack_follows hr (a.setInPlace_follows index v (h.tag v))

theorem pushElementInPlace_follows (hr : h.get? r = some (.array a)) (v : Value) :
    Follows (· = h) ((pushElementInPlace r a v).on h) (h.pushElement r a v) :=
  putBack_follows hr (a.pushInPlace_follows v (h.tag v))

end Heap

end RegisterMachine
