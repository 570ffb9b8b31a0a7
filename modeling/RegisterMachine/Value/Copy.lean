import RegisterMachine.Value.Heap

/-!
# Deep copies

Copying a value makes a new object for every object that can be reached from it, once each, so
that sharing and cycles come out the same. Values that are no collections are their own copies.
A new object is noted before its contents are copied: a reference back to the original then finds
the copy.
-/

namespace RegisterMachine

/-- Passes a state along a list from left to right. -/
def mapAccum {α β σ : Type} (f : σ → α → σ × β) : σ → List α → σ × List β
  | s, [] => (s, [])
  | s, a :: rest =>
      let (s, b) := f s a
      let (s, bs) := mapAccum f s rest
      (s, b :: bs)

/-- The heap so far and the copy of each object that has one. -/
structure Copying where
  heap : Heap
  copies : List (Ref × Ref)

namespace Object

/-- What a copy looks like before its contents are there. -/
def outline : Object → Object
  | array a => array a
  | map _ => map []
  | record typeName _ => record typeName []

/-- The object with other values in the place of those it holds. -/
def refill (o : Object) (values : List Value) : Object :=
  match o with
  | array a => array (a.refill values)
  | map entries => map ((entries.map Prod.fst).zip values)
  | record typeName fields => record typeName ((fields.map Prod.fst).zip values)

end Object

namespace Copying

/-- Copies a value. Along one chain of references every object is another one, so as many of them
as the heap had at first are enough for `depth`. -/
def copy : (depth : Nat) → Copying → Value → Copying × Value
  | depth, s, .collection r =>
      match s.copies.lookup r with
      | some done => (s, .collection done)
      | none =>
          match depth, s.heap.get? r with
          | 0, _ | _, none => (s, .collection r)
          | depth + 1, some o =>
              let (heap, fresh) := s.heap.alloc o.outline
              let (s, values) := mapAccum (copy depth) ⟨heap, (r, fresh) :: s.copies⟩ o.values
              (⟨s.heap.set fresh (o.refill values), s.copies⟩, .collection fresh)
  | _, s, v => (s, v)

end Copying

/-- Copies a value deeply: the heap with the new objects, and the copy. -/
def Heap.copy (h : Heap) (v : Value) : Heap × Value :=
  let (s, copied) := Copying.copy h.size ⟨h, []⟩ v
  (s.heap, copied)

end RegisterMachine
