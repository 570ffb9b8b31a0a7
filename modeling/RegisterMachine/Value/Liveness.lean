import RegisterMachine.Value.Heap

/-!
# Which objects are held

An object is there as long as something holds it: a root, or an object that is itself held. So
objects that hold each other in a circle stay for ever, and the held objects are the largest set
in which each is a root or is referred to from within the set. Starting from all objects, those
with no holder are struck out in rounds; after as many rounds as there are objects no more can go.
-/

namespace RegisterMachine

namespace Heap

/-- The objects, of those in `kept`, that a root or an object in `kept` refers to. -/
def strike (h : Heap) (roots : List Ref) (kept : List Ref) : List Ref :=
  let holding := roots ++ kept.flatMap fun r => ((h.get? r).map Object.refs).getD []
  kept.filter holding.contains

/-- Strikes out unheld objects for some rounds, or until none goes. -/
def strikeRounds (h : Heap) (roots : List Ref) : Nat → List Ref → List Ref
  | 0, kept => kept
  | rounds + 1, kept =>
      let fewer := h.strike roots kept
      if fewer.length == kept.length then kept else h.strikeRounds roots rounds fewer

/-- The objects that are held when `roots` are. -/
def held (h : Heap) (roots : List Ref) : List Ref :=
  h.strikeRounds roots h.size ((List.range h.size).map Ref.mk)

/-- Whether an object is held. A root needs no search. -/
def isHeld (h : Heap) (roots : List Ref) (r : Ref) : Bool :=
  roots.contains r || (h.held roots).contains r

end Heap

end RegisterMachine
