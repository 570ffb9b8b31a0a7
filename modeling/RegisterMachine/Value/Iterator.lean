import RegisterMachine.Value.Heap

/-!
# Iterators

A cursor over an array, a map or a range. How far it goes is settled when it is made: an array's
size and a map's keys at that time. The elements themselves are read when they are reached. An
iterator does not hold its collection; once nothing else does, it has no next element.
-/

namespace RegisterMachine

/-- How many values each step delivers: the element, or its index or key and the element. -/
inductive Arity
  | one | two
  deriving DecidableEq, Repr

namespace Arity

def width : Arity → Nat
  | one => 1
  | two => 2

def ofWidth? : Nat → Option Arity
  | 1 => some one
  | 2 => some two
  | _ => none

/-- What a step delivers. -/
def pack (arity : Arity) (position element : Value) : List Value :=
  match arity with
  | one => [element]
  | two => [position, element]

end Arity

inductive IteratorError
  | exhausted
  | invalidArity (width : Nat)
  /-- Nothing holds the collection any more. -/
  | collectionDropped
  | array (e : ArrayError)
  deriving DecidableEq, Repr

inductive Iterator
  /-- The elements of an array from `cursor` up to `length`. -/
  | array (source : Ref) (cursor length : Nat)
  /-- The values of a map under the keys that are left. -/
  | map (source : Ref) (keys : List String)
  /-- The integers from `next` to the end of the range, the first of them being the `cursor`-th.
  There is no `next` past the greatest integer. -/
  | range (source : IntRange) (cursor : Int64) (next : Option Int64)
  deriving Repr

namespace Iterator

/-- An iterator over a value, where there is one. -/
def over? (h : Heap) : Value → Option Iterator
  | .range r => some (range r 0 (some r.first))
  | .collection r =>
      match h.get? r with
      | some (.array a) => some (array r 0 a.size)
      | some (.map entries) => some (map r entries.keys)
      | _ => none
  | _ => none

/-- Whether there is a next element. `isHeld` tells which objects are still held. -/
def hasNext (isHeld : Ref → Bool) : Iterator → Bool
  | array source cursor length => cursor < length && isHeld source
  | map source keys => !keys.isEmpty && isHeld source
  | range source _ next =>
      match next with
      | some current => decide (source.first ≤ current) && decide (current ≤ source.last)
      | none => false

/-- The next element and the iterator after it. -/
def next (h : Heap) (isHeld : Ref → Bool) (arity : Arity) (it : Iterator) :
    Except IteratorError (List Value × Iterator) :=
  match it with
  | array source cursor length =>
      if cursor < length then
        if isHeld source then
          match h.get? source with
          | some (.array a) =>
              match a.get (.ofNat cursor) with
              | .ok element =>
                  .ok (arity.pack (.int (.ofNat cursor)) element, array source (cursor + 1) length)
              | .error e => .error (.array e)
          | _ => .error .collectionDropped
        else .error .collectionDropped
      else .error .exhausted
  | map source keys =>
      match keys with
      | [] => .error .exhausted
      | key :: rest =>
          if isHeld source then
            match h.get? source with
            | some (.map entries) => .ok (arity.pack (.str key) (entries.get key), map source rest)
            | _ => .error .collectionDropped
          else .error .collectionDropped
  | range source cursor (some current) =>
      if source.first ≤ current ∧ current ≤ source.last then
        let next := if current < Int64.maxValue then some (current + 1) else none
        .ok (arity.pack (.int cursor) (.int current), range source (cursor + 1) next)
      else .error .exhausted
  | range _ _ none => .error .exhausted

end Iterator

end RegisterMachine
