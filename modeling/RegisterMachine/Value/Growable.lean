/-!
# Growable arrays

A growable array has `slots`, all of them allocated, of which the first `size` are in use; the
others hold the default of the element type. A write past the end makes room first, by half
the capacity or by what is needed, and never past `maxArraySize` slots.

The view is `toList`, the part in use. Every operation either fails and changes nothing or acts
on the view as its name says.
-/

namespace RegisterMachine

/-- The most slots an array may have. -/
def maxArraySize : Nat := 2147483639

/-- The capacity of an array made without a length. -/
def defaultArraySize : Nat := 100

/-- What can go wrong with an index, before any slot is touched. -/
inductive IndexError
  /-- The index is not in the array, which has `size` elements. -/
  | outOfRange (index : Int64) (size : Nat)
  /-- No array has this index. -/
  | tooLarge (index : Int64)
  deriving DecidableEq, Repr

/-- The sum, or the greatest word where the sum does not fit. -/
def saturatingAdd (a b : UInt64) : UInt64 :=
  if a.toNat + b.toNat < UInt64.size then a + b else UInt64.ofNat (UInt64.size - 1)

/-- The capacity to grow to when `requested` slots are needed: half as much again as `current`,
never less than `requested` and never more than `maxArraySize`. -/
def grownCapacity (current requested : UInt64) : UInt64 :=
  min (max (saturatingAdd current (current >>> 1)) requested) (UInt64.ofNat maxArraySize)

/-- The place an index stands for when writing to an array of `size` elements. An index beyond
every array is reported as such also when it is negative. -/
def writeIndex (index : Int64) (size : Nat) : Except IndexError Nat :=
  if index > Int64.ofNat maxArraySize || index < Int64.ofInt (-2147483648) then
    .error (.tooLarge index)
  else if index < 0 then
    .error (.outOfRange index size)
  else
    .ok index.toInt.toNat

/-- The place an index stands for when reading from an array of `size` elements. -/
def readIndex (index : Int64) (size : Nat) : Except IndexError Nat := do
  let place ← writeIndex index size
  if size ≤ place then .error (.outOfRange index size) else .ok place

structure Growable (α : Type) where
  slots : Array α
  size : Nat

namespace Growable

variable {α : Type}

/-- The elements in use. -/
def toList (a : Growable α) : List α := a.slots.toList.take a.size

def capacity (a : Growable α) : Nat := a.slots.size

/-- An array whose elements are all given. It has no slot to spare. -/
def ofArray? (elements : Array α) : Except IndexError (Growable α) :=
  if maxArraySize < elements.size then
    .error (.tooLarge (Int64.ofNat elements.size))
  else
    .ok ⟨elements, elements.size⟩

/-- The element at `index`. -/
def get (a : Growable α) (index : Int64) [Inhabited α] : Except IndexError α := do
  let place ← readIndex index a.size
  .ok (a.slots.getD place default)

variable [Inhabited α]

/-- An array with no elements and the default capacity. -/
def empty : Growable α := ⟨Array.replicate defaultArraySize default, 0⟩

instance : Inhabited (Growable α) := ⟨empty⟩

/-- An array of `length` default elements. -/
def ofLength (length : Int64) : Except IndexError (Growable α) := do
  let length ← writeIndex length 0
  .ok ⟨Array.replicate length default, length⟩

/-- Adds slots up to `capacity`. -/
def pad (a : Growable α) (capacity : Nat) : Growable α :=
  { a with slots := a.slots ++ Array.replicate (capacity - a.slots.size) default }

/-- Makes room for `requested` elements. Where no array is that large, the error names the last
index asked for, as a signed word. -/
def reserve (a : Growable α) (requested : UInt64) : Except IndexError (Growable α) :=
  if requested.toNat ≤ a.capacity then
    .ok a
  else if maxArraySize < requested.toNat then
    .error (.tooLarge (requested.toInt64 - 1))
  else
    .ok (a.pad (grownCapacity (.ofNat a.capacity) requested).toNat)

/-- Writes the element at `index`, making room and elements as needed. -/
def set (a : Growable α) (index : Int64) (x : α) : Except IndexError (Growable α) := do
  let place ← writeIndex index a.size
  let roomy ← a.reserve (.ofNat (place + 1))
  .ok ⟨roomy.slots.setIfInBounds place x, max roomy.size (place + 1)⟩

/-- Adds an element at the end. -/
def push (a : Growable α) (x : α) : Except IndexError (Growable α) :=
  a.set (.ofNat a.size) x

end Growable

end RegisterMachine
