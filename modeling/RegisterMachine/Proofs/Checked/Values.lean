import RegisterMachine.Machine.Local
import RegisterMachine.Proofs.Checked.Basic
import RegisterMachine.Proofs.Value.Soundness

/-!
# Arrays, iterators and lengths, with every check

In a sound array an index that is turned down by no check of its own leads to a slot, and a write finds the
slot that it has made room for. An iterator over an array stays below the array's size; one over a range
counts what it delivers, and how far it has counted is a matter of how long the program has run. That is
`Iterator.Within`: no further than `n`. The length of a range is taken in integers wide enough for it, and
what is too long counts as the greatest integer.
-/

namespace RegisterMachine

open Checked

/-! ## Arrays -/

theorem readIndex_meets (index : Int64) (size : Nat) :
    Meets (fun place => place < size) (fun _ => True) (readIndex index size) := by
  refine Meets.bind (P := fun _ => True) (.intro (fun _ _ => trivial) fun _ _ => trivial)
    fun place _ => ?_
  split
  · exact trivial
  · exact Nat.lt_of_not_le ‹_›

theorem writeIndex_meets (index : Int64) (size : Nat) :
    Meets (fun place => place ≤ maxArraySize) (fun _ => True) (writeIndex index size) := by
  rw [writeIndex_eq]
  split
  · exact trivial
  · split
    · exact trivial
    · show index.toInt.toNat ≤ maxArraySize
      omega

namespace Growable

variable {α : Type} [Inhabited α] {a : Growable α} {v : View α}

/-- The element at `index`, in a slot that must be there. -/
def getChecked (a : Growable α) (index : Int64) : Checked IndexError α := do
  let place ← .lift (readIndex index a.size)
  .must a.slots[place]?

/-- Makes room. The error names the last index asked for, which must be an integer. -/
def reserveChecked (a : Growable α) (requested : UInt64) : Checked IndexError (Growable α) :=
  if requested.toNat ≤ a.capacity then pure a
  else if maxArraySize < requested.toNat then do
    let last ← .must (int? (requested.toInt64.toInt - 1))
    throw (.tooLarge last)
  else pure (a.pad (grownCapacity (.ofNat a.capacity) requested).toNat)

/-- Writes the element at `index`, in a slot that must be there by then. -/
def setChecked (a : Growable α) (index : Int64) (x : α) : Checked IndexError (Growable α) := do
  let place ← .lift (writeIndex index a.size)
  let needed ← .must (place? (place + 1))
  let roomy ← a.reserveChecked (.ofNat needed)
  let slots ← .must (put? roomy.slots place x)
  pure ⟨slots, max roomy.size needed⟩

/-- The elements, all of which must have a slot. -/
def sliceChecked (a : Growable α) : Option (List α) :=
  if a.size ≤ a.slots.size then some a.toList else none

theorem getChecked_safe (h : a.Shows v) (index : Int64) :
    Safe (fun _ => True) (a.getChecked index) (a.get index) := by
  refine (Safe.lift (readIndex_meets index a.size)).bind fun place hplace => ?_
  have hlt : place < a.slots.size := Nat.lt_of_lt_of_le hplace h.size_le
  refine ⟨?_, trivial⟩
  show Option.map Except.ok a.slots[place]? = _
  rw [Array.getElem?_eq_getElem hlt, Array.getD_eq_getD_getElem?, Array.getElem?_eq_getElem hlt]
  rfl

-- what the array shows has to be there: this one has an element without a slot
example : ((⟨#[], 1⟩ : Growable Int64).getChecked 0).run = none := rfl

theorem reserveChecked_safe (h : a.Shows v) {requested : Nat} (hr : requested < 2 ^ 63) :
    Safe (fun b => requested ≤ b.slots.size) (a.reserveChecked (.ofNat requested))
      (a.reserve (.ofNat requested)) := by
  have hnat : (UInt64.ofNat requested).toNat = requested :=
    UInt64.toNat_ofNat_of_lt' (Nat.lt_trans hr (by decide))
  refine ⟨?_, (reserve_meets h _).mono (fun b hb => ?_) fun _ _ => trivial⟩
  · unfold reserveChecked reserve
    split
    · rfl
    · split
      · rename_i hlarge
        have hint : (UInt64.ofNat requested).toInt64.toInt = requested :=
          Int64.toInt_ofNat_of_lt hr
        rw [hint, int?_of_le (by omega), Int64.ofInt_sub, Int64.ofInt_eq_ofNat]
        rfl
      · rfl
  · rw [hnat] at hb
    show requested ≤ b.capacity
    rw [hb.2.capacity]
    exact View.needed_le_room v.capacity hb.1

theorem setChecked_safe (h : a.Shows v) (index : Int64) (x : α) :
    Safe (fun _ => True) (a.setChecked index x) (a.set index x) := by
  refine (Safe.lift (writeIndex_meets index a.size)).bind fun place hplace => ?_
  have hmax : maxArraySize + 1 < 2 ^ 63 := by decide
  refine .must (place?_of_lt (by omega)) ?_
  refine (reserveChecked_safe h (by omega)).bind fun b hb => ?_
  exact .must (put?_of_lt hb x) (.pure trivial)

end Growable

namespace ArrayObject

variable {a : ArrayObject}

def getChecked (a : ArrayObject) (index : Int64) : Checked ArrayError Value :=
  a.kind.toValue <$> (a.elements.getChecked index).mapError .index

/-- Writes an element. -/
def setChecked (a : ArrayObject) (index : Int64) (v : Value) (tag : TypeTag) :
    Checked ArrayError ArrayObject :=
  if a.kind.accepts v then
    match a.kind.ofValue? v with
    | none => throw (.elementType a.kind tag)
    | some x => (fun elements => ⟨a.kind, elements⟩) <$> (a.elements.setChecked index x).mapError .index
  else
    throw (.elementType a.kind tag)

theorem Sound.getChecked_safe (h : a.Sound) (index : Int64) :
    Safe (fun _ => True) (a.getChecked index) (a.get index) := by
  obtain ⟨v, hv⟩ := h
  have hget : a.get index = ((a.elements.get index).mapError .index).map a.kind.toValue := by
    unfold get
    cases a.elements.get index <;> rfl
  rw [hget]
  exact (Growable.getChecked_safe hv index).mapError.map fun _ _ => trivial

theorem Sound.setChecked_safe (h : a.Sound) (index : Int64) (v : Value) (tag : TypeTag) :
    Safe Sound (a.setChecked index v tag) (a.set index v tag) := by
  refine ⟨?_, (h.set_meets index v tag).mono (fun _ hb => hb.1) fun _ he => he⟩
  obtain ⟨view, hv⟩ := h
  unfold setChecked set
  split
  · cases a.kind.ofValue? v with
    | none => rfl
    | some x =>
      have hsafe := (Growable.setChecked_safe hv index x).mapError (f := ArrayError.index)
      refine (hsafe.map (R := fun _ => True) fun _ _ => trivial).run_eq.trans ?_
      dsimp only
      cases a.elements.set index x <;> rfl
  · rfl

end ArrayObject

namespace Heap

variable {h : Heap}

/-- Writes an element of the array at `r`. -/
def setElementChecked (h : Heap) (r : Ref) (a : ArrayObject) (index : Int64) (v : Value) :
    Checked ArrayError Heap :=
  (fun a => h.set r (.array a)) <$> a.setChecked index v (h.tag v)

theorem Sound.setElementChecked_safe (hs : h.Sound) (r : Ref) {a : ArrayObject} (ha : a.Sound)
    (index : Int64) (v : Value) :
    Safe Sound (h.setElementChecked r a index v) (h.setElement r a index v) :=
  (ha.setChecked_safe index v (h.tag v)).map fun _ hb => hs.set hb

end Heap

/-! ## Iterators -/

namespace Iterator

/-- The iterator has not got further than to `n`, and one over an array has an end within bounds. -/
def Within (n : Nat) : Iterator → Prop
  | array _ cursor length => cursor ≤ length ∧ length ≤ maxArraySize
  | map _ _ => True
  | range _ cursor _ => 0 ≤ cursor.toInt ∧ cursor.toInt ≤ n

/-- The next element. The iterator must be able to move past it. -/
def nextChecked (h : Heap) (isHeld : Ref → Bool) (arity : Arity) (it : Iterator) :
    Checked IteratorError (List Value × Iterator) :=
  match it with
  | array source cursor length =>
      if cursor < length then
        if isHeld source then
          match h.get? source with
          | some (.array a) => do
              let element ← (a.getChecked (.ofNat cursor)).mapError .array
              let after ← .must (place? (cursor + 1))
              pure (arity.pack (.int (.ofNat cursor)) element, array source after length)
          | _ => throw .collectionDropped
        else throw .collectionDropped
      else throw .exhausted
  | map source keys => .lift ((map source keys).next h isHeld arity)
  | range source cursor (some current) =>
      if source.first ≤ current ∧ current ≤ source.last then do
        let after ← .must (int? (cursor.toInt + 1))
        let next := if current < Int64.maxValue then some (current + 1) else none
        pure (arity.pack (.int cursor) (.int current), range source after next)
      else throw .exhausted
  | range _ _ none => throw .exhausted

variable {h : Heap} {isHeld : Ref → Bool} {it : Iterator} {n : Nat}

theorem Within.mono {m : Nat} (hit : it.Within n) (hle : n ≤ m) : it.Within m := by
  cases it with
  | array source cursor length => exact hit
  | map source keys => exact trivial
  | range source cursor next => exact ⟨hit.1, Int.le_trans hit.2 (by exact_mod_cast hle)⟩

/-- An iterator begins at the beginning. -/
theorem within_of_over? {v : Value} (hs : h.Sound) (hit : over? h v = some it) : it.Within 0 := by
  unfold over? at hit
  split at hit
  · cases hit
    exact ⟨Int.le_refl _, Int.le_refl _⟩
  · split at hit
    · rename_i a ha
      cases hit
      have hsize := ArrayObject.Sound.size_le (hs _ _ ha)
      exact ⟨Nat.zero_le _, Nat.le_trans hsize.1 hsize.2⟩
    · cases hit
      exact trivial
    · cases hit
  · cases hit

/-- An iterator over a map is one over a map after every step. -/
theorem next_map_eq_ok {source : Ref} {keys : List String} {arity : Arity}
    {r : List Value × Iterator} (hr : (map source keys).next h isHeld arity = .ok r) :
    ∃ rest, r.2 = map source rest := by
  cases keys with
  | nil => cases hr
  | cons key rest =>
    rw [next] at hr
    split at hr
    · split at hr
      · cases hr
        exact ⟨rest, rfl⟩
      · cases hr
    · cases hr

theorem next_array_of_lt {source : Ref} {cursor length : Nat} {a : ArrayObject}
    (hlt : cursor < length) (hheld : isHeld source = true) (ho : h.get? source = some (.array a))
    (arity : Arity) : (array source cursor length).next h isHeld arity =
      (a.get (.ofNat cursor)).mapError IteratorError.array >>= fun element =>
        .ok (arity.pack (.int (.ofNat cursor)) element, array source (cursor + 1) length) := by
  rw [next, if_pos hlt, if_pos hheld, ho]
  dsimp only
  cases a.get (.ofNat cursor) <;> rfl

/-- A step takes an iterator one further. There is room for that as long as the program has not run for
too long. -/
theorem nextChecked_safe (isHeld : Ref → Bool) (hs : h.Sound) (hit : it.Within n)
    (hn : n + 1 < 2 ^ 63) (arity : Arity) :
    Safe (fun r => r.2.Within (n + 1)) (it.nextChecked h isHeld arity) (it.next h isHeld arity) := by
  cases it with
  | array source cursor length =>
    by_cases hready : cursor < length ∧ isHeld source = true
    · obtain ⟨hlt, hheld⟩ := hready
      rw [nextChecked, if_pos hlt, if_pos hheld]
      cases ho : h.get? source with
      | none =>
        rw [next, if_pos hlt, if_pos hheld, ho]
        exact .throw _
      | some o =>
        cases o with
        | array a =>
          have hsafe := ArrayObject.Sound.getChecked_safe (hs _ _ ho) (.ofNat cursor)
          have hplace : place? (cursor + 1) = some (cursor + 1) := by
            have hmax : maxArraySize < 2 ^ 64 := by decide
            have := hit.2
            exact place?_of_lt (by omega)
          rw [next_array_of_lt hlt hheld ho]
          exact hsafe.mapError.bind fun element _ => .must hplace (.pure ⟨hlt, hit.2⟩)
        | _ =>
          rw [next, if_pos hlt, if_pos hheld, ho]
          exact .throw _
    · rw [nextChecked, next]
      split
      · rename_i hlt
        have hheld : ¬ isHeld source = true := fun hheld => hready ⟨hlt, hheld⟩
        rw [if_neg hheld, if_neg hheld]
        exact .throw _
      · exact .throw _
  | map source keys =>
    refine .lift (.intro (fun r hr => ?_) fun _ _ => trivial)
    obtain ⟨rest, hrest⟩ := next_map_eq_ok hr
    rw [hrest]
    exact trivial
  | range source cursor next =>
    cases next with
    | none => exact .throw _
    | some current =>
      rw [nextChecked, Iterator.next]
      split
      · obtain ⟨hlow, hhigh⟩ := hit
        have hfits : -2 ^ 63 ≤ cursor.toInt + 1 ∧ cursor.toInt + 1 < 2 ^ 63 := by omega
        have hadd : Int64.ofInt (cursor.toInt + 1) = cursor + 1 := by
          rw [Int64.ofInt_add, Int64.ofInt_toInt]
          rfl
        have hto : (cursor + 1).toInt = cursor.toInt + 1 := by
          rw [← hadd]
          exact Int64.toInt_ofInt_of_le hfits.1 hfits.2
        refine .must ((int?_of_le hfits).trans (congrArg some hadd)) (.pure ?_)
        show 0 ≤ (cursor + 1).toInt ∧ (cursor + 1).toInt ≤ (n + 1 : Nat)
        omega
      · exact .throw _

-- an iterator that has got as far as it can count
example : ((range ⟨0, 9⟩ Int64.maxValue (some 5)).nextChecked .empty (fun _ => true) .one).run
    = none := by decide

end Iterator

/-! ## Lengths -/

/-- How many integers the range holds, at most the greatest. -/
def IntRange.lengthChecked (r : IntRange) : Option Int64 :=
  if r.isEmpty then some 0
  else do
    let difference ← wide? (r.last.toInt - r.first.toInt)
    let length ← wide? (difference + 1)
    int? (min length Int64.maxValue.toInt)

theorem IntRange.lengthChecked_eq (r : IntRange) :
    r.lengthChecked = some (.ofNat (min r.length Int64.maxValue.toInt.toNat)) := by
  have hfirst := r.first.le_toInt
  have hfirst' := r.first.toInt_lt
  have hlast := r.last.le_toInt
  have hlast' := r.last.toInt_lt
  have hmax : Int64.maxValue.toInt = 2 ^ 63 - 1 := Int64.toInt_maxValue
  unfold lengthChecked isEmpty
  by_cases hempty : r.last < r.first
  · have hlen : r.length = 0 := by
      have := Int64.lt_iff_toInt_lt.mp hempty
      unfold length
      omega
    rw [if_pos (by simpa using hempty), hlen]
    rfl
  · have hle : r.first.toInt ≤ r.last.toInt := by
      rw [Int64.lt_iff_toInt_lt] at hempty
      omega
    have hlen : (r.length : Int) = r.last.toInt - r.first.toInt + 1 := by
      unfold length
      omega
    rw [if_neg (by simpa using hempty), wide?_of_le (by omega)]
    show (wide? (r.last.toInt - r.first.toInt + 1)).bind (fun length => int? (min length _)) = _
    rw [wide?_of_le (by omega), Option.bind_some, int?_of_le (by omega), ← Int64.ofInt_eq_ofNat]
    congr 2
    omega

/-- The number of elements, characters or bytes. -/
def Heap.lengthOfChecked (h : Heap) (v : Value) : Checked ExecutionError Int64 :=
  match v with
  | .range r => .must r.lengthChecked
  | v => .lift (h.lengthOf v)

theorem Heap.lengthOfChecked_safe (h : Heap) (v : Value) :
    Safe (fun _ => True) (h.lengthOfChecked v) (h.lengthOf v) := by
  cases v with
  | range r => exact .result r.lengthChecked_eq trivial
  | _ => exact .lift Meets.any

end RegisterMachine
