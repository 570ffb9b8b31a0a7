import RegisterMachine.Proofs.Meets
import RegisterMachine.Proofs.Value.InPlace

/-!
# A growable array is a list with a capacity

The slots of a growable array are its elements and behind them defaults, and nothing else about them
can be seen from outside. `Growable.View` is what is left when the slots are forgotten: a list and a
number. Each request that an array can be given has a meaning on the view, `View.serve`, which speaks
of lists and of natural numbers only, and **`Growable.serves_list`** says that arrays keep to it,
however they were made and whatever they were asked before.

What carries it is that the slots behind the elements hold the default. Slots that nobody has written
are uncovered by a write past the end, and the view says what they show.

Requests are served in place (`Growable.serve`). What such a write has done by the time it fails would stay
done, but there is nothing that it has done (`Growable.act_eq_attempt`).
-/

namespace RegisterMachine

/-! ## Words as numbers -/

theorem toNat_saturatingAdd (a b : UInt64) :
    (saturatingAdd a b).toNat = min (a.toNat + b.toNat) (UInt64.size - 1) := by
  unfold saturatingAdd
  by_cases h : a.toNat + b.toNat < UInt64.size
  · rw [if_pos h, UInt64.toNat_add, Nat.mod_eq_of_lt h]
    omega
  · rw [if_neg h, UInt64.toNat_ofNat_of_lt' (by decide)]
    omega

theorem toNat_min (a b : UInt64) : (min a b).toNat = min a.toNat b.toNat := by
  show (if a ≤ b then a else b).toNat = _
  split
  · rename_i h
    rw [UInt64.le_iff_toNat_le] at h
    omega
  · rename_i h
    rw [UInt64.le_iff_toNat_le] at h
    omega

theorem toNat_max (a b : UInt64) : (max a b).toNat = max a.toNat b.toNat := by
  show (if a ≤ b then b else a).toNat = _
  split
  · rename_i h
    rw [UInt64.le_iff_toNat_le] at h
    omega
  · rename_i h
    rw [UInt64.le_iff_toNat_le] at h
    omega

/-- Growing is arithmetic without a bound: a sum that saturates is past the greatest capacity. -/
theorem toNat_grownCapacity (current requested : UInt64) :
    (grownCapacity current requested).toNat
      = min (max (current.toNat + current.toNat / 2) requested.toNat) maxArraySize := by
  have hhalf : (current >>> 1).toNat = current.toNat / 2 := by
    rw [UInt64.toNat_shiftRight]
    exact Nat.shiftRight_succ _ 0
  unfold grownCapacity
  rw [toNat_min, toNat_max, toNat_saturatingAdd, hhalf, UInt64.toNat_ofNat_of_lt' (by decide)]
  have hmax : maxArraySize = 2147483639 := rfl
  have hsize : UInt64.size = 18446744073709551616 := rfl
  omega

theorem writeIndex_eq (index : Int64) (size : Nat) :
    writeIndex index size =
      if index.toInt > maxArraySize ∨ index.toInt < -2147483648 then .error (.tooLarge index)
      else if index.toInt < 0 then .error (.outOfRange index size)
      else .ok index.toInt.toNat := by
  unfold writeIndex
  simp only [Int64.lt_iff_toInt_lt, gt_iff_lt, Bool.or_eq_true, decide_eq_true_eq]
  rfl

namespace Growable

variable {α : Type}

/-! ## Views -/

/-- A list, and how many elements there is room for. -/
structure View (α : Type) where
  elements : List α
  capacity : Nat

/-- A change that is made under a condition. There is no answer where it is not. -/
def View.changed (v : View α) (p : Prop) [Decidable p] (u : View α) : View α × Option (Option α) :=
  if p then (u, some none) else (v, none)

theorem View.capacity_le_changed {v u : View α} (p : Prop) [Decidable p]
    (h : v.capacity ≤ u.capacity) : v.capacity ≤ (v.changed p u).1.capacity := by
  unfold changed
  split
  · exact h
  · exact Nat.le_refl _

variable [Inhabited α]

/-- The view of an array. -/
structure Shows (a : Growable α) (v : View α) : Prop where
  elements : a.toList = v.elements
  size : a.size = v.elements.length
  capacity : a.capacity = v.capacity
  size_le : a.size ≤ a.capacity
  capacity_le : a.capacity ≤ maxArraySize
  rest (i : Nat) : a.size ≤ i → i < a.capacity → a.slots[i]? = some default

namespace Shows

variable {a : Growable α} {v : View α}

/-- The slots are the elements and then defaults. -/
theorem slots_eq (h : a.Shows v) :
    a.slots.toList = v.elements ++ List.replicate (v.capacity - v.elements.length) default := by
  have hrest : a.slots.toList.drop a.size
      = List.replicate (v.capacity - v.elements.length) default := by
    apply List.ext_getElem?
    intro i
    rw [List.getElem?_drop, Array.getElem?_toList, List.getElem?_replicate, ← h.size, ← h.capacity]
    by_cases hi : i < a.capacity - a.size
    · rw [if_pos hi, h.rest (a.size + i) (Nat.le_add_right _ _) (by omega)]
    · rw [if_neg hi, Array.getElem?_eq_none_iff]
      have : a.capacity = a.slots.size := rfl
      omega
  rw [← hrest, ← h.elements]
  exact (List.take_append_drop a.size a.slots.toList).symm

/-- Slots of that form show the view. -/
theorem of_slots (hs : a.slots.toList
      = v.elements ++ List.replicate (v.capacity - v.elements.length) default)
    (hsize : a.size = v.elements.length) (hle : v.elements.length ≤ v.capacity)
    (hmax : v.capacity ≤ maxArraySize) : a.Shows v := by
  have hcap : a.capacity = v.capacity := by
    have : a.slots.toList.length = a.slots.size := Array.length_toList
    rw [hs, List.length_append, List.length_replicate] at this
    show a.slots.size = _
    omega
  refine ⟨?_, hsize, hcap, by omega, by omega, ?_⟩
  · rw [toList, hs, hsize, List.take_left]
  · intro i hi hlt
    rw [← Array.getElem?_toList, hs, List.getElem?_append_right (by omega),
      List.getElem?_replicate_of_lt (by omega)]

theorem elements_le (h : a.Shows v) : v.elements.length ≤ v.capacity := by
  rw [← h.size, ← h.capacity]
  exact h.size_le

theorem le_max (h : a.Shows v) : v.capacity ≤ maxArraySize := h.capacity ▸ h.capacity_le

end Shows

/-! ## Requests -/

/-- What an array can be asked to do. -/
inductive Request (α : Type)
  | get (index : Int64)
  | set (index : Int64) (x : α)
  | push (x : α)
  | reserve (requested : UInt64)

/-- Changes an array in place. Whatever that leaves is the array from then on, also where it fails. -/
def act (a : Growable α) (change : InPlace (Growable α) IndexError Unit) :
    Growable α × Except IndexError (Option α) :=
  let (result, b) := change.on a
  (b, result.map fun _ => none)

/-- Serves one request: the array after it and the answer, an element where one was asked for. -/
def serve (a : Growable α) : Request α → Growable α × Except IndexError (Option α)
  | .get index => (a, (a.get index).map some)
  | .set index x => a.act (setInPlace index x)
  | .push x => a.act (pushInPlace x)
  | .reserve requested => a.act (reserveInPlace requested)

/-- Serves requests in order. -/
def serveAll (a : Growable α) : List (Request α) → Growable α × List (Except IndexError (Option α))
  | [] => (a, [])
  | r :: rest =>
      let (b, answer) := a.serve r
      let (b, answers) := b.serveAll rest
      (b, answer :: answers)

namespace View

/-- The capacity when `needed` elements need a place: half as much again, or what is needed, within
the limit; and as it is where there is room. -/
def room (capacity needed : Nat) : Nat :=
  if needed ≤ capacity then capacity
  else min (max needed (capacity + capacity / 2)) maxArraySize

/-- The list with defaults at its end, where it is shorter than `length`. -/
def padded (elements : List α) (length : Nat) : List α :=
  elements ++ List.replicate (length - elements.length) default

/-- The list with `x` at `place`, as long as that takes. -/
def write (v : View α) (place : Nat) (x : α) : View α :=
  ⟨(padded v.elements (place + 1)).set place x, room v.capacity (place + 1)⟩

/-- What a request means to a list with a capacity. -/
def serve (v : View α) : Request α → View α × Option (Option α)
  | .get index =>
      (v, if 0 ≤ index.toInt then v.elements[index.toInt.toNat]?.map some else none)
  | .set index x =>
      v.changed (0 ≤ index.toInt ∧ index.toInt < maxArraySize) (v.write index.toInt.toNat x)
  | .push x =>
      v.changed (v.elements.length < maxArraySize)
        ⟨v.elements ++ [x], room v.capacity (v.elements.length + 1)⟩
  | .reserve requested =>
      v.changed (requested.toNat ≤ maxArraySize) ⟨v.elements, room v.capacity requested.toNat⟩

def serveAll (v : View α) : List (Request α) → View α × List (Option (Option α))
  | [] => (v, [])
  | r :: rest =>
      let (u, answer) := v.serve r
      let (u, answers) := u.serveAll rest
      (u, answer :: answers)

example : ((⟨[1], 1⟩ : View Nat).serve (.set 2 7)).1 = ⟨[1, 0, 7], 3⟩ := rfl

theorem le_room {capacity : Nat} (needed : Nat) (h : capacity ≤ maxArraySize) :
    capacity ≤ room capacity needed := by
  unfold room
  split
  · exact Nat.le_refl _
  · omega

theorem needed_le_room (capacity : Nat) {needed : Nat} (h : needed ≤ maxArraySize) :
    needed ≤ room capacity needed := by
  unfold room
  split
  · assumption
  · omega

theorem room_le {capacity : Nat} (needed : Nat) (h : capacity ≤ maxArraySize) :
    room capacity needed ≤ maxArraySize := by
  unfold room
  split
  · exact h
  · exact Nat.min_le_right _ _

theorem capacity_le_serve {v : View α} (h : v.capacity ≤ maxArraySize) (r : Request α) :
    v.capacity ≤ (v.serve r).1.capacity := by
  cases r with
  | get index => exact Nat.le_refl _
  | set index x => exact capacity_le_changed _ (le_room _ h)
  | push x => exact capacity_le_changed _ (le_room _ h)
  | reserve requested => exact capacity_le_changed _ (le_room _ h)

theorem length_padded (elements : List α) (length : Nat) :
    (padded elements length).length = max elements.length length := by
  rw [padded, List.length_append, List.length_replicate]
  omega

end View

/-! ## Arrays keep to their views -/

section Serving

variable {a : Growable α} {v : View α}

theorem ofNat_capacity_toNat (h : a.Shows v) : (UInt64.ofNat a.capacity).toNat = v.capacity := by
  have := h.le_max
  have hmax : maxArraySize < UInt64.size := by decide
  rw [UInt64.toNat_ofNat_of_lt' (by rw [h.capacity]; omega), h.capacity]

/-- Room is refused where no array has it, and nowhere else. -/
theorem reserve_eq_error_iff (h : a.capacity ≤ maxArraySize) {requested : UInt64} {e : IndexError} :
    a.reserve requested = .error e ↔
      maxArraySize < requested.toNat ∧ e = .tooLarge (requested.toInt64 - 1) := by
  unfold reserve
  by_cases hroom : requested.toNat ≤ a.capacity
  · rw [if_pos hroom]
    simp
    omega
  rw [if_neg hroom]
  by_cases hlimit : maxArraySize < requested.toNat
  · rw [if_pos hlimit]
    simp [hlimit, eq_comm]
  · rw [if_neg hlimit]
    simp [hlimit]

/-- Making room adds defaults behind the defaults that are there. -/
theorem reserve_meets (h : a.Shows v) (requested : UInt64) :
    Meets
      (fun b => requested.toNat ≤ maxArraySize ∧
        b.Shows ⟨v.elements, View.room v.capacity requested.toNat⟩)
      (fun _ => maxArraySize < requested.toNat) (a.reserve requested) := by
  have hle := h.elements_le
  have hmax := h.le_max
  unfold reserve
  rw [h.capacity]
  by_cases hroom : requested.toNat ≤ v.capacity
  · rw [if_pos hroom]
    refine ⟨Nat.le_trans hroom hmax, ?_⟩
    rw [View.room, if_pos hroom]
    exact h
  · rw [if_neg hroom]
    by_cases hlimit : maxArraySize < requested.toNat
    · rw [if_pos hlimit]
      exact hlimit
    · rw [if_neg hlimit]
      have hgrown : (grownCapacity (.ofNat v.capacity) requested).toNat
          = View.room v.capacity requested.toNat := by
        rw [toNat_grownCapacity, View.room, if_neg hroom, ← h.capacity, ofNat_capacity_toNat h,
          h.capacity, Nat.max_comm]
      have hgrow := View.le_room requested.toNat hmax
      refine ⟨Nat.le_of_not_lt hlimit, .of_slots ?_ h.size (Nat.le_trans hle hgrow)
        (View.room_le _ hmax)⟩
      show (a.slots ++ Array.replicate _ default).toList = _
      have hsize : a.slots.size = v.capacity := h.capacity
      rw [Array.toList_append, Array.toList_replicate, h.slots_eq, List.append_assoc,
        List.replicate_append_replicate, hgrown, hsize]
      dsimp only
      congr 2
      omega

/-- A write uncovers the slots in front of it and fills one of them. -/
theorem write_shows (h : a.Shows v) {place : Nat} (x : α) (hp : place < v.capacity) :
    Shows ⟨a.slots.setIfInBounds place x, max a.size (place + 1)⟩
      ⟨(View.padded v.elements (place + 1)).set place x, v.capacity⟩ := by
  have hle := h.elements_le
  have hlen := View.length_padded v.elements (place + 1)
  -- the slots from the old end up to the written one count as elements now
  have hslots : a.slots.toList = View.padded v.elements (place + 1)
      ++ List.replicate (v.capacity - max v.elements.length (place + 1)) default := by
    rw [h.slots_eq, View.padded, List.append_assoc, List.replicate_append_replicate]
    congr 2
    omega
  refine .of_slots ?_ ?_ ?_ h.le_max
  · show (a.slots.setIfInBounds place x).toList = _
    rw [Array.toList_setIfInBounds, hslots, List.set_append_left place x (by omega),
      List.length_set, hlen]
  · show max a.size (place + 1) = _
    rw [List.length_set, hlen, h.size]
  · show ((View.padded v.elements (place + 1)).set place x).length ≤ v.capacity
    rw [List.length_set, hlen]
    omega

theorem set_meets (h : a.Shows v) (index : Int64) (x : α) :
    Meets
      (fun b => (0 ≤ index.toInt ∧ index.toInt < maxArraySize) ∧
        b.Shows (v.write index.toInt.toNat x))
      (fun _ => ¬ (0 ≤ index.toInt ∧ index.toInt < maxArraySize)) (a.set index x) := by
  unfold set
  rw [writeIndex_eq]
  by_cases hlarge : index.toInt > maxArraySize ∨ index.toInt < -2147483648
  · rw [if_pos hlarge]
    show ¬ _
    omega
  rw [if_neg hlarge]
  by_cases hneg : index.toInt < 0
  · rw [if_pos hneg]
    show ¬ _
    omega
  rw [if_neg hneg]
  generalize hplace : index.toInt.toNat = place
  have hword : (UInt64.ofNat (place + 1)).toNat = place + 1 := by
    have hmax : maxArraySize + 1 < UInt64.size := by decide
    exact UInt64.toNat_ofNat_of_lt' (by omega)
  -- the index that is as large as the greatest array is the one that making room turns down
  refine ((reserve_meets h (.ofNat (place + 1))).mono (fun _ hb => hb) fun _ he => ?_).bind
    fun roomy hroomy => ?_
  · rw [hword] at he
    show ¬ _
    omega
  · rw [hword] at hroomy
    have hin : 0 ≤ index.toInt ∧ index.toInt < maxArraySize := by omega
    exact ⟨hin, write_shows hroomy.2 x (View.needed_le_room v.capacity hroomy.1)⟩

/-- Adding an element is writing right behind the last one. -/
theorem push_meets (h : a.Shows v) (x : α) :
    Meets
      (fun b => v.elements.length < maxArraySize ∧
        b.Shows ⟨v.elements ++ [x], View.room v.capacity (v.elements.length + 1)⟩)
      (fun _ => ¬ v.elements.length < maxArraySize) (a.push x) := by
  have hle := h.elements_le
  have hmax := h.le_max
  have hlimit : maxArraySize < 2 ^ 63 := by decide
  have hindex : (Int64.ofNat a.size).toInt = v.elements.length := by
    rw [h.size]
    exact Int64.toInt_ofNat_of_lt (by omega)
  refine (set_meets h (.ofNat a.size) x).mono ?_ ?_
  · rintro b ⟨hin, hb⟩
    rw [hindex] at hin hb
    rw [Int.toNat_natCast, View.write, View.padded, Nat.add_sub_cancel_left,
      List.set_append_right _ _ (Nat.le_refl _), Nat.sub_self] at hb
    exact ⟨Int.ofNat_lt.mp hin.2, hb⟩
  · intro e he
    rw [hindex] at he
    omega

theorem get_eq (h : a.Shows v) (index : Int64) :
    ((a.get index).map some).toOption = (v.serve (.get index)).2 := by
  have hsize := h.size
  have hle := h.elements_le
  have hmax := h.le_max
  unfold get readIndex
  rw [writeIndex_eq, View.serve]
  by_cases hlarge : index.toInt > maxArraySize ∨ index.toInt < -2147483648
  · rw [if_pos hlarge]
    by_cases hneg : 0 ≤ index.toInt
    · rw [if_pos hneg, List.getElem?_eq_none (by omega)]
      rfl
    · rw [if_neg hneg]
      rfl
  rw [if_neg hlarge]
  by_cases hneg : index.toInt < 0
  · rw [if_pos hneg, if_neg (by omega)]
    rfl
  rw [if_neg hneg, if_pos (by omega)]
  generalize index.toInt.toNat = place
  by_cases hin : v.elements.length ≤ place
  · rw [List.getElem?_eq_none hin]
    simp [bind, Except.bind, hsize, hin, Except.map, Except.toOption]
  · have hslot : a.slots[place]? = v.elements[place]? := by
      rw [← Array.getElem?_toList, h.slots_eq, List.getElem?_append_left (by omega)]
    have hget : v.elements[place]? = some v.elements[place] := List.getElem?_eq_getElem (by omega)
    rw [hget] at hslot ⊢
    simp [bind, Except.bind, hsize, hin, Except.map, Except.toOption,
      Array.getD_eq_getD_getElem?, hslot]

/-- What comes of an attempt to change an array where one that fails leaves the array as it is. -/
def attempt (a : Growable α) (changed : Except IndexError (Growable α)) :
    Growable α × Except IndexError (Option α) :=
  match changed with
  | .ok b => (b, .ok none)
  | .error e => (a, .error e)

omit [Inhabited α] in
/-- A change that follows its definition leaves the array as it is where it fails. -/
theorem act_eq_attempt {change : InPlace (Growable α) IndexError Unit}
    {changed : Except IndexError (Growable α)} (h : InPlace.Follows (· = a) (change.on a) changed) :
    a.act change = a.attempt changed := by
  rw [act, h.eq_of_same]
  cases changed <;> rfl

theorem serve_set (index : Int64) (x : α) : a.serve (.set index x) = a.attempt (a.set index x) := by
  rw [serve, act_eq_attempt (setInPlace_follows a index x)]

theorem serve_push (x : α) : a.serve (.push x) = a.attempt (a.push x) := by
  rw [serve, act_eq_attempt (pushInPlace_follows a x)]

theorem serve_reserve (requested : UInt64) :
    a.serve (.reserve requested) = a.attempt (a.reserve requested) := by
  rw [serve, act_eq_attempt (reserveInPlace_follows a requested)]

/-- A request that fails has changed nothing. -/
theorem serve_of_error {r : Request α} {e : IndexError} (h : (a.serve r).2 = .error e) :
    (a.serve r).1 = a := by
  have hattempt : ∀ {changed}, (a.attempt changed).2 = .error e → (a.attempt changed).1 = a := by
    intro changed hc
    cases changed with
    | ok b => exact absurd hc (by simp [attempt])
    | error e => rfl
  cases r with
  | get index => rfl
  | set index x =>
    rw [serve_set] at h ⊢
    exact hattempt h
  | push x =>
    rw [serve_push] at h ⊢
    exact hattempt h
  | reserve requested =>
    rw [serve_reserve] at h ⊢
    exact hattempt h

theorem attempt_shows {changed : Except IndexError (Growable α)} {p : Prop} [Decidable p]
    {u : View α} (h : a.Shows v) (hm : Meets (fun b => p ∧ b.Shows u) (fun _ => ¬ p) changed) :
    (a.attempt changed).1.Shows (v.changed p u).1 ∧
      (a.attempt changed).2.toOption = (v.changed p u).2 := by
  unfold View.changed
  cases changed with
  | ok b =>
    rw [if_pos hm.1]
    exact ⟨hm.2, rfl⟩
  | error e =>
    rw [if_neg hm]
    exact ⟨h, rfl⟩

/-- One request: the answer is that of the view, and the array goes on showing it. -/
theorem serve_shows (h : a.Shows v) (r : Request α) :
    (a.serve r).1.Shows (v.serve r).1 ∧ (a.serve r).2.toOption = (v.serve r).2 := by
  cases r with
  | get index => exact ⟨h, get_eq h index⟩
  | set index x =>
    rw [serve_set]
    exact attempt_shows h (set_meets h index x)
  | push x =>
    rw [serve_push]
    exact attempt_shows h (push_meets h x)
  | reserve requested =>
    rw [serve_reserve]
    exact attempt_shows h ((reserve_meets h requested).mono (fun _ hb => hb)
      fun _ he => Nat.not_le.mpr he)

theorem serveAll_shows (h : a.Shows v) (requests : List (Request α)) :
    (a.serveAll requests).1.Shows (v.serveAll requests).1 ∧
      (a.serveAll requests).2.map Except.toOption = (v.serveAll requests).2 := by
  induction requests generalizing a v with
  | nil => exact ⟨h, rfl⟩
  | cons r rest ih =>
    obtain ⟨hnext, hanswer⟩ := serve_shows h r
    obtain ⟨hlast, hanswers⟩ := ih hnext
    refine ⟨hlast, ?_⟩
    rw [serveAll, View.serveAll, List.map_cons, hanswer, hanswers]

end Serving

/-! ## How arrays are made -/

/-- The ways to make an array. -/
inductive Origin (α : Type)
  | empty
  | ofLength (length : Int64)
  | ofArray (elements : Array α)

def Origin.make : Origin α → Except IndexError (Growable α)
  | .empty => .ok Growable.empty
  | .ofLength length => Growable.ofLength length
  | .ofArray elements => Growable.ofArray? elements

/-- The view of what is made, where something is. -/
def Origin.view? : Origin α → Option (View α)
  | .empty => some ⟨[], defaultArraySize⟩
  | .ofLength length =>
      if 0 ≤ length.toInt ∧ length.toInt ≤ maxArraySize then
        some ⟨List.replicate length.toInt.toNat default, length.toInt.toNat⟩
      else none
  | .ofArray elements =>
      if elements.size ≤ maxArraySize then some ⟨elements.toList, elements.size⟩ else none

theorem Origin.make_meets (origin : Origin α) :
    Meets (fun a => ∃ v, origin.view? = some v ∧ a.Shows v) (fun _ => origin.view? = none)
      origin.make := by
  cases origin with
  | empty =>
    have hlimit : defaultArraySize ≤ maxArraySize := by decide
    exact ⟨_, rfl, .of_slots Array.toList_replicate rfl (Nat.zero_le _) hlimit⟩
  | ofLength length =>
    unfold make view?
    dsimp only
    unfold Growable.ofLength
    rw [writeIndex_eq]
    by_cases hin : 0 ≤ length.toInt ∧ length.toInt ≤ maxArraySize
    · have hword : ¬ (length.toInt > maxArraySize ∨ length.toInt < -2147483648) := by omega
      rw [if_neg hword, if_neg (Int.not_lt.mpr hin.1), if_pos hin]
      refine ⟨_, rfl, .of_slots ?_ ?_ ?_ ?_⟩
      · simp
      · simp
      · simp
      · show length.toInt.toNat ≤ _
        omega
    · rw [if_neg hin]
      split
      · rfl
      · split
        · rfl
        · omega
  | ofArray elements =>
    unfold make view?
    dsimp only
    unfold Growable.ofArray?
    by_cases hin : elements.size ≤ maxArraySize
    · rw [if_neg (Nat.not_lt.mpr hin), if_pos hin]
      exact ⟨_, rfl, .of_slots (by simp) (by simp) (by simp) hin⟩
    · rw [if_pos (Nat.lt_of_not_le hin), if_neg hin]
      rfl

/-- **A growable array serves as a list.** However it is made, it is made exactly where its view is.
Whatever it is asked then, its answers are those that the view gives, failures among them, and it
shows the view after it: as many elements as its size tells, in the front slots of no more than the
greatest number of slots, and defaults behind them. No request takes room away. -/
theorem serves_list (origin : Origin α) (requests : List (Request α)) :
    Meets
      (fun a => ∃ v, origin.view? = some v ∧
        (a.serveAll requests).2.map Except.toOption = (v.serveAll requests).2 ∧
        (a.serveAll requests).1.Shows (v.serveAll requests).1 ∧
        ∀ r, (a.serveAll requests).1.capacity ≤ ((a.serveAll requests).1.serve r).1.capacity ∧
          ∀ e, ((a.serveAll requests).1.serve r).2 = .error e →
            ((a.serveAll requests).1.serve r).1 = (a.serveAll requests).1)
      (fun _ => origin.view? = none) origin.make := by
  refine origin.make_meets.mono ?_ fun _ he => he
  rintro a ⟨v, hv, hshows⟩
  obtain ⟨hlast, hanswers⟩ := serveAll_shows hshows requests
  refine ⟨v, hv, hanswers, hlast, fun r => ⟨?_, fun e he => ?_⟩⟩
  · rw [(serve_shows hlast r).1.capacity, hlast.capacity]
    exact View.capacity_le_serve hlast.le_max r
  · exact serve_of_error he

end Growable

end RegisterMachine
