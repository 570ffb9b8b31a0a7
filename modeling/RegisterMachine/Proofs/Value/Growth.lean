import Mathlib.Algebra.Group.Int.Defs
import Mathlib.Algebra.Group.Nat.Defs
import RegisterMachine.Proofs.Value.Growable

/-!
# How arrays grow

An array without room for what is asked of it gets half as much again, or what was asked for where that
is more, and never more than `maxArraySize`.

The first thing to say is that this is reckoned on words as it would be on numbers without a bound. One
number is not: an array that refuses to grow tells the last index that was asked for, and a signed word
cannot tell the greater half of those (`growth_reckoned`).

The second is what growing costs. An array that grows has all its slots carried over, and of any number
of requests the slots carried over in all are paid for by the capacity in the end, four times
(`growth_amortised`). While the limit is not reached they are paid for three times, rounding included,
since then each growth makes the capacity half as great again. The growth that reaches the limit can gain
next to nothing, which is the fourth time; there is none after it (`Paid.room`).
-/

namespace RegisterMachine

/-! ## Reckoning on words -/

theorem toInt_toInt64 (w : UInt64) : w.toInt64.toInt = Int.bmod w.toNat (2 ^ 64) :=
  BitVec.toInt_eq_toNat_bmod w.toBitVec

theorem grownCapacity_mono {current current' requested requested' : UInt64} (hc : current ≤ current')
    (hr : requested ≤ requested') :
    grownCapacity current requested ≤ grownCapacity current' requested' := by
  rw [UInt64.le_iff_toNat_le] at hc hr ⊢
  rw [toNat_grownCapacity, toNat_grownCapacity]
  omega

theorem le_grownCapacity (current : UInt64) {requested : UInt64} (h : requested.toNat ≤ maxArraySize) :
    requested ≤ grownCapacity current requested := by
  rw [UInt64.le_iff_toNat_le, toNat_grownCapacity]
  omega

namespace Growable

variable {α : Type} [Inhabited α] {a : Growable α} {v : View α}

/-- The index is the last of those asked for, and taking one away from the signed word for their number
does not go below all signed words. -/
def TellsLast (requested : UInt64) (index : Int64) : Prop :=
  index.toInt = requested.toNat - 1 ∧ Int64.minValue.toInt ≤ requested.toInt64.toInt - 1

theorem toInt_last (requested : UInt64) :
    (requested.toInt64 - 1).toInt = Int.bmod (requested.toNat - 1) (2 ^ 64) := by
  rw [Int64.toInt_sub, toInt_toInt64]
  exact Int.bmod_sub_bmod

theorem tellsLast_iff {requested : UInt64} (h : 0 < requested.toNat) :
    TellsLast requested (requested.toInt64 - 1) ↔ requested.toNat < 2 ^ 63 := by
  have hsize := requested.toNat_lt
  have hmin : Int64.minValue.toInt = -2 ^ 63 := rfl
  rw [TellsLast, toInt_last, toInt_toInt64, hmin, Int.bmod_def, Int.bmod_def]
  omega

/-- **Growing is reckoned as it would be without a bound, and so is all but the index of a refusal.** The
new capacity is the one that numbers give, grows with what it is made of, and suffices wherever an array
can be that large. An array refuses just what no array can hold. The index it then tells is the last one
asked for, as far as a signed word goes; that is right, and found without leaving the signed words, just
where fewer than half of all words are asked for. -/
theorem growth_reckoned (h : a.capacity ≤ maxArraySize) :
    (∀ current requested,
      (grownCapacity current requested).toNat
        = min (max requested.toNat (current.toNat + current.toNat / 2)) maxArraySize ∧
      (requested.toNat ≤ maxArraySize → requested ≤ grownCapacity current requested) ∧
      ∀ current' requested', current ≤ current' → requested ≤ requested' →
        grownCapacity current requested ≤ grownCapacity current' requested') ∧
    ∀ requested,
      ((∃ e, a.reserve requested = .error e) ↔ maxArraySize < requested.toNat) ∧
      ∀ e, a.reserve requested = .error e → ∃ index, e = .tooLarge index ∧
        index.toInt = Int.bmod (requested.toNat - 1) (2 ^ 64) ∧
        (TellsLast requested index ↔ requested.toNat < 2 ^ 63) := by
  refine ⟨fun current requested => ⟨?_, le_grownCapacity current, ?_⟩, fun requested => ⟨?_, ?_⟩⟩
  · rw [toNat_grownCapacity, Nat.max_comm]
  · intro current' requested' hcurrent hrequested
    exact grownCapacity_mono hcurrent hrequested
  · simp [reserve_eq_error_iff h]
  · intro e he
    obtain ⟨hlimit, rfl⟩ := (reserve_eq_error_iff h).mp he
    exact ⟨_, rfl, toInt_last requested, tellsLast_iff (Nat.zero_lt_of_lt hlimit)⟩

/-- Asked for the greatest number that a signed word can tell, an array without slots refuses and tells the
index before it. -/
theorem slotless_refuses :
    (⟨#[], 0⟩ : Growable Nat).capacity ≤ maxArraySize ∧
      (⟨#[], 0⟩ : Growable Nat).reserve 9223372036854775807 = .error (.tooLarge 9223372036854775806) := by
  have hcapacity : (⟨#[], 0⟩ : Growable Nat).capacity ≤ maxArraySize := Nat.zero_le _
  refine ⟨hcapacity, ?_⟩
  obtain ⟨hrefuses, htells⟩ := (growth_reckoned hcapacity).2 9223372036854775807
  obtain ⟨e, he⟩ := hrefuses.mpr (by decide)
  obtain ⟨index, rfl, hindex, -⟩ := htells e he
  have hlast : index = 9223372036854775806 := Int64.toInt_inj.mp (hindex.trans (by decide))
  rw [he, hlast]

/-- Asked for one more than half of all words, it tells the least index there is. Asked for just half of
them, it tells the right index, and has gone below the least one on the way. -/
theorem slotless_mistells :
    (⟨#[], 0⟩ : Growable Nat).reserve 9223372036854775809 = .error (.tooLarge Int64.minValue) ∧
      ¬ TellsLast 9223372036854775809 Int64.minValue ∧
      (⟨#[], 0⟩ : Growable Nat).reserve 9223372036854775808 = .error (.tooLarge Int64.maxValue) ∧
      ¬ TellsLast 9223372036854775808 Int64.maxValue := by
  refine ⟨rfl, ?_, rfl, ?_⟩
  all_goals
    unfold TellsLast
    decide

/-! ## What growing costs -/

/-- The slots that a request makes an array carry over: all it has, where it has to grow. That can be told
by its capacity, since it never grows to what it has already. -/
def carriedOver (a : Growable α) (r : Request α) : Nat :=
  if a.capacity < (a.serve r).1.capacity then a.capacity else 0

/-- The slots carried over by requests that are served in order. -/
def carriedInAll (a : Growable α) : List (Request α) → Nat
  | [] => 0
  | r :: rest => a.carriedOver r + (a.serve r).1.carriedInAll rest

namespace View

/-- Room that is made is half as much again, unless the limit cuts it off. -/
theorem half_again_le_room {capacity needed : Nat} (h : capacity < needed)
    (hlimit : room capacity needed < maxArraySize) :
    capacity < room capacity needed ∧ capacity + capacity / 2 ≤ room capacity needed := by
  unfold room at hlimit ⊢
  rw [if_neg (Nat.not_le.mpr h)] at hlimit ⊢
  omega

theorem room_of_le {capacity needed : Nat} (h : needed ≤ capacity) : room capacity needed = capacity :=
  if_pos h

/-- What a request comes to for the capacity: room for some number of elements, none if it fails. -/
theorem exists_room (v : View α) (r : Request α) :
    ∃ needed, (v.serve r).1.capacity = room v.capacity needed := by
  have hchanged : ∀ (p : Prop) [Decidable p] (u : View α) (needed : Nat),
      u.capacity = room v.capacity needed → ∃ needed, (v.changed p u).1.capacity = room v.capacity needed := by
    intro p _ u needed hu
    unfold changed
    split
    · exact ⟨needed, hu⟩
    · exact ⟨0, (room_of_le (Nat.zero_le _)).symm⟩
  cases r with
  | get index => exact ⟨0, (room_of_le (Nat.zero_le _)).symm⟩
  | set index x => exact hchanged _ _ _ rfl
  | push x => exact hchanged _ _ _ rfl
  | reserve requested => exact hchanged _ _ _ rfl

end View

theorem Shows.exists_room (h : a.Shows v) (r : Request α) :
    ∃ needed, (a.serve r).1.capacity = View.room a.capacity needed := by
  rw [(serve_shows h r).1.capacity, h.capacity]
  exact v.exists_room r

/-- What has been carried over is paid for by the capacity that has come of it. -/
structure Paid (carried capacity : Nat) : Prop where
  growing : capacity < maxArraySize → carried ≤ 3 * capacity
  always : carried ≤ 4 * capacity

/-- Making room pays for itself: either three times, by half of what is carried over, or with the limit
reached. -/
theorem Paid.room {carried capacity : Nat} (h : Paid carried capacity) (needed : Nat)
    (hgrows : capacity < View.room capacity needed) (hmax : View.room capacity needed ≤ maxArraySize) :
    Paid (carried + capacity) (View.room capacity needed) := by
  have hbefore : carried ≤ 3 * capacity := h.growing (Nat.lt_of_lt_of_le hgrows hmax)
  have hneeded : capacity < needed := by
    by_contra hroom
    rw [View.room_of_le (Nat.le_of_not_lt hroom)] at hgrows
    exact Nat.lt_irrefl _ hgrows
  constructor
  · intro hlimit
    obtain ⟨hmore, hhalf⟩ := View.half_again_le_room hneeded hlimit
    omega
  · omega

theorem Paid.serve {carried : Nat} (hp : Paid carried a.capacity) (h : a.Shows v) (r : Request α) :
    Paid (carried + a.carriedOver r) (a.serve r).1.capacity := by
  obtain ⟨needed, hroom⟩ := h.exists_room r
  have hmax : (a.serve r).1.capacity ≤ maxArraySize := (serve_shows h r).1.capacity_le
  have hle : a.capacity ≤ (a.serve r).1.capacity := by
    rw [hroom]
    exact View.le_room needed h.capacity_le
  unfold carriedOver
  by_cases hgrows : a.capacity < (a.serve r).1.capacity
  · rw [if_pos hgrows, hroom]
    rw [hroom] at hgrows hmax
    exact hp.room needed hgrows hmax
  · rw [if_neg hgrows, Nat.le_antisymm (Nat.le_of_not_lt hgrows) hle]
    exact hp

theorem Paid.serveAll {carried : Nat} (hp : Paid carried a.capacity) (h : a.Shows v)
    (requests : List (Request α)) :
    Paid (carried + a.carriedInAll requests) (a.serveAll requests).1.capacity := by
  induction requests generalizing a v carried with
  | nil => exact hp
  | cons r rest ih =>
    have hrest := ih (hp.serve h r) (serve_shows h r).1
    rw [Nat.add_assoc] at hrest
    exact hrest

/-- The capacity is no more than there has been, or half as much again as there is in use. -/
def Snug (before : Nat) (a : Growable α) : Prop := a.capacity ≤ max before (a.size + a.size / 2)

/-- An array that grows for one more element was full. -/
theorem Snug.push {before : Nat} (hs : Snug before a) (h : a.Shows v) (x : α) :
    Snug before (a.serve (.push x)).1 := by
  have hle := h.elements_le
  have hafter : (a.serve (.push x)).1.Shows (v.changed (v.elements.length < maxArraySize)
      ⟨v.elements ++ [x], View.room v.capacity (v.elements.length + 1)⟩).1 := (serve_shows h (.push x)).1
  unfold Snug at hs ⊢
  rw [h.capacity, h.size] at hs
  rw [hafter.capacity, hafter.size]
  by_cases hfull : v.elements.length < maxArraySize
  · simp only [View.changed, if_pos hfull, List.length_append, List.length_singleton, View.room]
    split <;> omega
  · simp only [View.changed, if_neg hfull]
    exact hs

theorem Snug.serveAll {before : Nat} (hs : Snug before a) (h : a.Shows v) (xs : List α) :
    Snug before (a.serveAll (xs.map .push)).1 := by
  induction xs generalizing a v with
  | nil => exact hs
  | cons x rest ih => exact ih (hs.push h x) (serve_shows h (.push x)).1

/-- **Growth is amortised.** Whatever an array is asked, the slots that it carries over in all are at most
four times those that it has in the end. If it is only added to, it has no more in the end than it had
at first, or half as much again as it uses. -/
theorem growth_amortised (h : a.Shows v) :
    (∀ requests, a.carriedInAll requests ≤ 4 * (a.serveAll requests).1.capacity) ∧
      ∀ xs : List α, (a.serveAll (xs.map .push)).1.capacity
        ≤ max a.capacity ((a.serveAll (xs.map .push)).1.size + (a.serveAll (xs.map .push)).1.size / 2) := by
  constructor
  · intro requests
    have hnothing : Paid 0 a.capacity := ⟨fun _ => Nat.zero_le _, Nat.zero_le _⟩
    have hpaid := (hnothing.serveAll h requests).always
    rwa [Nat.zero_add] at hpaid
  · intro xs
    have hsnug : Snug a.capacity a := Nat.le_max_left _ _
    exact hsnug.serveAll h xs

/-- An array without slots that five elements are added to goes through the capacities 1, 2, 3, 4 and 6. -/
theorem slotless_amortised :
    let a : Growable Nat := ⟨#[], 0⟩
    let b := (a.serveAll ([3, 1, 4, 1, 5].map .push)).1
    a.Shows ⟨[], 0⟩ ∧ a.carriedInAll ([3, 1, 4, 1, 5].map .push) = 1 + 2 + 3 + 4 ∧ b.size = 5 ∧ b.capacity = 6 ∧
      1 + 2 + 3 + 4 ≤ 4 * 6 ∧ 6 ≤ max a.capacity (5 + 5 / 2) := by
  intro a b
  have hshows : a.Shows ⟨[], 0⟩ := .of_slots rfl rfl (Nat.le_refl _) (Nat.zero_le _)
  have hcarried : a.carriedInAll ([3, 1, 4, 1, 5].map .push) = 1 + 2 + 3 + 4 := by decide +kernel
  have hsize : b.size = 5 := by decide +kernel
  have hcapacity : b.capacity = 6 := by decide +kernel
  obtain ⟨hpaid, hsnug⟩ := growth_amortised hshows
  refine ⟨hshows, hcarried, hsize, hcapacity, ?_, ?_⟩
  · rw [← hcarried, ← hcapacity]
    exact hpaid _
  · rw [← hcapacity, ← hsize]
    exact hsnug _

end Growable

end RegisterMachine
