import Mathlib.Algebra.Group.Int.Defs
import Mathlib.Algebra.Group.Nat.Defs
import RegisterMachine.Proofs.Machine.Reach
import RegisterMachine.Proofs.Value.Traversal

/-!
# How many elements there are

An iterator may be asked for ever. `Iterator.Delivers` says what comes of it while nothing is written to its
collection: so many elements in their order, and then that they are exhausted, each time anew. It is enough to
say what an iterator looks like after `k` elements (`Iterator.Delivers.of_stages`). For arrays and maps that
has been said (`Iterator.Stands`). For a range it is `Iterator.Counts`: the integer that is next is `k` beyond
the first, and where there is none after the greatest integer, all have been delivered.

**`Frame.iterates_exactly`** puts this beside the lengths that programs are told. A range can be longer than the
greatest integer, and is the only thing that is told to be shorter than it is.
-/

namespace RegisterMachine

/-! ## Asking on and on -/

namespace Iterator

section

variable (h : Heap) (isHeld : Ref → Bool)

/-- The iterator after it has been asked for some elements. One that has had none to give is as it was. -/
def after (it : Iterator) : List Arity → Iterator
  | [] => it
  | arity :: asked =>
      match it.next h isHeld arity with
      | .ok (_, it) => it.after asked
      | .error _ => it.after asked

/-- However the iterator is asked, it gives `n` elements one after the other, and nothing else. The `k`-th of
them, counted from 0, and what goes with it are `item k`. -/
structure Delivers (it : Iterator) (n : Nat) (item : Nat → Value × Value) : Prop where
  hasNext (asked : List Arity) :
    (it.after h isHeld asked).hasNext isHeld = decide (asked.length < n)
  next (asked : List Arity) (arity : Arity) : asked.length < n →
    ∃ it', (it.after h isHeld asked).next h isHeld arity =
      .ok (arity.pack (item asked.length).1 (item asked.length).2, it')
  exhausted (asked : List Arity) (arity : Arity) : n ≤ asked.length →
    (it.after h isHeld asked).next h isHeld arity = .error .exhausted

end

variable {h : Heap} {isHeld : Ref → Bool} {it : Iterator} {n : Nat} {item : Nat → Value × Value}

/-- There is a next element just if it is given when it is asked for. -/
theorem Delivers.hasNext_eq_isOk (hd : it.Delivers h isHeld n item) (asked : List Arity)
    (arity : Arity) :
    (it.after h isHeld asked).hasNext isHeld =
      ((it.after h isHeld asked).next h isHeld arity).isOk := by
  rw [hd.hasNext]
  by_cases hlt : asked.length < n
  · obtain ⟨it', hnext⟩ := hd.next asked arity hlt
    rw [hnext, decide_eq_true hlt]
    rfl
  · rw [hd.exhausted asked arity (Nat.le_of_not_lt hlt), decide_eq_false hlt]
    rfl

/-- An iterator is known by what it looks like after `k` elements. -/
theorem Delivers.of_stages {S : Nat → Iterator → Prop} (hstart : S 0 it)
    (hstep : ∀ k it, S k it → k < n → it.hasNext isHeld = true ∧
      ∃ it', S (k + 1) it' ∧
        ∀ arity, it.next h isHeld arity = .ok (arity.pack (item k).1 (item k).2, it'))
    (hend : ∀ k it, S k it → n ≤ k → it.hasNext isHeld = false ∧
      ∀ arity, it.next h isHeld arity = .error .exhausted) :
    it.Delivers h isHeld n item := by
  have hafter : ∀ (asked : List Arity) (k : Nat) (it : Iterator), S k it → k ≤ n →
      S (min (k + asked.length) n) (it.after h isHeld asked) := by
    intro asked
    induction asked with
    | nil =>
      intro k it hit hk
      rw [List.length_nil, Nat.add_zero, Nat.min_eq_left hk]
      exact hit
    | cons arity asked ih =>
      intro k it hit hk
      rw [after, List.length_cons]
      rcases Nat.lt_or_eq_of_le hk with hlt | rfl
      · obtain ⟨-, it', hit', hnext⟩ := hstep k it hit hlt
        rw [hnext arity, ← Nat.add_assoc, Nat.add_right_comm]
        exact ih (k + 1) it' hit' hlt
      · -- past the end it stays where it is
        rw [(hend k it hit (Nat.le_refl k)).2 arity]
        have hgo := ih k it hit (Nat.le_refl k)
        rw [Nat.min_eq_right (Nat.le_add_right k _)] at hgo ⊢
        exact hgo
  have hstage : ∀ asked : List Arity, S (min asked.length n) (it.after h isHeld asked) := by
    intro asked
    have hgo := hafter asked 0 it hstart (Nat.zero_le n)
    rwa [Nat.zero_add] at hgo
  refine ⟨fun asked => ?_, fun asked arity hlt => ?_, fun asked arity hle => ?_⟩
  · have hit := hstage asked
    by_cases hlt : asked.length < n
    · rw [Nat.min_eq_left (Nat.le_of_lt hlt)] at hit
      rw [(hstep _ _ hit hlt).1, decide_eq_true hlt]
    · rw [Nat.min_eq_right (Nat.le_of_not_lt hlt)] at hit
      rw [(hend _ _ hit (Nat.le_refl n)).1, decide_eq_false hlt]
  · have hit := hstage asked
    rw [Nat.min_eq_left (Nat.le_of_lt hlt)] at hit
    obtain ⟨-, it', -, hnext⟩ := hstep _ _ hit hlt
    exact ⟨it', hnext arity⟩
  · have hit := hstage asked
    rw [Nat.min_eq_right hle] at hit
    exact (hend _ _ hit (Nat.le_refl n)).2 arity

end Iterator

/-! ## Ranges -/

namespace IntRange

/-- The `k`-th integer of a range, and the number that goes with it. -/
def item (r : IntRange) (k : Nat) : Value × Value :=
  (.int (.ofNat k), .int (.ofInt (r.first.toInt + k)))

theorem lt_length_iff (r : IntRange) (k : Nat) :
    k < r.length ↔ r.first.toInt + k ≤ r.last.toInt := by
  unfold length
  omega

/-- The integers of a range are what they are counted as. -/
theorem toInt_ofInt_of_lt {r : IntRange} {k : Nat} (hk : k < r.length) :
    (Int64.ofInt (r.first.toInt + k)).toInt = r.first.toInt + k := by
  have hlast := (r.lt_length_iff k).mp hk
  have hlow := r.first.le_toInt
  have hhigh := r.last.toInt_lt
  exact Int64.toInt_ofInt_of_le (by omega) (by omega)

end IntRange

namespace Iterator

variable {h : Heap} {isHeld : Ref → Bool} {it : Iterator} {r : IntRange} {k : Nat}

/-- The iterator goes through a range and has delivered `k` integers. There is none beyond the greatest, and by
then it has delivered them all. -/
inductive Counts (r : IntRange) (k : Nat) : Iterator → Prop
  | next {current : Int64} (hcurrent : current.toInt = r.first.toInt + k) :
      Counts r k (.range r (.ofNat k) (some current))
  | past (hk : r.length ≤ k) : Counts r k (.range r (.ofNat k) none)

namespace Counts

/-- An integer that is next lies within the range while there are some left. -/
theorem current_mem {current : Int64} (hcurrent : current.toInt = r.first.toInt + k) :
    (r.first ≤ current ∧ current ≤ r.last) ↔ k < r.length := by
  rw [Int64.le_iff_toInt_le, Int64.le_iff_toInt_le, hcurrent, r.lt_length_iff]
  omega

/-- One integer further. After the greatest there is no next one, and none was left in the range. -/
theorem moved {current : Int64} (hcurrent : current.toInt = r.first.toInt + k) :
    Counts r (k + 1)
      (.range r (.ofNat k + 1) (if current < Int64.maxValue then some (current + 1) else none)) := by
  rw [show Int64.ofNat k + 1 = .ofNat (k + 1) from (Int64.ofNat_add k 1).symm]
  split
  · rename_i hmax
    rw [Int64.lt_iff_toInt_lt, Int64.toInt_maxValue] at hmax
    have hlow := current.le_toInt
    have hadd : current + 1 = .ofInt (current.toInt + 1) := by
      rw [Int64.ofInt_add, Int64.ofInt_toInt]
      rfl
    refine .next ?_
    rw [hadd, Int64.toInt_ofInt_of_le (by omega) (by omega), hcurrent]
    push_cast
    omega
  · rename_i hmax
    rw [Int64.lt_iff_toInt_lt, Int64.toInt_maxValue] at hmax
    have hlast := r.last.toInt_lt
    refine .past (Nat.le_of_not_lt fun hlt => ?_)
    have hbeyond := (r.lt_length_iff (k + 1)).mp hlt
    push_cast at hbeyond
    omega

theorem step (hit : Counts r k it) (hk : k < r.length) :
    it.hasNext isHeld = true ∧ ∃ it', Counts r (k + 1) it' ∧
      ∀ arity, it.next h isHeld arity = .ok (arity.pack (r.item k).1 (r.item k).2, it') := by
  cases hit with
  | past hpast => exact absurd hk (Nat.not_lt.mpr hpast)
  | @next current hcurrent =>
    have hmem := (current_mem hcurrent).mpr hk
    refine ⟨?_, _, moved hcurrent, fun arity => ?_⟩
    · rw [hasNext, ← Bool.decide_and, decide_eq_true hmem]
    · rw [Iterator.next, if_pos hmem, IntRange.item, ← hcurrent, Int64.ofInt_toInt]

theorem done (hit : Counts r k it) (hk : r.length ≤ k) :
    it.hasNext isHeld = false ∧ ∀ arity, it.next h isHeld arity = .error .exhausted := by
  cases hit with
  | past => exact ⟨rfl, fun _ => rfl⟩
  | next hcurrent =>
    have hmem := mt (current_mem hcurrent).mp (Nat.not_lt.mpr hk)
    refine ⟨?_, fun arity => if_neg hmem⟩
    rw [hasNext, ← Bool.decide_and, decide_eq_false hmem]

end Counts

/-- **A range is gone through from its first integer to its last**, also where that is the greatest. -/
theorem range_delivers (h : Heap) (isHeld : Ref → Bool) (r : IntRange) :
    (range r 0 (some r.first)).Delivers h isHeld r.length r.item :=
  .of_stages (S := Counts r) (.next (Int.add_zero _).symm) (fun _ _ hit => hit.step)
    fun _ _ hit => hit.done

/-! ## Arrays and maps -/

/-- A collection that is held and not written to is gone through as it is. -/
theorem collection_delivers {source : Ref} {o : Object} (hget : h.get? source = some o) (hs : o.Sound)
    (hit : over? h (.collection source) = some it) (hheld : isHeld source = true) :
    it.Delivers h isHeld o.count fun k => (o.visit o k).getD (.null, .null) := by
  obtain ⟨hstart, hext⟩ := Stands.of_over? hget hit
  refine .of_stages (S := fun k it => Stands source k o it) hstart (fun k it hit hk => ?_)
    fun k it hit hk => ⟨?_, hit.next_of_count_le hk⟩
  · obtain ⟨position, element, it', hvisit, hit', hnext⟩ :=
      hit.next_of_lt hext hs hget hheld hk
    refine ⟨?_, it', hit', fun arity => ?_⟩
    · rw [hit.hasNext_eq, hheld, decide_eq_true hk]
      rfl
    · rw [hnext arity, hvisit]
      rfl
  · rw [hit.hasNext_eq, decide_eq_false (Nat.not_lt.mpr hk)]
    rfl

end Iterator

/-! ## What a register refers to -/

/-- What a register refers to is held. -/
theorem World.isHeld_of_get {world : World} {f : Frame} {below : CallStack} {src : RefReg} {v : Value}
    (hget : f.get src = .ok v) {r : Ref} (hr : v.ref? = some r) :
    world.isHeld (f :: below) r = true := by
  have hslot : f.regs.refs[src.index.toNat]? = some v := (f.get_meets src).of_ok hget
  have hmem : v ∈ f.regs.refs.toList := by
    rw [← Array.getElem?_toList] at hslot
    exact List.mem_of_getElem? hslot
  have hheld : r ∈ f.regs.held := List.mem_filterMap.mpr ⟨v, hmem, hr⟩
  have hroot : r ∈ world.roots (f :: below) := by
    rw [World.roots, CallStack.held, List.flatMap_cons]
    simp [hheld]
  rw [World.isHeld, Heap.isHeld, List.contains_iff_mem.mpr hroot, Bool.true_or]

/-- The length that programs are told is the number of elements, or the greatest integer if a range has
more. -/
def Value.CountedAs (v : Value) (length : Int64) (n : Nat) : Prop :=
  match v with
  | .range _ => length.toInt = min (n : Int) (2 ^ 63 - 1)
  | _ => length.toInt = n

namespace Heap

variable {h : Heap}

/-- No map has more entries than can be counted: there is no memory for them. -/
def Addressable (h : Heap) : Prop := ∀ r entries, h.get? r = some (.map entries) → entries.length < 2 ^ 63

/-- How many elements there are to go through. -/
def extent (h : Heap) (v : Value) : Nat :=
  match v with
  | .range r => r.length
  | .collection r => ((h.get? r).map Object.count).getD 0
  | _ => 0

theorem range_counted (r : IntRange) :
    (Value.range r).CountedAs (.ofNat (min r.length Int64.maxValue.toInt.toNat)) r.length := by
  have hmax : Int64.maxValue.toInt.toNat = 2 ^ 63 - 1 := by decide
  show (Int64.ofNat _).toInt = _
  rw [hmax, Int64.toInt_ofNat_of_lt (by omega)]
  omega

/-- Whatever can be iterated over has an iterator, and a length that says how much this delivers. -/
theorem exists_iteration (hs : h.Sound) (hm : h.Addressable) {v : Value} (hv : h.isIterable v = true) :
    ∃ it item length, Iterator.over? h v = some it ∧
      (∀ isHeld : Ref → Bool, (∀ r, v.ref? = some r → isHeld r = true) →
        it.Delivers h isHeld (h.extent v) item) ∧
      h.lengthOf v = .ok length ∧ v.CountedAs length (h.extent v) := by
  cases v with
  | range r =>
    exact ⟨_, _, _, rfl, fun isHeld _ => Iterator.range_delivers h isHeld r, rfl, range_counted r⟩
  | collection r =>
    cases hget : h.get? r with
    | none =>
      rw [isIterable, hget] at hv
      cases hv
    | some o =>
      have hsound := hs r o hget
      have hobject : h.object? (.collection r) = some (r, o) := by
        rw [object?, hget]
        rfl
      have hextent : h.extent (.collection r) = o.count := by
        rw [extent, hget]
        rfl
      rw [hextent]
      cases o with
      | record typeName fields =>
        rw [isIterable, hget] at hv
        cases hv
      | array a =>
        have hit : Iterator.over? h (.collection r) = some (.array r 0 a.size) := by
          rw [Iterator.over?, hget]
        have hsize := ArrayObject.Sound.size_le hsound
        have hmax : maxArraySize < 2 ^ 63 := by decide
        refine ⟨_, _, .ofNat a.size, hit, fun isHeld hheld =>
          Iterator.collection_delivers hget hsound hit (hheld r rfl), ?_,
          Int64.toInt_ofNat_of_lt (by omega)⟩
        simp only [lengthOf, hobject]
      | map entries =>
        have hit : Iterator.over? h (.collection r) = some (.map r entries.keys) := by
          rw [Iterator.over?, hget]
        refine ⟨_, _, .ofNat entries.length, hit, fun isHeld hheld =>
          Iterator.collection_delivers hget hsound hit (hheld r rfl), ?_,
          Int64.toInt_ofNat_of_lt (hm r entries hget)⟩
        simp only [lengthOf, hobject]
  | _ => cases hv

end Heap

namespace Frame

/-- **Lengths agree with iteration.** A fresh iterator over a range delivers its integers from the first to the
last, each with its number as long as that is an integer, and then it is exhausted for ever. And whatever in
a register can be iterated over, the length that a program is told is the number of elements that a fresh
iterator delivers while the register refers to it and nothing is written, cut off for ranges at the greatest
integer. -/
theorem iterates_exactly :
    (∀ (h : Heap) (isHeld : Ref → Bool) (r : IntRange), ∃ it, Iterator.over? h (.range r) = some it ∧
      it.Delivers h isHeld r.length r.item ∧
      (∀ asked arity, (it.after h isHeld asked).hasNext isHeld =
        ((it.after h isHeld asked).next h isHeld arity).isOk) ∧
      ∀ k, (k < r.length ↔ r.first.toInt + k ≤ r.last.toInt) ∧
        (k < r.length → (Int64.ofInt (r.first.toInt + k)).toInt = r.first.toInt + k) ∧
        (k < 2 ^ 63 → (Int64.ofNat k).toInt = k)) ∧
    ∀ (p : Program) (isHeld : Ref → Bool) (h : Heap) (f : Frame) (src : RefReg) (v : Value),
      h.Sound → h.Addressable → f.get src = .ok v → h.isIterable v = true →
      ∃ it item length,
        (∀ iter, f.exec p isHeld h (.iterNew src iter) = (f.set iter (some it)).map (h, ·)) ∧
        (∀ (world : World) (g : Frame) (below : CallStack), g.get src = .ok v →
          it.Delivers h (world.isHeld (g :: below)) (h.extent v) item) ∧
        (∀ dst, f.exec p isHeld h (.length src dst) = (f.set dst length).map (h, ·)) ∧
        v.CountedAs length (h.extent v) := by
  refine ⟨fun h isHeld r => ⟨_, rfl, Iterator.range_delivers h isHeld r,
    (Iterator.range_delivers h isHeld r).hasNext_eq_isOk, fun k => ⟨r.lt_length_iff k, ?_, ?_⟩⟩, ?_⟩
  · exact IntRange.toInt_ofInt_of_lt
  · exact Int64.toInt_ofNat_of_lt
  intro p isHeld h f src v hs hm hget hv
  obtain ⟨it, item, length, hit, hdelivers, hlength, hcounted⟩ := Heap.exists_iteration hs hm hv
  have hnull : v.isNull = false := by
    cases v with
    | null => cases hv
    | _ => rfl
  refine ⟨it, item, length, fun iter => ?_, fun world g below hg => ?_, fun dst => ?_, hcounted⟩
  · simp only [exec, hget]
    dsimp only [Bind.bind, Except.bind]
    rw [hnull, if_neg Bool.false_ne_true, hit]
  · exact hdelivers _ fun r hr => World.isHeld_of_get hg hr
  · simp only [exec, hget]
    dsimp only [Bind.bind, Except.bind]
    rw [hlength]

/-- The last two integers there are: an iterator delivers them and no more, and a program that asks for the
length is told that there are two. -/
theorem last_two_iterated :
    let r : IntRange := ⟨Int64.maxValue - 1, Int64.maxValue⟩
    let f : Frame :=
      { Frame.start ⟨0⟩ ⟨defaultWorkerName, 0, {}⟩ with
        regs := { Registers.ofShape {} with refs := #[.range r] } }
    (∃ it, Iterator.over? .empty (.range r) = some it ∧
      (it.after .empty (fun _ => true) [.one]).hasNext (fun _ => true) = true ∧
      ∀ arity, (it.after .empty (fun _ => true) [.one, .two]).next .empty (fun _ => true) arity =
        .error .exhausted) ∧
    ∃ length, (∀ dst, f.exec .doubling (fun _ => true) .empty (.length ⟨0⟩ dst) =
      (f.set dst length).map (Heap.empty, ·)) ∧ length.toInt = 2 := by
  intro r f
  obtain ⟨hranges, hlengths⟩ := iterates_exactly
  have hsound : Heap.empty.Sound := fun s o hs => nomatch (show none = some o from hs)
  have hmaps : Heap.empty.Addressable := fun s entries hs => nomatch (show none = some _ from hs)
  obtain ⟨it, hit, hdelivers, -, -⟩ := hranges .empty (fun _ => true) r
  obtain ⟨-, -, length, -, -, hlength, hcounted⟩ :=
    hlengths .doubling (fun _ => true) .empty f ⟨0⟩ (.range r) hsound hmaps rfl rfl
  refine ⟨⟨it, hit, ?_, fun arity => hdelivers.exhausted [.one, .two] arity (by decide)⟩,
    length, hlength, ?_⟩
  · rw [hdelivers.hasNext]
    decide
  · rw [show length.toInt = _ from hcounted]
    decide

end Frame

end RegisterMachine
