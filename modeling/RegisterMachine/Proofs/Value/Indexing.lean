import RegisterMachine.Proofs.Value.Typed

/-!
# Which error an index is met with

There are two things to say about an index that cannot be used: that no array has it, or that this one does not
(`IndexError.Due`). The first is said where both are true, also of an index far below zero. What counts as beyond
every array is not the same for all operations. An array can have as many as `maxArraySize` elements, so a length may
be that number and an index may not; a read says of it that the array does not have it, while a write says that no
array does, because that is what making room for it comes to.
-/

namespace RegisterMachine

/-- The error that an index is met with, which is `beyond` every array or else `outside` the one at hand. -/
def IndexError.Due (index : Int64) (size : Nat) (beyond outside : Prop) (e : IndexError) : Prop :=
  (beyond ∧ e = .tooLarge index) ∨ (¬ beyond ∧ outside ∧ e = .outOfRange index size)

theorem IndexError.Due.unique {index : Int64} {size : Nat} {beyond outside : Prop} {e e' : IndexError}
    (h : Due index size beyond outside e) (h' : Due index size beyond outside e') : e = e' := by
  rcases h with ⟨hb, rfl⟩ | ⟨hb, -, rfl⟩
  · rcases h' with ⟨-, rfl⟩ | ⟨hb', -⟩
    · rfl
    · exact absurd hb hb'
  · rcases h' with ⟨hb', -⟩ | ⟨-, -, rfl⟩
    · exact absurd hb' hb
    · rfl

theorem IndexError.Due.mono {index : Int64} {size : Nat} {beyond beyond' outside outside' : Prop}
    {e : IndexError} (h : Due index size beyond outside e) (hb : beyond → beyond')
    (ho : ¬ beyond → outside → ¬ beyond' ∧ outside') : Due index size beyond' outside' e := by
  rcases h with ⟨hbeyond, he⟩ | ⟨hbeyond, houtside, he⟩
  · exact .inl ⟨hb hbeyond, he⟩
  · exact .inr ⟨(ho hbeyond houtside).1, (ho hbeyond houtside).2, he⟩

/-- An index that can be used is met with no error. -/
theorem IndexError.not_due {index : Int64} {size : Nat} {beyond outside : Prop} (hb : ¬ beyond)
    (ho : ¬ outside) (e : IndexError) : ¬ Due index size beyond outside e := by
  rintro (⟨hbeyond, -⟩ | ⟨-, houtside, -⟩)
  · exact hb hbeyond
  · exact ho houtside

/-- An index by itself, or a length. -/
theorem writeIndex_due (index : Int64) (size : Nat) :
    Meets (fun place : Nat => index.toInt = place ∧ place ≤ maxArraySize)
      (IndexError.Due index size (maxArraySize < index.toInt ∨ index.toInt < -2147483648) (index.toInt < 0))
      (writeIndex index size) := by
  rw [writeIndex_eq]
  by_cases hbeyond : index.toInt > maxArraySize ∨ index.toInt < -2147483648
  · rw [if_pos hbeyond]
    exact .inl ⟨hbeyond, rfl⟩
  rw [if_neg hbeyond]
  by_cases hneg : index.toInt < 0
  · rw [if_pos hneg]
    exact .inr ⟨hbeyond, hneg, rfl⟩
  · rw [if_neg hneg]
    constructor <;> omega

namespace Growable

variable {α : Type} [Inhabited α] {a : Growable α} {v : View α} {index : Int64} {x : α} {e : IndexError}

/-- A read. -/
theorem get_eq_error_iff :
    a.get index = .error e ↔
      IndexError.Due index a.size (maxArraySize < index.toInt ∨ index.toInt < -2147483648)
        (index.toInt < 0 ∨ a.size ≤ index.toInt) e := by
  refine Meets.eq_error_iff ?_ fun _ _ => IndexError.Due.unique
  unfold get readIndex
  refine Meets.bind (P := fun place : Nat => index.toInt = place ∧ place ≤ maxArraySize ∧ place < a.size) ?_
    fun place hplace => IndexError.not_due (by omega) (by omega)
  refine ((writeIndex_due index a.size).mono (fun _ hplace => hplace) fun e he => ?_).bind
    fun place hplace => ?_
  · exact he.mono id fun hbeyond hneg => ⟨hbeyond, .inl hneg⟩
  obtain ⟨hindex, hmax⟩ := hplace
  by_cases hsize : a.size ≤ place
  · rw [if_pos hsize]
    exact .inr ⟨by omega, .inr (by omega), rfl⟩
  · rw [if_neg hsize]
    exact ⟨hindex, hmax, Nat.lt_of_not_le hsize⟩

theorem ofLength_eq_error_iff :
    (ofLength index : Except IndexError (Growable α)) = .error e ↔
      IndexError.Due index 0 (maxArraySize < index.toInt ∨ index.toInt < -2147483648)
        (index.toInt < 0) e := by
  refine Meets.eq_error_iff ?_ fun _ _ => IndexError.Due.unique
  unfold ofLength
  exact (writeIndex_due index 0).bind fun place hplace => IndexError.not_due (by omega) (by omega)

/-- Where there is no room, the error names the last place that was to be there. -/
theorem reserve_due (h : a.Shows v) {place : Nat} (hplace : place ≤ maxArraySize) :
    Meets (fun _ => place < maxArraySize)
      (fun e => place = maxArraySize ∧ e = .tooLarge (.ofNat maxArraySize))
      (a.reserve (.ofNat (place + 1))) := by
  have hword : (UInt64.ofNat (place + 1)).toNat = place + 1 := by
    have hmax : maxArraySize + 1 < UInt64.size := by decide
    exact UInt64.toNat_ofNat_of_lt' (by omega)
  refine .intro (fun roomy hroomy => ?_) fun e he => ?_
  · by_contra hfull
    have herror : a.reserve (.ofNat (place + 1)) = .error _ :=
      (reserve_eq_error_iff h.capacity_le).mpr ⟨by omega, rfl⟩
    rw [hroomy] at herror
    cases herror
  · obtain ⟨hfull, rfl⟩ := (reserve_eq_error_iff h.capacity_le).mp he
    obtain rfl : place = maxArraySize := by omega
    exact ⟨rfl, rfl⟩

/-- A write. An index that is the greatest number of elements is turned down when room is made for it. -/
theorem set_eq_error_iff (h : a.Shows v) :
    a.set index x = .error e ↔
      IndexError.Due index a.size (maxArraySize ≤ index.toInt ∨ index.toInt < -2147483648)
        (index.toInt < 0) e := by
  refine Meets.eq_error_iff ?_ fun _ _ => IndexError.Due.unique
  unfold set
  refine ((writeIndex_due index a.size).mono (fun _ hplace => hplace) fun e he => ?_).bind
    fun place hplace => ?_
  · refine he.mono (fun hbeyond => ?_) fun hbeyond hneg => ⟨?_, hneg⟩ <;> omega
  obtain ⟨hindex, hmax⟩ := hplace
  refine ((reserve_due h hmax).mono (fun _ hroom => hroom) fun e he => ?_).bind fun roomy hroom => ?_
  · obtain ⟨rfl, rfl⟩ := he
    have hlast : Int64.ofNat maxArraySize = index := by
      rw [← Int64.toInt_inj, hindex]
      rfl
    exact .inl ⟨by omega, by rw [hlast]⟩
  · exact IndexError.not_due (by omega) (by omega)

theorem push_eq_error_iff (h : a.Shows v) :
    a.push x = .error e ↔ a.size = maxArraySize ∧ e = .tooLarge (.ofNat maxArraySize) := by
  have hle : a.size ≤ maxArraySize := Nat.le_trans h.size_le h.capacity_le
  have hindex : (Int64.ofNat a.size).toInt = a.size := by
    have hlimit : maxArraySize < 2 ^ 63 := by decide
    exact Int64.toInt_ofNat_of_lt (by omega)
  rw [push, set_eq_error_iff h, IndexError.Due, hindex]
  constructor
  · rintro (⟨hfull, rfl⟩ | ⟨-, hneg, -⟩)
    · have hsize : a.size = maxArraySize := by omega
      exact ⟨hsize, by rw [hsize]⟩
    · omega
  · rintro ⟨hsize, rfl⟩
    exact .inl ⟨by omega, by rw [hsize]⟩

end Growable

namespace ArrayObject

variable {a : ArrayObject} {kind : ElementKind} {index : Int64} {v : Value} {tag : TypeTag} {e : ArrayError}

theorem get_eq_error_iff :
    a.get index = .error e ↔ ∃ e', e = .index e' ∧
      IndexError.Due index a.size (maxArraySize < index.toInt ∨ index.toInt < -2147483648)
        (index.toInt < 0 ∨ a.size ≤ index.toInt) e' := by
  have hget : a.get index = ((a.elements.get index).map a.kind.toValue).mapError .index := by
    unfold get
    cases a.elements.get index <;> rfl
  rw [hget, mapError_eq_error_iff]
  simp only [map_eq_error_iff, Growable.get_eq_error_iff]
  rfl

/-- A value that the array can store. -/
theorem Sound.set_eq_error_iff (ha : a.Sound) (hv : a.kind.accepts v = true) :
    a.set index v tag = .error e ↔ ∃ e', e = .index e' ∧
      IndexError.Due index a.size (maxArraySize ≤ index.toInt ∨ index.toInt < -2147483648)
        (index.toInt < 0) e' := by
  obtain ⟨view, hview⟩ := ha
  obtain ⟨x, -, -, hset⟩ := set_of_accepts hv
  rw [hset, mapError_eq_error_iff]
  simp only [map_eq_error_iff, Growable.set_eq_error_iff hview]
  rfl

theorem Sound.push_eq_error_iff (ha : a.Sound) (hv : a.kind.accepts v = true) :
    a.push v tag = .error e ↔ a.size = maxArraySize ∧ e = .index (.tooLarge (.ofNat maxArraySize)) := by
  obtain ⟨view, hview⟩ := ha
  obtain ⟨x, -, -, hset⟩ := set_of_accepts hv
  have hpush : ∀ e', a.elements.set (.ofNat a.size) x = .error e' ↔
      a.size = maxArraySize ∧ e' = .tooLarge (.ofNat maxArraySize) := fun e' =>
    Growable.push_eq_error_iff hview
  rw [push, hset, mapError_eq_error_iff]
  simp only [map_eq_error_iff, hpush]
  constructor
  · rintro ⟨_, rfl, hsize, rfl⟩
    exact ⟨hsize, rfl⟩
  · rintro ⟨hsize, rfl⟩
    exact ⟨_, rfl, hsize, rfl⟩

theorem ofLength_eq_error_iff {e : IndexError} :
    ofLength kind index = .error e ↔
      IndexError.Due index 0 (maxArraySize < index.toInt ∨ index.toInt < -2147483648)
        (index.toInt < 0) e :=
  map_eq_error_iff.trans Growable.ofLength_eq_error_iff

end ArrayObject

end RegisterMachine
