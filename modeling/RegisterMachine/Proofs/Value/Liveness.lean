import RegisterMachine.Proofs.Value.Within
import RegisterMachine.Value.Liveness

/-!
# Which objects are held, without rounds

Rounds are how the held objects are found. What they are is said by `Heap.Keeps`: a set of objects,
each a root or referred to from within the set. An object is held exactly when it is in such a set
(`Heap.mem_held_iff`), however large the rest of the heap is, and so a heap within another holds
what it holds by itself, as long as nothing refers into it from outside (`Heap.Within.isHeld`).
-/

namespace RegisterMachine

namespace Heap

/-- Each object of the set is a root or has a holder in the set. -/
def Keeps (h : Heap) (roots : List Ref) (K : Ref → Prop) : Prop :=
  ∀ r, K r → r.index < h.size ∧
    (r ∈ roots ∨ ∃ s o, K s ∧ h.get? s = some o ∧ r ∈ o.refs)

/-- An object with a holder among the kept ones is not struck out. -/
theorem mem_strike_iff {h : Heap} {roots kept : List Ref} {r : Ref} :
    r ∈ h.strike roots kept ↔
      r ∈ kept ∧ (r ∈ roots ∨ ∃ s ∈ kept, ∃ o, h.get? s = some o ∧ r ∈ o.refs) := by
  unfold strike
  rw [List.mem_filter, List.contains_iff_mem, List.mem_append, List.mem_flatMap]
  refine and_congr_right fun _ => or_congr_right (exists_congr fun s => and_congr_right fun _ => ?_)
  cases h.get? s with
  | none => simp
  | some o => simp

theorem strikeRounds_subset (h : Heap) (roots : List Ref) (rounds : Nat) (kept : List Ref) :
    h.strikeRounds roots rounds kept ⊆ kept := by
  induction rounds generalizing kept with
  | zero => exact List.Subset.refl _
  | succ rounds ih =>
    unfold strikeRounds
    dsimp only
    split
    · exact List.Subset.refl _
    · exact List.Subset.trans (ih _) (List.filter_subset_self _)

/-- No round strikes out an object of a set that keeps itself. -/
theorem Keeps.mem_strikeRounds {h : Heap} {roots : List Ref} {K : Ref → Prop}
    (hK : h.Keeps roots K) (rounds : Nat) {kept : List Ref} (hkept : ∀ r, K r → r ∈ kept) {r : Ref}
    (hr : K r) : r ∈ h.strikeRounds roots rounds kept := by
  induction rounds generalizing kept with
  | zero => exact hkept r hr
  | succ rounds ih =>
    unfold strikeRounds
    dsimp only
    split
    · exact hkept r hr
    · refine ih fun s hs => mem_strike_iff.mpr ⟨hkept s hs, ?_⟩
      refine (hK s hs).2.imp_right ?_
      rintro ⟨t, o, ht, ho, hm⟩
      exact ⟨t, hkept t ht, o, ho, hm⟩

/-- With as many rounds as there are objects, the last one strikes out nothing. -/
theorem strike_strikeRounds (h : Heap) (roots : List Ref) {rounds : Nat} {kept : List Ref}
    (hl : kept.length ≤ rounds) :
    h.strike roots (h.strikeRounds roots rounds kept) = h.strikeRounds roots rounds kept := by
  induction rounds generalizing kept with
  | zero =>
    rw [List.length_eq_zero_iff.mp (Nat.le_zero.mp hl)]
    rfl
  | succ rounds ih =>
    have hsub : (h.strike roots kept).Sublist kept := List.filter_sublist
    unfold strikeRounds
    dsimp only
    by_cases heq : (h.strike roots kept).length = kept.length
    · rw [if_pos (beq_iff_eq.mpr heq)]
      exact hsub.eq_of_length heq
    · rw [if_neg (by simpa using heq)]
      have := hsub.length_le
      exact ih (by omega)

theorem mem_held_iff {h : Heap} {roots : List Ref} {r : Ref} :
    r ∈ h.held roots ↔ ∃ K, h.Keeps roots K ∧ K r := by
  constructor
  · -- the held objects are such a set themselves, since another round would strike out nothing
    intro hr
    refine ⟨fun s => s ∈ h.held roots, fun s hs => ⟨?_, ?_⟩, hr⟩
    · have hall := strikeRounds_subset h roots h.size _ hs
      obtain ⟨i, hi, rfl⟩ := List.mem_map.mp hall
      exact List.mem_range.mp hi
    · have hstable : h.strike roots (h.held roots) = h.held roots :=
        strike_strikeRounds h roots (by simp)
      rw [← hstable] at hs
      refine (mem_strike_iff.mp hs).2.imp_right ?_
      rintro ⟨t, ht, o, ho, hm⟩
      exact ⟨t, o, ht, ho, hm⟩
  · rintro ⟨K, hK, hr⟩
    refine hK.mem_strikeRounds _ (fun s hs => ?_) hr
    exact List.mem_map.mpr ⟨s.index, List.mem_range.mpr (hK s hs).1, rfl⟩

theorem isHeld_iff {h : Heap} {roots : List Ref} {r : Ref} :
    h.isHeld roots r = true ↔ r ∈ roots ∨ ∃ K, h.Keeps roots K ∧ K r := by
  unfold isHeld
  rw [Bool.or_eq_true, List.contains_iff_mem, List.contains_iff_mem, mem_held_iff]

/-- **What is held in a heap is held in a larger one**, and the other way round, if the same roots lead
into it and nothing else in the larger one refers to it. -/
theorem Within.isHeld {l : Link} {h h' : Heap} (hw : h.Within l h') {roots roots' : List Ref}
    (hroots : ∀ r s, l r s → (r ∈ roots ↔ s ∈ roots'))
    (hclosed : ∀ t o s, h'.get? t = some o → s ∈ o.refs → (∃ r, l r s) → ∃ r, l r t)
    {r s : Ref} (hr : l r s) : h.isHeld roots r = h'.isHeld roots' s := by
  rw [Bool.eq_iff_iff, isHeld_iff, isHeld_iff]
  refine or_congr (hroots r s hr) ⟨?_, ?_⟩
  · rintro ⟨K, hK, hKr⟩
    refine ⟨fun s => ∃ r, l r s ∧ K r, ?_, r, hr, hKr⟩
    rintro s ⟨r, hr, hKr⟩
    refine ⟨hw.right_lt hr, ?_⟩
    rcases (hK r hKr).2 with hroot | ⟨t, o, hKt, ho, hm⟩
    · exact .inl ((hroots r s hr).mp hroot)
    · obtain ⟨t', ht⟩ := hw.total (index_lt_of_get? ho)
      obtain ⟨p, p', hp, hp', ha⟩ := hw.objects ht
      rw [ho, Option.some.injEq] at hp
      subst hp
      obtain ⟨s', hs', hrs⟩ := exists_of_forall₂_left ha.refs hm
      rw [hw.functional hr hrs]
      exact .inr ⟨t', p', ⟨t, ht, hKt⟩, hp', hs'⟩
  · rintro ⟨K, hK, hKs⟩
    refine ⟨fun r => ∃ s, l r s ∧ K s, ?_, s, hr, hKs⟩
    rintro r ⟨s, hr, hKs⟩
    refine ⟨hw.left_lt hr, ?_⟩
    rcases (hK s hKs).2 with hroot | ⟨t', o', hKt, ho', hm⟩
    · exact .inl ((hroots r s hr).mpr hroot)
    · obtain ⟨t, ht⟩ := hclosed t' o' s ho' hm ⟨r, hr⟩
      obtain ⟨p, p', hp, hp', ha⟩ := hw.objects ht
      rw [ho', Option.some.injEq] at hp'
      subst hp'
      obtain ⟨r', hr', hrs⟩ := exists_of_forall₂_right ha.refs hm
      rw [hw.injective hr hrs]
      exact .inr ⟨t, p, ⟨t', ht, hKt⟩, hp, hr'⟩

end Heap

end RegisterMachine
