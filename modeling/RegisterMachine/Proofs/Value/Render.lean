import Mathlib.Data.Fintype.Card
import Mathlib.Tactic.Choose
import RegisterMachine.Proofs.Value.Within
import RegisterMachine.Value.Render

/-!
# The text of a value is no matter of its place

A text leaves out what is inside itself, so to write one the path from the outermost object has to be
known, and a bound on its length is needed that only the heap can give. Neither shows: within a larger
heap the same value has the same text (`Heap.Within.text`).
-/

namespace RegisterMachine

namespace Object.Alike

variable {l : Link} {o o' : Object}

theorem ellipsis (h : o.Alike l o') : o.ellipsis = o'.ellipsis := by
  cases h with
  | array h => rfl
  | map h => rfl
  | record h => rfl

theorem text (h : o.Alike l o') {f g : Value → String} (hfg : ∀ v w, v.Alike l w → f v = g w) :
    o.text f = o'.text g := by
  have hentries : ∀ {xs ys : Entries}, Entries.Alike l xs ys →
      (xs.map fun x => x.1 ++ ":" ++ f x.2) = ys.map fun y => y.1 ++ ":" ++ g y.2 := fun h =>
    map_eq_of_forall₂ h fun x y hx => by rw [hx.1, hfg _ _ hx.2]
  cases h with
  | map h => exact congrArg braced (hentries h)
  | record h => exact congrArg braced (hentries h)
  | array h =>
    cases h with
    | @mk kind a b h =>
      cases kind with
      | any => exact congrArg bracketed (map_eq_of_forall₂ h.toList hfg)
      | _ => exact congrArg bracketed (map_eq_of_forall₂ h.toList fun _ _ hx => congrArg _ hx)

end Object.Alike

namespace Heap

/-- How many objects of the heap are not on the path. -/
def offPath (h : Heap) (path : List Ref) : Nat :=
  ((List.range h.size).filter fun i => !path.contains ⟨i⟩).length

theorem offPath_nil (h : Heap) : h.offPath [] = h.size := by
  simp [offPath]

/-- An object that joins the path is one fewer off it. -/
theorem offPath_cons_lt {h : Heap} {path : List Ref} {r : Ref} (hr : r.index < h.size)
    (hp : path.contains r = false) : h.offPath (r :: path) < h.offPath path := by
  have hsplit : (List.range h.size).filter (fun i => !(r :: path).contains ⟨i⟩)
      = ((List.range h.size).filter fun i => !path.contains ⟨i⟩).filter fun i => i != r.index := by
    rw [List.filter_filter]
    refine List.filter_congr fun i _ => ?_
    rw [List.contains_cons, Bool.not_or]
    congr 1
    rw [bne, Bool.not_inj_iff, Bool.eq_iff_iff, beq_iff_eq, beq_iff_eq]
    constructor
    · intro e
      rw [← e]
    · intro e
      cases r
      exact congrArg Ref.mk e
  unfold offPath
  rw [hsplit]
  refine List.length_filter_lt_length_iff_exists.mpr ⟨r.index, ?_, by simp⟩
  refine List.mem_filter.mpr ⟨List.mem_range.mpr hr, ?_⟩
  rw [Bool.not_eq_true']
  exact hp

namespace Within

variable {l : Link} {h h' : Heap}

theorem contains_path (hw : h.Within l h') {path path' : List Ref} (hp : List.Forall₂ l path path')
    {r s : Ref} (hr : l r s) : path.contains r = path'.contains s := by
  rw [Bool.eq_iff_iff, List.contains_iff_mem, List.contains_iff_mem]
  exact hw.mem_iff hp hr

/-- However deep either side may go, as long as it is deep enough for what is off the path. -/
theorem textWithin (hw : h.Within l h') {depth depth' : Nat} {path path' : List Ref}
    (hp : List.Forall₂ l path path') (hd : h.offPath path ≤ depth) (hd' : h.offPath path ≤ depth')
    {v w : Value} (hv : v.Alike l w) :
    h.textWithin depth path v = h'.textWithin depth' path' w := by
  induction depth generalizing depth' path path' v w with
  | zero =>
    cases hv with
    | @scalar v hv => cases v with
      | collection r => cases hv
      | _ => cases depth' <;> rfl
    | @collection r s hr =>
      obtain ⟨o, o', ho, ho', ha⟩ := hw.objects hr
      -- there is no depth left, so nothing is off the path
      have hon : path.contains r = true := by
        by_contra hoff
        have := offPath_cons_lt (index_lt_of_get? ho) (Bool.eq_false_iff.mpr hoff)
        omega
      have hon' := hw.contains_path hp hr
      unfold Heap.textWithin
      rw [ho, ho']
      dsimp only
      rw [if_pos hon, if_pos (hon'.symm.trans hon), ha.ellipsis]
  | succ depth ih =>
    cases hv with
    | @scalar v hv => cases v with
      | collection r => cases hv
      | _ => cases depth' <;> rfl
    | @collection r s hr =>
      obtain ⟨o, o', ho, ho', ha⟩ := hw.objects hr
      have hon := hw.contains_path hp hr
      unfold Heap.textWithin
      rw [ho, ho']
      dsimp only
      by_cases hoff : path.contains r = true
      · rw [if_pos hoff, if_pos (hon.symm.trans hoff), ha.ellipsis]
      · have hlt := offPath_cons_lt (index_lt_of_get? ho) (Bool.eq_false_iff.mpr hoff)
        rw [if_neg hoff, if_neg (hon ▸ hoff)]
        cases depth' with
        | zero => omega
        | succ depth' =>
          exact ha.text fun v w hv => ih (.cons hr hp) (by omega) (by omega) hv

theorem size_le (hw : h.Within l h') : h.size ≤ h'.size := by
  -- a link is one to one, so choosing partners embeds the one heap in the other
  choose f hf using fun i : Fin h.size => hw.total (r := ⟨i⟩) i.isLt
  have hinj : Function.Injective fun i : Fin h.size =>
      (⟨(f i).index, hw.right_lt (hf i)⟩ : Fin h'.size) := by
    intro i j hij
    have hs : f i = f j := by
      have hindex := congrArg Fin.val hij
      dsimp only at hindex
      cases hfi : f i
      cases hfj : f j
      rw [hfi, hfj] at hindex
      exact congrArg Ref.mk hindex
    have hr := hw.injective (hs ▸ hf i) (hf j)
    exact Fin.ext (congrArg Ref.index hr)
  simpa using Fintype.card_le_of_injective _ hinj

theorem text (hw : h.Within l h') {v w : Value} (hv : v.Alike l w) : h.text v = h'.text w := by
  refine hw.textWithin .nil ?_ ?_ hv
  · exact Nat.le_of_eq h.offPath_nil
  · rw [offPath_nil]
    exact hw.size_le

end Within

end Heap

end RegisterMachine
