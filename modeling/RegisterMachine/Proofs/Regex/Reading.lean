import RegisterMachine.Proofs.Regex.Lexing
import RegisterMachine.Proofs.Regex.Ways

/-!
# Reading a pattern within a group

What is read of a pattern does not depend on the groups that are open around it: a token that is taken is
taken just so with more of them around (`Reading.take_under`), since only a closing parenthesis looks at
them, and one too many is refused. And whatever is read has its repetitions in order
(`Pattern.read_inOrder`), since the tokens have.
-/

namespace RegisterMachine

namespace Regex

/-! ## Reading within a group -/

/-- The same reading with more groups open around it. -/
def Reading.under (around : List Enclosing) (r : Reading) : Reading :=
  { r with enclosing := r.enclosing ++ around }

section

variable {r r' : Reading} {around : List Enclosing} {t : Token} {ts : List Token}

theorem Reading.leave_under (h : r.leave = .ok r') : (r.under around).leave = .ok (r'.under around) := by
  obtain ⟨top, enclosing, groups, names⟩ := r
  cases enclosing with
  | nil => cases h
  | cons outer enclosing =>
    cases h
    rfl

theorem Reading.take_under (h : r.take t = .ok r') : (r.under around).take t = .ok (r'.under around) := by
  cases t with
  | close => exact leave_under h
  | openGroup name =>
    cases name with
    | none =>
      cases h
      rfl
    | some name =>
      simp only [take] at h ⊢
      split at h
      case isTrue => cases h
      case isFalse hnew =>
        cases h
        exact if_neg hnew
  | repetition least most greedy =>
    obtain ⟨top, hlast, h⟩ := bind_eq_ok h
    cases h
    -- what is repeated is in the innermost group, which is the same
    have hunder : (r.under around).top.repeatLast least most greedy = .ok top := hlast
    rw [take, hunder]
    rfl
  | _ =>
    cases h
    rfl

theorem Reading.foldlM_under (h : ts.foldlM Reading.take r = .ok r') :
    ts.foldlM Reading.take (r.under around) = .ok (r'.under around) := by
  induction ts generalizing r with
  | nil =>
    cases h
    rfl
  | cons t ts ih =>
    rw [List.foldlM_cons] at h ⊢
    obtain ⟨r₁, htake, h⟩ := bind_eq_ok h
    rw [take_under htake]
    exact ih h

end

/-! ## The bounds of repetitions -/

theorem foldl_inOrder {f : Regex → Regex → Regex} (hf : ∀ r s, r.InOrder → s.InOrder → (f r s).InOrder)
    {before : List Regex} {last : Regex} (hbefore : ∀ r ∈ before, r.InOrder) (hlast : last.InOrder) :
    (before.foldl (fun rest r => f r rest) last).InOrder := by
  induction before generalizing last with
  | nil => exact hlast
  | cons r before ih =>
    obtain ⟨hr, hbefore⟩ := List.forall_mem_cons.mp hbefore
    exact ih hbefore (hf r last hr hlast)

/-- Everything that has been read of a group is in order. -/
structure Partial.InOrder (p : Partial) : Prop where
  branches : ∀ r ∈ p.branches, r.InOrder
  items : ∀ r ∈ p.items, r.InOrder

namespace Partial

variable {p : Partial}

theorem start_inOrder (flags : Flags) : (start flags).InOrder := ⟨nofun, nofun⟩

theorem InOrder.addAt (h : p.InOrder) (depth : Nat) {r : Regex} (hr : r.InOrder) : (p.addAt depth r).InOrder :=
  ⟨h.branches, List.forall_mem_cons.mpr ⟨hr, h.items⟩⟩

theorem InOrder.branch (h : p.InOrder) : p.branch.InOrder := by
  have hitems := h.items
  unfold Partial.branch
  split
  case h_1 => trivial
  case h_2 last before heq =>
    rw [heq] at hitems
    obtain ⟨hlast, hbefore⟩ := List.forall_mem_cons.mp hitems
    exact foldl_inOrder (f := Regex.seq) (fun _ _ hr hs => ⟨hr, hs⟩) hbefore hlast

theorem InOrder.whole (h : p.InOrder) : p.whole.InOrder :=
  foldl_inOrder (f := Regex.alt) (fun _ _ hr hs => ⟨hr, hs⟩) h.branches h.branch

theorem InOrder.bar (h : p.InOrder) : p.bar.InOrder :=
  ⟨List.forall_mem_cons.mpr ⟨h.branch, h.branches⟩, nofun⟩

theorem InOrder.repeatLast (h : p.InOrder) {least : Nat} {most : Option Nat} {greedy : Bool} {p' : Partial}
    (hbounds : ∀ m ∈ most, least ≤ m) (hp' : p.repeatLast least most greedy = .ok p') : p'.InOrder := by
  have hitems := h.items
  unfold Partial.repeatLast at hp'
  split at hp'
  case h_2 => cases hp'
  case h_1 last before _ heq =>
    cases hp'
    rw [heq] at hitems
    obtain ⟨hlast, hbefore⟩ := List.forall_mem_cons.mp hitems
    exact ⟨h.branches, List.forall_mem_cons.mpr ⟨⟨hbounds, hlast⟩, hbefore⟩⟩

end Partial

structure Reading.InOrder (r : Reading) : Prop where
  top : r.top.InOrder
  enclosing : ∀ e ∈ r.enclosing, e.outer.InOrder

namespace Reading

variable {r r' : Reading} {t : Token} {ts : List Token}

theorem InOrder.leave (h : r.InOrder) (hr' : r.leave = .ok r') : r'.InOrder := by
  have henclosing := h.enclosing
  unfold Reading.leave at hr'
  split at hr'
  case h_1 => cases hr'
  case h_2 outer index enclosing heq =>
    cases hr'
    rw [heq] at henclosing
    obtain ⟨houter, henclosing⟩ := List.forall_mem_cons.mp henclosing
    refine ⟨?_, henclosing⟩
    cases index with
    | none => exact houter.addAt _ h.top.whole
    | some n => exact houter.addAt _ h.top.whole

theorem InOrder.take (h : r.InOrder) (ht : t.InOrder) (hr' : r.take t = .ok r') : r'.InOrder := by
  have hopened (index : Option Nat) :
      ∀ e ∈ (⟨r.top, index⟩ :: r.enclosing : List Enclosing), e.outer.InOrder :=
    List.forall_mem_cons.mpr ⟨h.top, h.enclosing⟩
  cases t with
  | close => exact h.leave hr'
  | openPlain change =>
    cases hr'
    exact ⟨Partial.start_inOrder _, hopened _⟩
  | openGroup name =>
    cases name with
    | none =>
      cases hr'
      exact ⟨Partial.start_inOrder _, hopened _⟩
    | some name =>
      simp only [Reading.take] at hr'
      split at hr'
      case isTrue => cases hr'
      case isFalse =>
        cases hr'
        exact ⟨Partial.start_inOrder _, hopened _⟩
  | repetition least most greedy =>
    obtain ⟨top, hlast, hr'⟩ := bind_eq_ok hr'
    cases hr'
    exact ⟨h.top.repeatLast ht hlast, h.enclosing⟩
  | bar =>
    cases hr'
    exact ⟨h.top.bar, h.enclosing⟩
  | flags change =>
    cases hr'
    exact ⟨⟨h.top.branches, h.top.items⟩, h.enclosing⟩
  | _ =>
    cases hr'
    exact ⟨h.top.addAt _ trivial, h.enclosing⟩

theorem InOrder.foldlM (h : r.InOrder) (hts : ∀ t ∈ ts, t.InOrder)
    (hr' : ts.foldlM Reading.take r = .ok r') : r'.InOrder := by
  induction ts generalizing r with
  | nil =>
    cases hr'
    exact h
  | cons t ts ih =>
    obtain ⟨ht, hts⟩ := List.forall_mem_cons.mp hts
    rw [List.foldlM_cons] at hr'
    obtain ⟨r₁, htake, hr'⟩ := bind_eq_ok hr'
    exact ih (h.take ht htake) hts hr'

end Reading

end Regex

namespace Pattern

open Regex

variable {tables : Tables} {p : Pattern} {text : String}

theorem read_inOrder (h : read tables text = .ok p) : p.root.InOrder := by
  obtain ⟨ts, hts, h⟩ := bind_eq_ok h
  obtain ⟨r, hr, h⟩ := bind_eq_ok h
  have hstart : Reading.start.InOrder := ⟨Partial.start_inOrder {}, nofun⟩
  have hinOrder := hstart.foldlM (tokens_inOrder hts) hr
  unfold Reading.finish at h
  split at h
  case h_2 => cases h
  case h_1 =>
    cases h
    exact hinOrder.top.whole

end Pattern

end RegisterMachine
