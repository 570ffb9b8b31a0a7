import Mathlib.Algebra.Group.Int.Defs
import Mathlib.Algebra.Group.Nat.Defs
import RegisterMachine.Proofs.Meets

/-!
# Computations that check everything

Some operations have no result: the slot of an array at a place that it does not have, a sum that is too
large for its word, a quotient by zero. Where the machine uses one it relies on there being a result, and
its definitions, which are total, say nothing about the case that there is none. A `Checked` computation
does: it is done in the same steps, and comes to nothing at all as soon as an operation has no result.

`Checked.Safe P c x` is what is proved about each of them: `c` checks everything, and all the same comes
to what the unchecked `x` does, with a result that satisfies `P`. Like `Meets` it is taken along a chain
link by link (`Checked.Safe.bind`).
-/

namespace RegisterMachine

/-- A computation that can fail with an error, or find an operation without a result. -/
abbrev Checked (ε α : Type) := ExceptT ε Option α

namespace Checked

variable {ε α β : Type}

/-- A computation in which there is nothing to check. -/
def lift (x : Except ε α) : Checked ε α := ExceptT.mk (some x)

/-- The result of an operation that must have one. -/
def must (x : Option α) : Checked ε α := ExceptT.mk (x.map .ok)

/-- Other words for the errors. -/
def mapError {ε' : Type} (f : ε → ε') (c : Checked ε α) : Checked ε' α :=
  ExceptT.mk (c.run.map (Except.mapError f))

/-! ## Words -/

/-- A place in memory, or a number of things in memory. -/
def place? (n : Nat) : Option Nat := if n < 2 ^ 64 then some n else none

/-- A difference of such numbers. -/
def minus? (n k : Nat) : Option Nat := if k ≤ n then some (n - k) else none

/-- The number of a register. -/
def register? (n : Nat) : Option UInt16 := if n < 2 ^ 16 then some (.ofNat n) else none

/-- An integer of the language. -/
def int? (x : Int) : Option Int64 := if -2 ^ 63 ≤ x ∧ x < 2 ^ 63 then some (.ofInt x) else none

/-- An integer of twice the width. -/
def wide? (x : Int) : Option Int := if -2 ^ 127 ≤ x ∧ x < 2 ^ 127 then some x else none

theorem place?_of_lt {n : Nat} (h : n < 2 ^ 64) : place? n = some n := if_pos h

theorem minus?_of_le {n k : Nat} (h : k ≤ n) : minus? n k = some (n - k) := if_pos h

theorem register?_of_lt {n : Nat} (h : n < 2 ^ 16) : register? n = some (.ofNat n) := if_pos h

theorem int?_of_le {x : Int} (h : -2 ^ 63 ≤ x ∧ x < 2 ^ 63) : int? x = some (.ofInt x) := if_pos h

theorem wide?_of_le {x : Int} (h : -2 ^ 127 ≤ x ∧ x < 2 ^ 127) : wide? x = some x := if_pos h

/-! ## Arrays -/

/-- Writes a slot that the array must have. -/
def put? (slots : Array α) (place : Nat) (x : α) : Option (Array α) :=
  if place < slots.size then some (slots.setIfInBounds place x) else none

theorem put?_of_lt {slots : Array α} {place : Nat} (h : place < slots.size) (x : α) :
    put? slots place x = some (slots.setIfInBounds place x) := if_pos h

/-! ## Chains -/

/-- The computation checks everything, and comes to what `x` does. Its result satisfies `P`. -/
def Safe (P : α → Prop) (c : Checked ε α) (x : Except ε α) : Prop :=
  c.run = some x ∧ Meets P (fun _ => True) x

namespace Safe

variable {P Q : α → Prop} {R : β → Prop} {c : Checked ε α} {x : Except ε α}

theorem run_eq (h : Safe P c x) : c.run = some x := h.1

theorem meets (h : Safe P c x) : Meets P (fun _ => True) x := h.2

theorem mono (h : Safe P c x) (hp : ∀ a, P a → Q a) : Safe Q c x :=
  ⟨h.1, h.2.mono hp fun _ he => he⟩

theorem lift (h : Meets P (fun _ => True) x) : Safe P (Checked.lift x) x := ⟨rfl, h⟩

theorem pure {a : α} (h : P a) : Safe P (Pure.pure a : Checked ε α) (.ok a) := ⟨rfl, h⟩

theorem throw (e : ε) : Safe P (MonadExcept.throw e : Checked ε α) (.error e) := ⟨rfl, trivial⟩

/-- The link rule. -/
theorem bind {k : α → Checked ε β} {k' : α → Except ε β} (h : Safe P c x)
    (hk : ∀ a, P a → Safe R (k a) (k' a)) : Safe R (c >>= k) (x >>= k') := by
  obtain ⟨hc, hx⟩ := h
  cases x with
  | error e =>
    refine ⟨?_, trivial⟩
    rw [ExceptT.run_bind, hc]
    rfl
  | ok a =>
    refine ⟨?_, (hk a hx).2⟩
    rw [ExceptT.run_bind, hc]
    exact (hk a hx).1

/-- A link in which there is nothing to check and of which nothing need be known. -/
theorem bind_lift {k : α → Checked ε β} {k' : α → Except ε β} (hk : ∀ a, Safe R (k a) (k' a)) :
    Safe R (Checked.lift x >>= k) (x >>= k') := (Safe.lift Meets.any).bind fun a _ => hk a

theorem map {k : α → β} (h : Safe P c x) (hk : ∀ a, P a → R (k a)) : Safe R (k <$> c) (x.map k) := by
  obtain ⟨hc, hx⟩ := h
  refine ⟨?_, hx.map hk⟩
  rw [ExceptT.run_map, hc]
  cases x <;> rfl

/-- The result is the one that `x` has. -/
theorem with_eq (h : Safe P c x) : Safe (fun a => x = .ok a ∧ P a) c x := ⟨h.1, h.2.with_eq⟩

theorem result {o : Option α} {a : α} (ho : o = some a) (h : P a) :
    Safe P (Checked.must o : Checked ε α) (.ok a) := ⟨congrArg (Option.map Except.ok) ho, h⟩

/-- An operation that has a result is no link of the other chain. -/
theorem must {o : Option α} {a : α} {k : α → Checked ε β} {y : Except ε β} (ho : o = some a)
    (hk : Safe R (k a) y) : Safe R (Checked.must o >>= k) y := by
  subst ho
  exact hk

theorem mapError {ε' : Type} {f : ε → ε'} (h : Safe P c x) :
    Safe P (c.mapError f) (x.mapError f) := by
  obtain ⟨hc, hx⟩ := h
  refine ⟨?_, ?_⟩
  · show c.run.map _ = _
    rw [hc]
    rfl
  · cases x with
    | ok a => exact hx
    | error e => exact trivial

/-- Along a list. -/
theorem mapM {k : β → Checked ε α} {k' : β → Except ε α} {l : List β}
    (hk : ∀ b ∈ l, Safe P (k b) (k' b)) :
    Safe (fun as => as.length = l.length ∧ ∀ a ∈ as, P a) (l.mapM k) (l.mapM k') := by
  refine ⟨?_, Meets.mapM fun b hb => (hk b hb).2⟩
  induction l with
  | nil => rfl
  | cons b rest ih =>
    have hb := (hk b List.mem_cons_self).1
    have hrest := ih fun c hc => hk c (List.mem_cons_of_mem _ hc)
    rw [List.mapM_cons, List.mapM_cons, ExceptT.run_bind, hb]
    cases k' b with
    | error e => rfl
    | ok a =>
      show (List.mapM k rest >>= fun as => Pure.pure (a :: as)).run = _
      rw [ExceptT.run_bind, hrest]
      cases rest.mapM k' <;> rfl

end Safe

end Checked

/-- Along a list of operations that all have a result. -/
theorem mapM_eq_some {α β : Type} {f : α → Option β} {g : α → β} {l : List α}
    (h : ∀ a ∈ l, f a = some (g a)) : l.mapM f = some (l.map g) := by
  induction l with
  | nil => rfl
  | cons a rest ih =>
    rw [List.mapM_cons, h a List.mem_cons_self, ih fun b hb => h b (List.mem_cons_of_mem _ hb)]
    rfl

end RegisterMachine
