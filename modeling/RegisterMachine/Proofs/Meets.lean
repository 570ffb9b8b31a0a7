import Mathlib.Data.List.Forall2

/-!
# What a computation that can fail may come to

Instructions are chains of small computations, each of which can fail, and the two questions asked
about every link are the same: what holds of the result, and what holds of the error. `Meets P E x`
answers both at once, so a chain is walked once (`Meets.bind`) and not once for each question.
-/

namespace RegisterMachine

/-- A chain that succeeds has succeeded in its first link. -/
theorem bind_eq_ok {ε α β : Type} {x : Except ε α} {f : α → Except ε β} {b : β}
    (h : x >>= f = .ok b) : ∃ a, x = .ok a ∧ f a = .ok b := by
  cases x with
  | error e => cases h
  | ok a => exact ⟨a, rfl, h⟩

/-- A result satisfies `P` and an error satisfies `E`. -/
def Meets {ε α : Type} (P : α → Prop) (E : ε → Prop) : Except ε α → Prop
  | .ok a => P a
  | .error e => E e

namespace Meets

variable {ε α β : Type} {P Q : α → Prop} {R : β → Prop} {E F : ε → Prop} {x : Except ε α}

theorem intro (hp : ∀ a, x = .ok a → P a) (he : ∀ e, x = .error e → E e) : Meets P E x := by
  cases x with
  | ok a => exact hp a rfl
  | error e => exact he e rfl

theorem of_ok {a : α} (hx : Meets P E x) (h : x = .ok a) : P a := by
  rw [h] at hx
  exact hx

theorem of_error {e : ε} (hx : Meets P E x) (h : x = .error e) : E e := by
  rw [h] at hx
  exact hx

theorem mono (hx : Meets P E x) (hp : ∀ a, P a → Q a) (he : ∀ e, E e → F e) : Meets Q F x := by
  cases x with
  | ok a => exact hp a hx
  | error e => exact he e hx

/-- The result is the one that `x` has. -/
theorem with_eq (hx : Meets P E x) : Meets (fun a => x = .ok a ∧ P a) E x := by
  cases x with
  | ok a => exact ⟨rfl, hx⟩
  | error e => exact hx

/-- The link rule: the rest of the chain may assume what the link leaves. -/
theorem bind {k : α → Except ε β} (hx : Meets P E x) (hk : ∀ a, P a → Meets R E (k a)) :
    Meets R E (x >>= k) := by
  cases x with
  | ok a => exact hk a hx
  | error e => exact hx

theorem map {k : α → β} (hx : Meets P E x) (hk : ∀ a, P a → R (k a)) : Meets R E (x.map k) := by
  cases x with
  | ok a => exact hk a hx
  | error e => exact hx

/-- Nothing need be known. -/
theorem any : Meets (fun _ => True) (fun _ => True) x :=
  .intro (fun _ _ => trivial) fun _ _ => trivial

/-- The rest of a chain of whose first link nothing need be known. -/
theorem bind_any {k : α → Except ε β} (hk : ∀ a, Meets R (fun _ => True) (k a)) :
    Meets R (fun _ => True) (x >>= k) := any.bind fun a _ => hk a

/-- Where the error is the only one that it could be, and there is none where there could be none. -/
theorem eq_error_iff (hx : Meets (fun _ => ∀ e, ¬ E e) E x) (hE : ∀ e e', E e → E e' → e = e') {e : ε} :
    x = .error e ↔ E e := by
  refine ⟨hx.of_error, fun he => ?_⟩
  cases x with
  | ok a => exact absurd he (hx e)
  | error e' => rw [hE e' e hx he]

/-- Along a list, what holds of every link's error holds of the whole chain's. -/
theorem mapM {k : β → Except ε α} {l : List β} (hk : ∀ b ∈ l, Meets P E (k b)) :
    Meets (fun as => as.length = l.length ∧ ∀ a ∈ as, P a) E (l.mapM k) := by
  induction l with
  | nil => exact ⟨rfl, by simp⟩
  | cons b rest ih =>
    rw [List.mapM_cons]
    refine (hk b List.mem_cons_self).bind fun a ha => ?_
    refine (ih fun c hc => hk c (List.mem_cons_of_mem _ hc)).bind fun as has => ?_
    refine ⟨by simp [has.1], fun c hc => ?_⟩
    rcases List.mem_cons.mp hc with rfl | hc
    · exact ha
    · exact has.2 c hc

end Meets

/-- What is done with a result does not matter where there is none. -/
theorem map_eq_error_iff {ε α β : Type} {x : Except ε α} {f : α → β} {e : ε} :
    x.map f = .error e ↔ x = .error e := by
  cases x <;> simp [Except.map]

theorem mapError_eq_error_iff {ε ε' α : Type} {x : Except ε α} {f : ε → ε'} {e : ε'} :
    x.mapError f = .error e ↔ ∃ e', e = f e' ∧ x = .error e' := by
  cases x <;> simp [Except.mapError, eq_comm]

/-- Along a list, a chain that succeeds has succeeded at every link. -/
theorem forall₂_of_mapM_eq_ok {ε α β : Type} {k : β → Except ε α} {l : List β} {as : List α}
    (h : l.mapM k = .ok as) : List.Forall₂ (fun b a => k b = .ok a) l as := by
  induction l generalizing as with
  | nil =>
    cases h
    exact .nil
  | cons b rest ih =>
    rw [List.mapM_cons] at h
    cases hb : k b with
    | error e =>
      rw [hb] at h
      cases h
    | ok a =>
      cases hr : rest.mapM k with
      | error e =>
        rw [hb, hr] at h
        cases h
      | ok others =>
        rw [hb, hr] at h
        cases h
        exact .cons hb (ih hr)

end RegisterMachine
