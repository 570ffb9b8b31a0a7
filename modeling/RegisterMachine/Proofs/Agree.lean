import Mathlib.Data.List.Forall2

/-!
# Two computations side by side

`Meets` says what one computation that can fail may come to. To say that two of them come to the same,
though they work in different places, takes a relation between their results and none between their
errors, which name no place: `Agree R x y` holds when both succeed with results that `R` relates, or
both fail with one error. As for `Meets`, a chain is walked once, with `Agree.bind`.

Lists are walked with `List.Forall₂`; what reading, writing and looking for one entry needs about it is
at the end.
-/

namespace RegisterMachine

inductive Agree {ε α β : Type} (R : α → β → Prop) : Except ε α → Except ε β → Prop
  | ok {a : α} {b : β} (h : R a b) : Agree R (.ok a) (.ok b)
  | error (e : ε) : Agree R (.error e) (.error e)

namespace Agree

variable {ε α β γ δ : Type} {R S : α → β → Prop} {T : γ → δ → Prop} {x : Except ε α}
  {y : Except ε β}

/-- A computation agrees with itself. -/
theorem refl (x : Except ε α) : Agree Eq x x := by
  cases x with
  | ok a => exact .ok rfl
  | error e => exact .error e

theorem mono (hx : Agree R x y) (h : ∀ a b, R a b → S a b) : Agree S x y := by
  cases hx with
  | ok hab => exact .ok (h _ _ hab)
  | error e => exact .error e

/-- The results are those that the two have. -/
theorem with_eq (hx : Agree R x y) : Agree (fun a b => R a b ∧ x = .ok a ∧ y = .ok b) x y := by
  cases hx with
  | ok hab => exact .ok ⟨hab, rfl, rfl⟩
  | error e => exact .error e

/-- The link rule: the rest of the chain may assume that the results so far are related. -/
theorem bind {k : α → Except ε γ} {m : β → Except ε δ} (hx : Agree R x y)
    (hk : ∀ a b, R a b → Agree T (k a) (m b)) : Agree T (x >>= k) (y >>= m) := by
  cases hx with
  | ok hab => exact hk _ _ hab
  | error e => exact .error e

/-- The link rule where the results so far are the same. -/
theorem bind_eq {y : Except ε α} {k : α → Except ε γ} {m : α → Except ε δ} (hx : Agree Eq x y)
    (hk : ∀ a, Agree T (k a) (m a)) : Agree T (x >>= k) (y >>= m) :=
  hx.bind fun a _ hab => hab ▸ hk a

theorem map {k : α → γ} {m : β → δ} (hx : Agree R x y) (hk : ∀ a b, R a b → T (k a) (m b)) :
    Agree T (x.map k) (y.map m) := by
  cases hx with
  | ok hab => exact .ok (hk _ _ hab)
  | error e => exact .error e

theorem mapError {ζ : Type} {f : ε → ζ} (hx : Agree R x y) :
    Agree R (x.mapError f) (y.mapError f) := by
  cases hx with
  | ok hab => exact .ok hab
  | error e => exact .error (f e)

theorem mapM {l : List γ} {l' : List δ} {k : γ → Except ε α} {m : δ → Except ε β}
    (hl : List.Forall₂ T l l') (hk : ∀ c d, T c d → Agree R (k c) (m d)) :
    Agree (List.Forall₂ R) (l.mapM k) (l'.mapM m) := by
  induction hl with
  | nil => exact .ok .nil
  | cons hcd _ ih =>
    rw [List.mapM_cons, List.mapM_cons]
    refine (hk _ _ hcd).bind fun a b hab => ?_
    exact ih.bind fun as bs h => .ok (.cons hab h)

end Agree

section Lists

variable {α β : Type} {R : α → β → Prop} {l : List α} {l' : List β}

theorem forall₂_getElem? (h : List.Forall₂ R l l') (i : Nat) : Option.Rel R l[i]? l'[i]? := by
  induction h generalizing i with
  | nil => exact .none
  | cons hab _ ih =>
    cases i with
    | zero => exact .some hab
    | succ i => exact ih i

theorem forall₂_set (h : List.Forall₂ R l l') (i : Nat) {a : α} {b : β} (hab : R a b) :
    List.Forall₂ R (l.set i a) (l'.set i b) := by
  induction h generalizing i with
  | nil => exact .nil
  | cons h ht ih =>
    cases i with
    | zero => exact .cons hab ht
    | succ i => exact .cons h (ih i)

theorem forall₂_replicate (n : Nat) {a : α} {b : β} (hab : R a b) :
    List.Forall₂ R (List.replicate n a) (List.replicate n b) := by
  induction n with
  | zero => exact .nil
  | succ n ih => exact .cons hab ih

theorem map_eq_of_forall₂ {γ : Type} {f : α → γ} {g : β → γ} (h : List.Forall₂ R l l')
    (hfg : ∀ a b, R a b → f a = g b) : l.map f = l'.map g := by
  induction h with
  | nil => rfl
  | cons hab _ ih => rw [List.map_cons, List.map_cons, hfg _ _ hab, ih]

theorem exists_of_forall₂_left (h : List.Forall₂ R l l') {a : α} (ha : a ∈ l) :
    ∃ b ∈ l', R a b := by
  induction h with
  | nil => cases ha
  | cons hab _ ih =>
    rcases List.mem_cons.mp ha with rfl | ha
    · exact ⟨_, List.mem_cons_self, hab⟩
    · obtain ⟨b, hb, hr⟩ := ih ha
      exact ⟨b, List.mem_cons_of_mem _ hb, hr⟩

theorem exists_of_forall₂_right (h : List.Forall₂ R l l') {b : β} (hb : b ∈ l') :
    ∃ a ∈ l, R a b := by
  induction h with
  | nil => cases hb
  | cons hab _ ih =>
    rcases List.mem_cons.mp hb with rfl | hb
    · exact ⟨_, List.mem_cons_self, hab⟩
    · obtain ⟨a, ha, hr⟩ := ih hb
      exact ⟨a, List.mem_cons_of_mem _ ha, hr⟩

end Lists

end RegisterMachine
