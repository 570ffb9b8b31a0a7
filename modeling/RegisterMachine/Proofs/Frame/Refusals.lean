import RegisterMachine.Proofs.Frame.Binding

/-!
# Which access of a list fails

Reading a list of registers and writing to one go from left to right and stop at the first access that
fails. What is wrong with an access is said of the frame as it was before all of them: a register is not
there (`Frame.Lacks`), or a value is not one for its bank (`Frame.TurnsDown`), and no write before changes
either. So the error is about the first of the list with which something is wrong (`First`), and where
nothing is wrong with any there is no error: **`Frame.readAll_eq_error_iff`** and
**`Frame.writeAll_eq_error_iff`**.
-/

namespace RegisterMachine

/-- `e` is what is wrong with the first element of a list with which something is wrong. `Wrong` is told the
position of an element as well. -/
def First {α ε : Type} (Wrong : Nat → α → ε → Prop) (l : List α) (e : ε) : Prop :=
  ∃ i a, l[i]? = some a ∧ Wrong i a e ∧ ∀ j b e', j < i → l[j]? = some b → ¬ Wrong j b e'

namespace First

variable {α ε : Type} {Wrong Wrong' : Nat → α → ε → Prop} {l : List α} {a : α} {e e' : ε}

theorem head (h : Wrong 0 a e) : First Wrong (a :: l) e :=
  ⟨0, a, rfl, h, fun j _ _ hj => absurd hj (Nat.not_lt_zero j)⟩

theorem tail (h : First (fun i => Wrong (i + 1)) l e) (ha : ∀ e', ¬ Wrong 0 a e') :
    First Wrong (a :: l) e := by
  obtain ⟨i, b, hi, hb, hbefore⟩ := h
  refine ⟨i + 1, b, hi, hb, ?_⟩
  intro j c e' hj hc
  cases j with
  | zero =>
    rw [List.getElem?_cons_zero, Option.some.injEq] at hc
    exact hc ▸ ha e'
  | succ j => exact hbefore j c e' (Nat.lt_of_succ_lt_succ hj) hc

theorem congr (h : First Wrong l e) (hw : ∀ i a e, Wrong i a e ↔ Wrong' i a e) :
    First Wrong' l e := by
  obtain ⟨i, a, hi, ha, hbefore⟩ := h
  refine ⟨i, a, hi, (hw i a e).mp ha, ?_⟩
  intro j b e' hj hb h'
  exact hbefore j b e' hj hb ((hw j b e').mpr h')

theorem unique (hw : ∀ i a e e', Wrong i a e → Wrong i a e' → e = e') (h : First Wrong l e)
    (h' : First Wrong l e') : e = e' := by
  obtain ⟨i, a, hi, ha, hbefore⟩ := h
  obtain ⟨j, b, hj, hb, hbefore'⟩ := h'
  rcases Nat.lt_trichotomy i j with hlt | rfl | hlt
  · exact absurd ha (hbefore' i a e hlt hi)
  · rw [hi, Option.some.injEq] at hj
    subst hj
    exact hw i a e e' ha hb
  · exact absurd hb (hbefore j b e' hlt hj)

/-- A chain along a list that has gone through where nothing is wrong, and that has else come to an error
about the first of the list, has an error exactly where something is wrong. -/
theorem eq_error_iff {β : Type} {x : Except ε β}
    (hw : ∀ i a e e', Wrong i a e → Wrong i a e' → e = e')
    (hx : Meets (fun _ => ∀ i a e, l[i]? = some a → ¬ Wrong i a e) (First Wrong l) x) :
    x = .error e ↔ First Wrong l e := by
  refine (hx.mono (fun _ hnone e he => ?_) fun _ he => he).eq_error_iff fun _ _ => unique hw
  obtain ⟨i, a, hi, ha, -⟩ := he
  exact hnone i a e hi ha

end First

namespace Frame

variable {f g : Frame} {h : Heap} {r : AnyReg} {v? : Option Value} {e e' : ExecutionError}

/-! ## Reading -/

/-- The frame does not have the register, and `e` says so. -/
def Lacks (f : Frame) (r : AnyReg) (e : ExecutionError) : Prop :=
  ¬ f.Has r.place ∧ e = .invalidRegister (.value r.bank) r.index

theorem Lacks.unique (he : f.Lacks r e) (he' : f.Lacks r e') : e = e' := by
  rw [he.2, he'.2]

theorem get_has (f : Frame) {b : Bank} (r : Reg b) :
    Meets (fun _ => f.Has r.place) (fun e => ¬ f.Has r.place ∧ e = .invalidRegister b r.index)
      (f.get r) := by
  unfold get Registers.get
  cases hx : (f.regs.bank b)[r.index.toNat]? with
  | some x => exact (Array.getElem?_eq_some_iff.mp hx).1
  | none => exact ⟨Nat.not_lt.mpr (Array.getElem?_eq_none_iff.mp hx), rfl⟩

theorem set_has (f : Frame) {b : Bank} (r : Reg b) (x : b.Slot) :
    Meets (fun _ => f.Has r.place) (fun e => ¬ f.Has r.place ∧ e = .invalidRegister b r.index)
      (f.set r x) := by
  unfold set Registers.set
  by_cases hr : r.index.toNat < (f.regs.bank b).size
  · rw [if_pos hr]
    exact hr
  · rw [if_neg hr]
    exact ⟨hr, rfl⟩

theorem readAll_first (f : Frame) (regs : List AnyReg) :
    Meets (fun _ => ∀ (i : Nat) r e, regs[i]? = some r → ¬ f.Lacks r e)
      (First (fun _ r e => f.Lacks r e) regs) (f.readAll regs) := by
  induction regs with
  | nil =>
    intro i r e hi
    simp at hi
  | cons r rest ih =>
    rw [readAll, List.mapM_cons]
    have hread : Meets (fun _ => f.Has r.place) (f.Lacks r) (f.read r) := (f.get_has r.reg).map fun _ hx => hx
    refine (hread.mono (fun _ hx => hx) fun e he => First.head he).bind fun v hv => ?_
    refine (ih.mono (fun _ hx => hx) fun e he => he.tail fun e' he' => he'.1 hv).bind fun vs hvs => ?_
    intro i s e hi
    cases i with
    | zero =>
      rw [List.getElem?_cons_zero, Option.some.injEq] at hi
      exact fun he => he.1 (hi ▸ hv)
    | succ i => exact hvs i s e hi

/-- **Reading fails at the first register that is not there.** -/
theorem readAll_eq_error_iff {regs : List AnyReg} :
    f.readAll regs = .error e ↔ First (fun _ r e => f.Lacks r e) regs e :=
  First.eq_error_iff (fun _ _ _ _ => Lacks.unique) (f.readAll_first regs)

/-! ## Writing -/

/-- A register cannot be given a value, or its default where there is no value for it. The kind of the value
is looked at first. -/
inductive TurnsDown (f : Frame) (h : Heap) (r : AnyReg) : Option Value → ExecutionError → Prop
  | kind {v : Value} (hv : ¬ (Bank.value r.bank).Fits v) :
      TurnsDown f h r (some v) (.typeMismatch (.bank r.bank) (h.tag v))
  | missing {v? : Option Value} (hv : ∀ v, v? = some v → (Bank.value r.bank).Fits v)
      (hr : ¬ f.Has r.place) : TurnsDown f h r v? (.invalidRegister (.value r.bank) r.index)

theorem TurnsDown.unique (he : f.TurnsDown h r v? e) (he' : f.TurnsDown h r v? e') : e = e' := by
  cases he with
  | kind hv =>
    cases he' with
    | kind => rfl
    | missing hv' => exact absurd (hv' _ rfl) hv
  | missing hv =>
    cases he' with
    | kind hv' => exact absurd (hv _ rfl) hv'
    | missing => rfl

theorem TurnsDown.mono (he : f.TurnsDown h r v? e) (hg : g.Has r.place → f.Has r.place) :
    g.TurnsDown h r v? e := by
  cases he with
  | kind hv => exact .kind hv
  | missing hv hr => exact .missing hv fun hhas => hr (hg hhas)

/-- Frames of one shape turn down the same. -/
theorem AgreesOff.turnsDown_iff {ps : List Place} (hg : f.AgreesOff ps g) :
    g.TurnsDown h r v? e ↔ f.TurnsDown h r v? e :=
  ⟨fun he => he.mono (hg.has_iff _).mpr, fun he => he.mono (hg.has_iff _).mp⟩

theorem not_turnsDown (hv : ∀ v, v? = some v → (Bank.value r.bank).Fits v) (hr : f.Has r.place) :
    ¬ f.TurnsDown h r v? e := by
  intro he
  cases he with
  | kind hv' => exact hv' (hv _ rfl)
  | missing _ hr' => exact hr' hr

/-- A register is given a value, or its default, or it cannot be given it. -/
theorem put_meets (h : Heap) (f : Frame) (r : AnyReg) (v? : Option Value) :
    Meets (fun g => (∀ e, ¬ f.TurnsDown h r v? e) ∧ f.AgreesOff [r.place] g) (f.TurnsDown h r v?)
      (match v? with
        | some v => f.write h r v
        | none => f.writeDefault r) := by
  have hset (x : (Bank.value r.bank).Slot) (hv : ∀ v, v? = some v → (Bank.value r.bank).Fits v) :
      Meets (fun g => (∀ e, ¬ f.TurnsDown h r v? e) ∧ f.AgreesOff [r.place] g) (f.TurnsDown h r v?)
        (f.set r.reg x) := by
    refine .intro (fun g hg => ⟨fun e => ?_, ((f.set_meets r.reg x).of_ok hg).1⟩) fun e he => ?_
    · exact not_turnsDown hv ((f.set_has r.reg x).of_ok hg)
    · obtain ⟨hr, rfl⟩ := (f.set_has r.reg x).of_error he
      exact .missing hv hr
  cases v? with
  | none => exact hset r.bank.default nofun
  | some v =>
    dsimp only
    unfold write
    cases hx : r.bank.ofValue? v with
    | none => exact .kind fun hv => by simp [← isSome_ofValue?_iff, hx] at hv
    | some x =>
      refine hset x ?_
      rintro u ⟨⟩
      exact isSome_ofValue?_iff.mp (Option.isSome_of_eq_some hx)

theorem writeAll_first (h : Heap) (regs : List AnyReg) (values : List Value) (f : Frame) :
    Meets (fun _ => ∀ (i : Nat) r e, regs[i]? = some r → ¬ f.TurnsDown h r values[i]? e)
      (First (fun i r e => f.TurnsDown h r values[i]? e) regs) (f.writeAll h regs values) := by
  induction regs generalizing f values with
  | nil =>
    intro i r e hi
    simp at hi
  | cons r rest ih =>
    have hzero : values[0]? = values.head? := List.head?_eq_getElem?.symm
    have hsucc (i : Nat) : values.tail[i]? = values[i + 1]? := List.getElem?_tail
    rw [writeAll_cons]
    refine ((put_meets h f r values.head?).mono (fun _ hx => hx) fun e he => ?_).bind fun g hg => ?_
    · refine First.head ?_
      rw [hzero]
      exact he
    -- what is wrong with the rest is the same in the frame that has been written to
    have hsame (i : Nat) (s : AnyReg) (e : ExecutionError) :
        g.TurnsDown h s values.tail[i]? e ↔ f.TurnsDown h s values[i + 1]? e := by
      rw [hsucc]
      exact hg.2.turnsDown_iff
    refine (ih values.tail g).mono (fun k hk => ?_) fun e he => ?_
    · intro i s e hi
      cases i with
      | zero =>
        rw [List.getElem?_cons_zero, Option.some.injEq] at hi
        rw [hzero, ← hi]
        exact hg.1 e
      | succ i => exact fun he => hk i s e hi ((hsame i s e).mpr he)
    · refine (he.congr hsame).tail fun e' he' => ?_
      rw [hzero] at he'
      exact hg.1 e' he'

/-- **Writing fails at the first register that cannot be given what it is due.** -/
theorem writeAll_eq_error_iff {regs : List AnyReg} {values : List Value} :
    f.writeAll h regs values = .error e ↔ First (fun i r e => f.TurnsDown h r values[i]? e) regs e :=
  First.eq_error_iff (fun _ _ _ _ => TurnsDown.unique) (writeAll_first h regs values f)

end Frame

end RegisterMachine
