import RegisterMachine.Proofs.Checked.Frames

/-!
# What binding arguments comes to

A fresh frame takes a list of arguments or it does not, and both are said here without a word about the
counters that go along. It takes them where every argument fits its bank and no bank is given more than it
has registers (`RegisterShape.Accepts`); the registers of a bank then hold the arguments for it in the order
they were given, and whatever is left over its default (`Frame.Handed`). Otherwise there is a first argument
that cannot be taken, and the error is about that one (`RegisterShape.Stops`): about its kind, or else about
the register that the bank does not have, whose number is the number of arguments for the bank before it.

The one induction is `Frame.bindFrom_handed`. Its invariant is that the counter of a bank stands at the number
of arguments that the bank has been given; **`Frame.exists_bind_iff`**, **`Frame.bind_eq_error_iff`** and
**`Frame.Handed.of_bind`** are read off it. The registers that a call reads its arguments from give values that
fit their banks, and so does placing values by nature: with these only room can be wanting
(`RegisterShape.Stops.wantsRoom`).
-/

namespace RegisterMachine

/-- The error is that a bank does not have so many registers. -/
def ExecutionError.WantsRoom (e : ExecutionError) : Prop := ∃ b i, e = .invalidRegister (.value b) i

/-! ## Arguments, bank by bank -/

/-- The values that are given for a bank, in the order they are given. -/
def argsFor (args : List (Bank × Value)) (b : ValueBank) : List Value :=
  (args.filter fun a => a.1 = .value b).map Prod.snd

/-- The values that the registers of a bank can hold. References can be to anything, and no value is an
iterator. -/
def Bank.Fits : Bank → Value → Prop
  | .value b, v => b = .ref ∨ b = .natural v
  | .iter, _ => False

section

variable {args rest : List (Bank × Value)} {a : Bank × Value} {b c : ValueBank} {v : Value}

theorem isSome_ofValue?_iff : (b.ofValue? v).isSome ↔ (Bank.value b).Fits v := by
  cases b <;> cases v <;> simp [ValueBank.ofValue?, ValueBank.natural, Bank.Fits]

@[simp] theorem argsFor_nil : argsFor [] b = [] := rfl

theorem argsFor_append : argsFor (args ++ rest) b = argsFor args b ++ argsFor rest b := by
  simp [argsFor]

theorem argsFor_snoc_self : argsFor (args ++ [(.value b, v)]) b = argsFor args b ++ [v] := by
  simp [argsFor]

theorem argsFor_snoc_of_ne (h : c ≠ b) : argsFor (args ++ [(.value b, v)]) c = argsFor args c := by
  simp [argsFor, h.symm]

end

namespace RegisterShape

variable {shape : RegisterShape} {h : Heap} {args before before' after : List (Bank × Value)}
  {a a' : Bank × Value} {b : ValueBank} {v : Value} {e e' : ExecutionError}

/-- Every argument fits its bank, and there is a register for each. -/
structure Accepts (shape : RegisterShape) (args : List (Bank × Value)) : Prop where
  fits : ∀ a ∈ args, a.1.Fits a.2
  room : ∀ b : ValueBank, (argsFor args b).length ≤ (shape.count (.value b)).toNat

/-- What is wrong with an argument, given those that were taken before it. Its kind is looked at first. -/
inductive Refuses (shape : RegisterShape) (h : Heap) (before : List (Bank × Value)) :
    Bank × Value → ExecutionError → Prop
  | iterator {v : Value} : Refuses shape h before (.iter, v) (.typeMismatch .value (h.tag v))
  | kind {b : ValueBank} {v : Value} (hv : ¬ (Bank.value b).Fits v) :
      Refuses shape h before (.value b, v) (.typeMismatch (.bank b) (h.tag v))
  | room {b : ValueBank} {v : Value} {i : UInt16} (hv : (Bank.value b).Fits v)
      (hi : i.toNat = (argsFor before b).length) (hfull : shape.count (.value b) ≤ i) :
      Refuses shape h before (.value b, v) (.invalidRegister (.value b) i)

/-- The first argument that cannot be taken is what the error is about. -/
def Stops (shape : RegisterShape) (h : Heap) (args : List (Bank × Value)) (e : ExecutionError) : Prop :=
  ∃ before a after, args = before ++ a :: after ∧ shape.Accepts before ∧ shape.Refuses h before a e

theorem Accepts.nil : shape.Accepts [] := ⟨by simp, by simp⟩

theorem Accepts.of_append (ha : shape.Accepts (before ++ after)) : shape.Accepts before where
  fits a hm := ha.fits a (List.mem_append_left after hm)
  room b := by
    have hb := ha.room b
    rw [argsFor_append, List.length_append] at hb
    exact Nat.le_of_add_right_le hb

/-- One argument more, where the bank has a register that is not yet taken. -/
theorem Accepts.snoc (ha : shape.Accepts before) (hv : (Bank.value b).Fits v)
    (hroom : (argsFor before b).length < (shape.count (.value b)).toNat) :
    shape.Accepts (before ++ [(.value b, v)]) where
  fits a hm := by
    rcases List.mem_append.mp hm with hm | hm
    · exact ha.fits a hm
    · rw [List.mem_singleton.mp hm]
      exact hv
  room c := by
    by_cases hc : c = b
    · subst hc
      rw [argsFor_snoc_self, List.length_append]
      exact hroom
    · rw [argsFor_snoc_of_ne hc]
      exact ha.room c

/-- An argument that is refused cannot be taken after all. -/
theorem Refuses.not_accepts (hr : shape.Refuses h before a e) :
    ¬ shape.Accepts (before ++ a :: after) := by
  intro ha
  have hfits := ha.fits a (by simp)
  cases hr with
  | iterator => exact hfits
  | kind hv => exact hv hfits
  | @room b v i _ hi hfull =>
    have hroom := (List.append_cons before _ after ▸ ha).of_append.room b
    rw [argsFor_snoc_self, List.length_append, ← hi] at hroom
    exact absurd (UInt16.le_iff_toNat_le.mp hfull) (Nat.not_le.mpr hroom)

theorem Refuses.unique (hr : shape.Refuses h before a e) (hr' : shape.Refuses h before a e') :
    e = e' := by
  cases hr with
  | iterator => cases hr' with
    | iterator => rfl
  | kind hv => cases hr' with
    | kind => rfl
    | room hv' => exact absurd hv' hv
  | room hv hi => cases hr' with
    | kind hv' => exact absurd hv hv'
    | room _ hi' => rw [UInt16.toNat_inj.mp (hi.trans hi'.symm)]

theorem Stops.not_accepts (hs : shape.Stops h args e) : ¬ shape.Accepts args := by
  obtain ⟨before, a, after, rfl, -, hr⟩ := hs
  exact hr.not_accepts

/-- An argument that cannot be taken comes no earlier than another one: what came before that one has
been taken. -/
theorem Refuses.prefix_of_accepts (hr : shape.Refuses h before a e) (ha : shape.Accepts before')
    (heq : before ++ a :: after = before' ++ rest) : before' <+: before := by
  rcases List.append_eq_append_iff.mp heq with ⟨as, rfl, has⟩ | ⟨bs, rfl, -⟩
  · cases as with
    | nil => simp
    | cons c cs =>
      cases has
      exact absurd ha hr.not_accepts
  · exact List.prefix_append before' bs

theorem Stops.unique (hs : shape.Stops h args e) (hs' : shape.Stops h args e') : e = e' := by
  obtain ⟨before, a, after, rfl, ha, hr⟩ := hs
  obtain ⟨before', a', after', heq, ha', hr'⟩ := hs'
  have hb : before = before' :=
    ((hr'.prefix_of_accepts ha heq.symm).eq_of_length_le
      (hr.prefix_of_accepts ha' heq).length_le)
  subst hb
  cases List.append_cancel_left heq
  exact hr.unique hr'

/-- Where every argument fits its bank, only room can be wanting. -/
theorem Stops.wantsRoom (hs : shape.Stops h args e) (hfits : ∀ a ∈ args, a.1.Fits a.2) : e.WantsRoom := by
  obtain ⟨before, a, after, rfl, -, hr⟩ := hs
  have ha := hfits a (by simp)
  cases hr with
  | iterator => exact absurd ha id
  | kind hv => exact absurd ha hv
  | @room b v i => exact ⟨b, i, rfl⟩

end RegisterShape

namespace Frame

variable {f g : Frame} {shape : RegisterShape} {args before : List (Bank × Value)} {h : Heap}

/-! ## The frame -/

/-- The registers are those of a shape that has been given some arguments and nothing else: each of a
bank's holds the argument that is due to it, or its default, and there is no iterator. -/
structure Handed (shape : RegisterShape) (args : List (Bank × Value)) (f : Frame) : Prop where
  value (r : AnyReg) : f.read r =
    if r.index < shape.count (.value r.bank) then .ok (due (argsFor args r.bank) r.index.toNat r)
    else .error (.invalidRegister (.value r.bank) r.index)
  iterator (r : IterReg) : f.get r =
    if r.index < shape.count .iter then .ok none else .error (.invalidRegister .iter r.index)

theorem get_of_replicate {b : Bank} {n : Nat} {x : b.Slot}
    (hbank : f.regs.bank b = Array.replicate n x) (r : Reg b) :
    f.get r = if r.index.toNat < n then .ok x else .error (.invalidRegister b r.index) := by
  rw [get, Registers.get, hbank, Array.getElem?_replicate]
  by_cases hlt : r.index.toNat < n
  · rw [if_pos hlt, if_pos hlt]
  · rw [if_neg hlt, if_neg hlt]

/-- A frame that has been given nothing. -/
theorem Handed.start (id : FunctionId) (w : WorkerInfo) :
    (Frame.start id w).Handed w.registers [] where
  value r := by
    have hbank : (Frame.start id w).regs.bank (.value r.bank) =
        Array.replicate (w.registers.count (.value r.bank)).toNat r.bank.default := by
      cases r.bank <;> rfl
    rw [read, get_of_replicate hbank]
    exact apply_ite (Except.map r.bank.toValue) _ _ _
  iterator r := get_of_replicate rfl r

/-- The registers are all that matters. -/
theorem Handed.congr (hf : f.Handed shape args) (hg : g.regs = f.regs) : g.Handed shape args where
  value r := by
    have hr := hf.value r
    rw [read, get] at hr ⊢
    rw [hg, hr]
  iterator r := by
    have hr := hf.iterator r
    rw [get] at hr ⊢
    rw [hg, hr]

/-- The next argument for a bank goes to the register that is as many along as there were arguments for
the bank before. -/
theorem Handed.snoc (hf : f.Handed shape before) {b : ValueBank} {i : UInt16} {v : Value}
    (hi : i.toNat = (argsFor before b).length) (hroom : i < shape.count (.value b))
    (hg : f.AgreesOff [(AnyReg.mk b i).place] g) (hread : g.read ⟨b, i⟩ = .ok v) :
    g.Handed shape (before ++ [(.value b, v)]) where
  value r := by
    by_cases hr : r = ⟨b, i⟩
    · subst hr
      rw [hread, if_pos hroom, due, argsFor_snoc_self, hi]
      simp
    · rw [hg.read fun hm => hr (AnyReg.place_injective (List.mem_singleton.mp hm)), hf.value r]
      obtain ⟨c, j⟩ := r
      by_cases hc : c = b
      · subst hc
        -- the values before keep their numbers, and the new one is the only one with its own
        have hj : j.toNat ≠ (argsFor before c).length := fun he =>
          hr (by rw [UInt16.toNat_inj.mp (he.trans hi.symm)])
        have hsame : (argsFor before c ++ [v])[j.toNat]? = (argsFor before c)[j.toNat]? := by
          rcases Nat.lt_or_gt_of_ne hj with hlt | hgt
          · rw [List.getElem?_append_left hlt]
          · rw [List.getElem?_eq_none (Nat.le_of_lt hgt), List.getElem?_eq_none (by simpa using Nat.succ_le_of_lt hgt)]
        simp only [due, argsFor_snoc_self, hsame]
      · simp only [due, argsFor_snoc_of_ne hc]
  iterator r := by
    have hr : r.place ∉ [(AnyReg.mk b i).place] := by
      intro hm
      cases congrArg Prod.fst (List.mem_singleton.mp hm)
    rw [hg.get hr, hf.iterator r]

/-! ## Binding -/

/-- A register that is next takes a value or refuses it. -/
theorem write_next (hs : f.Shaped shape) (h : Heap) {b : ValueBank} {i : UInt16}
    (hi : i.toNat = (argsFor before b).length) (v : Value) :
    Meets (fun g => ((Bank.value b).Fits v ∧ i < shape.count (.value b)) ∧
        f.AgreesOff [(AnyReg.mk b i).place] g ∧ g.ip = f.ip ∧ g.read ⟨b, i⟩ = .ok v)
      (fun e => shape.Refuses h before (.value b, v) e) (f.write h ⟨b, i⟩ v) := by
  refine .intro (fun g hg => ⟨?_, (f.write_meets h ⟨b, i⟩ v).of_ok hg⟩) fun e he => ?_
  · have hhas := (hs.has_iff _).mp ((f.write_has h ⟨b, i⟩ v).of_ok hg)
    refine ⟨isSome_ofValue?_iff.mp ?_, UInt16.lt_iff_toNat_lt.mpr hhas⟩
    cases hv : b.ofValue? v with
    | some x => rfl
    | none =>
      rw [write, hv] at hg
      cases hg
  · rw [write] at he
    cases hv : b.ofValue? v with
    | none =>
      rw [hv] at he
      cases he
      exact .kind fun hfits => by simp [← isSome_ofValue?_iff, hv] at hfits
    | some x =>
      have hfits := isSome_ofValue?_iff.mp (Option.isSome_of_eq_some hv)
      rw [hv] at he
      dsimp only [set, Registers.set] at he
      split at he
      · cases he
      · rename_i hfull
        cases he
        have hle : (shape.count (.value b)).toNat ≤ i.toNat := hs (.value b) ▸ Nat.le_of_not_lt hfull
        exact .room hfits hi (UInt16.le_iff_toNat_le.mpr hle)

theorem bound_bindFrom_cons (h : Heap) (next : ValueBank → UInt16) (f : Frame) (b : ValueBank)
    (v : Value) (rest : List (Bank × Value)) :
    bound (f.bindFrom h next ((.value b, v) :: rest)) =
      f.write h ⟨b, next b⟩ v >>= fun g =>
        bound (g.bindFrom h (fun c => if c = b then next c + 1 else next c) rest) := by
  rw [bindFrom]
  cases f.write h ⟨b, next b⟩ v <;> rfl

/-- On with the rest of a list, of which the frame has been given what came before. The counter of each
bank stands at the number of arguments that the bank has been given. -/
theorem bindFrom_handed (h : Heap) (rest before : List (Bank × Value)) {next : ValueBank → UInt16}
    {f : Frame} (hs : f.Shaped shape) (hf : f.Handed shape before) (ha : shape.Accepts before)
    (hnext : ∀ b, (next b).toNat = (argsFor before b).length) :
    Meets (fun g => shape.Accepts (before ++ rest) ∧ g.Handed shape (before ++ rest) ∧
        g = { f with regs := g.regs })
      (shape.Stops h (before ++ rest)) (bound (f.bindFrom h next rest)) := by
  induction rest generalizing before next f with
  | nil =>
    rw [List.append_nil]
    exact ⟨ha, hf, rfl⟩
  | cons a rest ih =>
    obtain ⟨b, v⟩ := a
    cases b with
    | iter => exact ⟨before, _, rest, rfl, ha, .iterator⟩
    | value b =>
      rw [bound_bindFrom_cons]
      refine ((write_next hs h (hnext b) v).mono (fun _ hg => hg) fun e he => ?_).bind fun g hg => ?_
      · exact ⟨before, _, rest, rfl, ha, he⟩
      obtain ⟨⟨hfits, hroom⟩, hagree, hip, hread⟩ := hg
      have hlt : (argsFor before b).length < (shape.count (.value b)).toNat :=
        hnext b ▸ UInt16.lt_iff_toNat_lt.mp hroom
      have hcount : ∀ c, (if c = b then next c + 1 else next c).toNat =
          (argsFor (before ++ [(.value b, v)]) c).length := by
        intro c
        by_cases hc : c = b
        · subst hc
          -- a register is left, so the counter is below the size of its bank and does not wrap
          have hbank : (shape.count (.value c)).toNat < 2 ^ 16 := UInt16.toNat_lt _
          rw [if_pos rfl, argsFor_snoc_self, List.length_append, UInt16.toNat_add, hnext,
            UInt16.toNat_one, Nat.mod_eq_of_lt (by omega)]
          rfl
        · rw [if_neg hc, argsFor_snoc_of_ne hc, hnext]
      have hgo := ih (before ++ [(.value b, v)]) (hs.of_agreesOff hagree)
        (hf.snoc (hnext b) hroom hagree hread) (ha.snoc hfits hlt) hcount
      rw [← List.append_cons] at hgo
      refine hgo.mono (fun k hk => ⟨hk.1, hk.2.1, ?_⟩) fun _ he => he
      rw [hk.2.2, hagree.rest, hip]

theorem bind_handed (h : Heap) (hs : f.Shaped shape) (hf : f.Handed shape [])
    (args : List (Bank × Value)) :
    Meets (fun g => shape.Accepts args ∧ g.Handed shape args ∧ g = { f with regs := g.regs })
      (shape.Stops h args) (f.bind h args) := by
  rw [bind_eq_bound]
  exact bindFrom_handed h args [] hs hf .nil fun _ => rfl

section

variable (hs : f.Shaped shape) (hf : f.Handed shape [])

include hs hf

theorem exists_bind_iff : (∃ g, f.bind h args = .ok g) ↔ shape.Accepts args := by
  constructor
  · rintro ⟨g, hg⟩
    exact ((bind_handed h hs hf args).of_ok hg).1
  · intro ha
    cases hb : f.bind h args with
    | ok g => exact ⟨g, rfl⟩
    | error e => exact absurd ha ((bind_handed h hs hf args).of_error hb).not_accepts

theorem bind_eq_error_iff {e : ExecutionError} :
    f.bind h args = .error e ↔ shape.Stops h args e := by
  refine Meets.eq_error_iff ?_ fun _ _ => RegisterShape.Stops.unique
  exact (bind_handed h hs hf args).mono (fun _ hg _ he => he.not_accepts hg.1) fun _ he => he

/-- What a frame that has taken its arguments holds. -/
theorem Handed.of_bind (hb : f.bind h args = .ok g) :
    g.Handed shape args ∧ g = { f with regs := g.regs } :=
  ((bind_handed h hs hf args).of_ok hb).2

end

/-! ## Arguments that fit -/

theorem bind_wantsRoom (hs : f.Shaped shape) (hf : f.Handed shape []) (hfits : ∀ a ∈ args, a.1.Fits a.2) :
    Meets (fun _ => True) ExecutionError.WantsRoom (f.bind h args) :=
  (bind_handed h hs hf args).mono (fun _ _ => trivial) fun _ he => he.wantsRoom hfits

/-- What a register holds is a value that its bank can hold. -/
theorem fits_of_read {r : AnyReg} {v : Value} (h : f.read r = .ok v) : (Bank.value r.bank).Fits v := by
  rw [read] at h
  cases hx : f.get r.reg with
  | error e =>
    rw [hx] at h
    cases h
  | ok x =>
    rw [hx] at h
    cases h
    obtain ⟨b, i⟩ := r
    cases b with
    | ref => exact .inl rfl
    | _ => exact .inr rfl

theorem fits_of_readAll {regs : List AnyReg} {values : List Value}
    (h : f.readAll regs = .ok values) :
    ∀ a ∈ (regs.map fun r => Bank.value r.bank).zip values, a.1.Fits a.2 := by
  have hread := forall₂_of_mapM_eq_ok h
  clear h
  induction hread with
  | nil => simp
  | cons hr _ ih =>
    rw [List.map_cons, List.zip_cons_cons]
    intro a ha
    rcases List.mem_cons.mp ha with rfl | ha
    · exact fits_of_read hr
    · exact ih a ha

theorem fits_naturalArgs (values : List Value) : ∀ a ∈ naturalArgs values, a.1.Fits a.2 := by
  intro a ha
  obtain ⟨v, -, rfl⟩ := List.mem_map.mp ha
  exact .inr rfl

end Frame

end RegisterMachine
