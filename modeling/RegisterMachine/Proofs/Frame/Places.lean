import RegisterMachine.Frame.Basic
import RegisterMachine.Proofs.Meets

/-!
# Places of a frame, and what a write leaves alone

A **place** is one register of one bank. Every access to a frame names the places it touches, and
two facts about an access are all that later arguments use:

* what it changes — `Frame.AgreesOff f ps g` says that `g` is `f` but for the next instruction and
  the registers at `ps`, and in particular that no bank has grown or shrunk;
* what it can go wrong with — `Frame.Blames f ps e` says that `e`, should it be fatal, names a place
  among `ps` that the frame does not have.

The accesses of `Frame.Basic` come below, one lemma each, with both facts in a `Meets`. Nothing after
this file looks inside a bank.
-/

namespace RegisterMachine

/-- One register of one bank. -/
abbrev Place := Bank × Nat

def Reg.place {b : Bank} (r : Reg b) : Place := (b, r.index.toNat)

def AnyReg.place (r : AnyReg) : Place := (.value r.bank, r.index.toNat)

theorem AnyReg.place_injective {r s : AnyReg} (h : r.place = s.place) : r = s := by
  obtain ⟨b, i⟩ := r
  obtain ⟨c, j⟩ := s
  simp only [AnyReg.place, Prod.mk.injEq, Bank.value.injEq] at h
  obtain ⟨rfl, hij⟩ := h
  rw [UInt16.toNat_inj.mp hij]

/-- A register that is not listed is at no place that is listed. -/
theorem AnyReg.place_notMem {r : AnyReg} {rs : List AnyReg} (h : r ∉ rs) :
    r.place ∉ rs.map AnyReg.place := by
  intro hm
  obtain ⟨s, hs, he⟩ := List.mem_map.mp hm
  exact h (AnyReg.place_injective he ▸ hs)

/-- What a register of the bank holds before anything is written to it, as a value. -/
def ValueBank.defaultValue (b : ValueBank) : Value := b.toValue b.default

/-! ## Banks -/

namespace Registers

theorem bank_modify_size (regs : Registers) (b c : Bank) (f : Array b.Slot → Array b.Slot)
    (hf : ∀ a, (f a).size = a.size) : ((regs.modify b f).bank c).size = (regs.bank c).size := by
  by_cases h : c = b
  · subst h
    rw [bank_modify_self, hf]
  · rw [bank_modify_of_ne _ h]

/-- Writing one slot leaves every other place as it was, in the same bank or another. -/
theorem slot_modify_of_ne (regs : Registers) {b : Bank} {i : Nat} (x : b.Slot) {p : Place}
    (hp : p ≠ (b, i)) :
    ((regs.modify b fun slots => slots.setIfInBounds i x).bank p.1)[p.2]? = (regs.bank p.1)[p.2]? := by
  obtain ⟨c, j⟩ := p
  by_cases h : c = b
  · subst h
    have hij : i ≠ j := fun e => hp (by rw [e])
    rw [bank_modify_self]
    simp [hij]
  · rw [bank_modify_of_ne _ h]

end Registers

/-! ## Frames that agree -/

namespace Frame

/-- The frame has moved past the instruction it was at. -/
abbrev past (f : Frame) : Frame := { f with ip := f.ip + 1 }

/-- The frame has the place. -/
def Has (f : Frame) (p : Place) : Prop := p.2 < (f.regs.bank p.1).size

/-- `g` is `f` but for the next instruction and the registers at `places`. -/
structure AgreesOff (f : Frame) (places : List Place) (g : Frame) : Prop where
  /-- Nothing but the next instruction and the registers differs at all. -/
  rest : g = { f with ip := g.ip, regs := g.regs }
  size (b : Bank) : (g.regs.bank b).size = (f.regs.bank b).size
  slot (p : Place) : p ∉ places → (g.regs.bank p.1)[p.2]? = (f.regs.bank p.1)[p.2]?

/-- A fatal error is about a register that is named at `places` and is not there. -/
def Blames (f : Frame) (places : List Place) (e : ExecutionError) : Prop :=
  e.isFatal = true → ∃ b i, e = .invalidRegister b i ∧ (b, i.toNat) ∈ places ∧ ¬ f.Has (b, i.toNat)

namespace AgreesOff

variable {f g k : Frame} {ps qs : List Place}

theorem refl (f : Frame) : f.AgreesOff ps f := ⟨rfl, fun _ => rfl, fun _ _ => rfl⟩

/-- Moving the next instruction is no change of a frame. -/
theorem jump (f : Frame) (ip : Nat) : f.AgreesOff ps { f with ip } :=
  ⟨rfl, fun _ => rfl, fun _ _ => rfl⟩

theorem past (f : Frame) : f.AgreesOff [] f.past := jump f (f.ip + 1)

theorem of_jump {ip : Nat} (h : ({ f with ip } : Frame).AgreesOff ps g) : f.AgreesOff ps g :=
  ⟨h.rest, h.size, h.slot⟩

theorem trans (h : f.AgreesOff ps g) (h' : g.AgreesOff qs k) : f.AgreesOff (ps ++ qs) k where
  rest := by rw [h'.rest, h.rest]
  size b := (h'.size b).trans (h.size b)
  slot p hp := by
    simp only [List.mem_append, not_or] at hp
    exact (h'.slot p hp.2).trans (h.slot p hp.1)

theorem mono (h : f.AgreesOff ps g) (hs : ps ⊆ qs) : f.AgreesOff qs g :=
  ⟨h.rest, h.size, fun p hp => h.slot p fun hm => hp (hs hm)⟩

theorem has_iff (h : f.AgreesOff ps g) (p : Place) : g.Has p ↔ f.Has p := by
  unfold Has
  rw [h.size]

theorem function (h : f.AgreesOff ps g) : g.function = f.function := by rw [h.rest]

theorem returnTo (h : f.AgreesOff ps g) : g.returnTo = f.returnTo := by rw [h.rest]

theorem rets (h : f.AgreesOff ps g) : g.rets = f.rets := by rw [h.rest]

/-- A register off the places holds the same. -/
theorem get (h : f.AgreesOff ps g) {b : Bank} {r : Reg b} (hr : r.place ∉ ps) : g.get r = f.get r := by
  have hs : (g.regs.bank b)[r.index.toNat]? = (f.regs.bank b)[r.index.toNat]? := h.slot r.place hr
  unfold Frame.get Registers.get
  rw [hs]

theorem read (h : f.AgreesOff ps g) {r : AnyReg} (hr : r.place ∉ ps) : g.read r = f.read r :=
  congrArg (Except.map r.bank.toValue) (h.get (r := r.reg) hr)

end AgreesOff

namespace Blames

variable {f g : Frame} {ps qs : List Place} {e : ExecutionError}

theorem mono (h : f.Blames ps e) (hs : ps ⊆ qs) : f.Blames qs e := by
  intro hf
  obtain ⟨b, i, he, hm, hh⟩ := h hf
  exact ⟨b, i, he, hs hm, hh⟩

/-- An error that is not fatal blames nothing. -/
theorem of_not_fatal (h : e.isFatal = false) : f.Blames ps e := by
  intro hf
  rw [h] at hf
  exact absurd hf (by simp)

/-- Frames of one shape are to blame for the same. -/
theorem of_agreesOff (hg : f.AgreesOff qs g) (h : g.Blames ps e) : f.Blames ps e := by
  intro hf
  obtain ⟨b, i, he, hm, hh⟩ := h hf
  exact ⟨b, i, he, hm, fun hp => hh ((hg.has_iff _).mpr hp)⟩

/-- Where every place is there, no error is fatal. -/
theorem not_fatal (h : f.Blames ps e) (hp : ∀ p ∈ ps, f.Has p) : e.isFatal = false := by
  cases hf : e.isFatal with
  | false => rfl
  | true =>
    obtain ⟨b, i, -, hm, hh⟩ := h hf
    exact absurd (hp _ hm) hh

end Blames

/-! ## One register -/

theorem get_meets (f : Frame) {b : Bank} (r : Reg b) :
    Meets (fun x => (f.regs.bank b)[r.place.2]? = some x) (f.Blames [r.place]) (f.get r) := by
  unfold get Registers.get
  cases h : (f.regs.bank b)[r.index.toNat]? with
  | some x => exact h
  | none =>
    intro _
    refine ⟨b, r.index, rfl, List.mem_singleton.mpr rfl, fun hp => ?_⟩
    exact absurd hp (Nat.not_lt.mpr (Array.getElem?_eq_none_iff.mp h))

theorem set_meets (f : Frame) {b : Bank} (r : Reg b) (x : b.Slot) :
    Meets (fun g => f.AgreesOff [r.place] g ∧ g.ip = f.ip ∧ g.get r = .ok x) (f.Blames [r.place])
      (f.set r x) := by
  unfold set Registers.set
  by_cases h : r.index.toNat < (f.regs.bank b).size
  · rw [if_pos h]
    refine ⟨⟨rfl, fun c => ?_, fun p hp => ?_⟩, rfl, ?_⟩
    · exact f.regs.bank_modify_size b c _ fun a => Array.size_setIfInBounds
    · exact f.regs.slot_modify_of_ne x fun e => hp (List.mem_singleton.mpr e)
    · simp [get, Registers.get, Registers.bank_modify_self, h]
  · rw [if_neg h]
    exact fun _ => ⟨b, r.index, rfl, List.mem_singleton.mpr rfl, h⟩

/-- An iterator register can be there and still hold no iterator, which is not fatal. -/
theorem iterator_meets (f : Frame) (r : IterReg) :
    Meets (fun _ => True) (f.Blames [r.place]) (f.iterator r) := by
  refine (f.get_meets r).bind fun it _ => ?_
  cases it with
  | some it => exact trivial
  | none => exact Blames.of_not_fatal rfl

theorem read_meets (f : Frame) (r : AnyReg) :
    Meets (fun _ => True) (f.Blames [r.place]) (f.read r) :=
  (f.get_meets r.reg).map fun _ _ => trivial

theorem writeDefault_meets (f : Frame) (r : AnyReg) :
    Meets (fun g => f.AgreesOff [r.place] g ∧ g.ip = f.ip ∧ g.read r = .ok r.bank.defaultValue)
      (f.Blames [r.place]) (f.writeDefault r) := by
  refine (f.set_meets r.reg r.bank.default).mono (fun g hg => ⟨hg.1, hg.2.1, ?_⟩) fun _ he => he
  rw [read, hg.2.2]
  rfl

/-- A value of the wrong bank is turned down without any harm; one of the right bank reads back as
it was written. -/
theorem write_meets (h : Heap) (f : Frame) (r : AnyReg) (v : Value) :
    Meets (fun g => f.AgreesOff [r.place] g ∧ g.ip = f.ip ∧ g.read r = .ok v) (f.Blames [r.place])
      (f.write h r v) := by
  unfold write
  cases hx : r.bank.ofValue? v with
  | none => exact Blames.of_not_fatal rfl
  | some x =>
    refine (f.set_meets r.reg x).mono (fun g hg => ⟨hg.1, hg.2.1, ?_⟩) fun _ he => he
    rw [read, hg.2.2]
    exact congrArg Except.ok (ValueBank.toValue_of_ofValue? hx)

/-! ## Lists of registers -/

theorem readAll_meets (f : Frame) (rs : List AnyReg) :
    Meets (fun values => values.length = rs.length) (f.Blames (rs.map AnyReg.place))
      (f.readAll rs) := by
  refine (Meets.mapM (P := fun _ => True) fun r hr => ?_).mono (fun _ hv => hv.1) fun _ he => he
  refine (f.read_meets r).mono (fun _ h => h) fun e he => he.mono ?_
  exact List.cons_subset.mpr ⟨List.mem_map_of_mem hr, List.nil_subset _⟩

/-- Writing to a list begins with its first register, which takes the first value or its default. -/
theorem writeAll_cons (h : Heap) (f : Frame) (r : AnyReg) (rs : List AnyReg) (vs : List Value) :
    f.writeAll h (r :: rs) vs =
      (match vs.head? with
        | some v => f.write h r v
        | none => f.writeDefault r) >>= fun g => g.writeAll h rs vs.tail := by
  cases vs <;> rfl

/-- What register `r` is due when `values` go to a list of registers in which it last stands at
`position`. -/
def due (values : List Value) (position : Nat) (r : AnyReg) : Value :=
  values[position]?.getD r.bank.defaultValue

/-- `g` holds the results of a list of registers: each register the one for its last position. -/
def HoldsResults (g : Frame) (rs : List AnyReg) (values : List Value) : Prop :=
  ∀ i r, rs[i]? = some r → (∀ j, i < j → rs[j]? ≠ some r) → g.read r = .ok (due values i r)

/-- The first write of a list and the writes after it. A register that occurs again later is
overwritten there, and one that does not is left alone by all of them. -/
theorem HoldsResults.cons {g k : Frame} {r : AnyReg} {rs : List AnyReg} {vs : List Value}
    (hr : g.read r = .ok (due vs 0 r)) (hk : g.AgreesOff (rs.map AnyReg.place) k)
    (hrs : k.HoldsResults rs vs.tail) : k.HoldsResults (r :: rs) vs := by
  intro i s hi hlast
  cases i with
  | zero =>
    rw [List.getElem?_cons_zero, Option.some.injEq] at hi
    subst hi
    have hn : r ∉ rs := by
      intro hm
      obtain ⟨j, hj⟩ := List.mem_iff_getElem?.mp hm
      exact hlast (j + 1) (Nat.succ_pos j) (by rw [List.getElem?_cons_succ, hj])
    rw [hk.read (AnyReg.place_notMem hn), hr]
  | succ i =>
    rw [List.getElem?_cons_succ] at hi
    have hd : due vs (i + 1) s = due vs.tail i s := by
      simp [due, List.getElem?_tail]
    rw [hd]
    refine hrs i s hi fun j hj => ?_
    have := hlast (j + 1) (Nat.succ_lt_succ hj)
    rwa [List.getElem?_cons_succ] at this

theorem writeAll_meets (h : Heap) (rs : List AnyReg) (vs : List Value) (f : Frame) :
    Meets (fun g => f.AgreesOff (rs.map AnyReg.place) g ∧ g.ip = f.ip ∧ g.HoldsResults rs vs)
      (f.Blames (rs.map AnyReg.place)) (f.writeAll h rs vs) := by
  induction rs generalizing f vs with
  | nil => exact ⟨AgreesOff.refl f, rfl, fun i r hi => absurd hi (by simp)⟩
  | cons r rs ih =>
    rw [writeAll_cons]
    have hfirst : Meets (fun g => f.AgreesOff [r.place] g ∧ g.ip = f.ip ∧
        g.read r = .ok (due vs 0 r)) (f.Blames [r.place])
        (match vs.head? with
          | some v => f.write h r v
          | none => f.writeDefault r) := by
      cases vs with
      | nil => exact f.writeDefault_meets r
      | cons v vs => exact f.write_meets h r v
    refine (hfirst.mono (fun _ hg => hg) fun e he => he.mono ?_).bind fun g hg => ?_
    · simp
    refine (ih vs.tail g).mono (fun k hk => ⟨?_, hk.2.1.trans hg.2.1, ?_⟩) fun e he => ?_
    · exact hg.1.trans hk.1
    · exact HoldsResults.cons hg.2.2 hk.1 hk.2.2
    · exact (Blames.of_agreesOff hg.1 he).mono (by simp)

theorem writeZip_meets (h : Heap) (rs : List AnyReg) (vs : List Value) (f : Frame) :
    Meets (fun g => f.AgreesOff (rs.map AnyReg.place) g ∧ g.ip = f.ip)
      (f.Blames (rs.map AnyReg.place)) (f.writeZip h rs vs) := by
  induction rs generalizing f vs with
  | nil => exact ⟨AgreesOff.refl f, rfl⟩
  | cons r rs ih =>
    cases vs with
    | nil => exact ⟨AgreesOff.refl f, rfl⟩
    | cons v vs =>
      refine ((f.write_meets h r v).mono (fun _ hg => hg) fun e he => he.mono ?_).bind
        fun g hg => ?_
      · simp
      refine (ih vs g).mono (fun k hk => ⟨?_, hk.2.trans hg.2.1⟩) fun e he => ?_
      · exact hg.1.trans hk.1
      · exact (Blames.of_agreesOff hg.1 he).mono (by simp)

end Frame

end RegisterMachine
