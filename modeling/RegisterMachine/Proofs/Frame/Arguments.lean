import RegisterMachine.Proofs.Frame.Places

/-!
# Binding arguments

Arguments go to the registers of their banks in order, one counter for each bank. Whatever they are,
binding changes registers only; and where a frame has as many registers of every bank as there are
arguments for it, the counters stay inside the banks, so an argument that does not fit its bank is all
that can go wrong. The counters are 16 bits wide, and so are the sizes of a shape's banks: that is
why no counter can wrap before its bank is full.
-/

namespace RegisterMachine

/-- The shape has, bank by bank, a register for each value for that bank. An iterator is no value and
is turned down whatever there is room for. -/
def RegisterShape.Takes (shape : RegisterShape) (banks : List Bank) : Prop :=
  ∀ b : ValueBank, banks.count (.value b) ≤ (shape.count (.value b)).toNat

namespace Frame

/-- The banks have the sizes that the shape gives them. -/
def Shaped (f : Frame) (shape : RegisterShape) : Prop :=
  ∀ b, (f.regs.bank b).size = (shape.count b).toNat

theorem Shaped.start (id : FunctionId) (w : WorkerInfo) : (Frame.start id w).Shaped w.registers :=
  fun b => Registers.size_bank_ofShape w.registers b

theorem Shaped.of_agreesOff {f g : Frame} {ps : List Place} {shape : RegisterShape}
    (hf : f.Shaped shape) (h : f.AgreesOff ps g) : g.Shaped shape :=
  fun b => (h.size b).trans (hf b)

theorem Shaped.has_iff {f : Frame} {shape : RegisterShape} (hf : f.Shaped shape) (p : Place) :
    f.Has p ↔ p.2 < (shape.count p.1).toNat := by
  unfold Has
  rw [hf]

/-- Binding changes registers and nothing else, also where it fails half way. -/
theorem bindFrom_agreesOff (h : Heap) (args : List (Bank × Value)) (next : ValueBank → UInt16)
    (f : Frame) :
    ∃ ps, f.AgreesOff ps (f.bindFrom h next args).1 ∧ (f.bindFrom h next args).1.ip = f.ip := by
  induction args generalizing next f with
  | nil => exact ⟨[], .refl f, rfl⟩
  | cons a rest ih =>
    obtain ⟨b, v⟩ := a
    cases b with
    | iter => exact ⟨[], .refl f, rfl⟩
    | value b =>
      rw [bindFrom]
      cases hw : f.write h ⟨b, next b⟩ v with
      | error e => exact ⟨[], .refl f, rfl⟩
      | ok g =>
        obtain ⟨hg, hip, -⟩ := (f.write_meets h ⟨b, next b⟩ v).of_ok hw
        obtain ⟨ps, hk, hkip⟩ := ih (fun c => if c = b then next c + 1 else next c) g
        exact ⟨_, hg.trans hk, hkip.trans hip⟩

/-- A binding error that is fatal names a register. -/
theorem bindFrom_fatal (h : Heap) (args : List (Bank × Value)) (next : ValueBank → UInt16)
    (f : Frame) {e : ExecutionError} (he : (f.bindFrom h next args).2 = some e)
    (hf : e.isFatal = true) : ∃ b i, e = .invalidRegister b i := by
  induction args generalizing next f with
  | nil => exact absurd he (by simp [bindFrom])
  | cons a rest ih =>
    obtain ⟨b, v⟩ := a
    cases b with
    | iter =>
      rw [bindFrom, Option.some.injEq] at he
      subst he
      exact absurd hf (by simp [ExecutionError.isFatal])
    | value b =>
      rw [bindFrom] at he
      cases hw : f.write h ⟨b, next b⟩ v with
      | ok g => exact ih _ g (by simpa only [hw] using he)
      | error e' =>
        have hee : e' = e := by simpa only [hw, Option.some.injEq] using he
        subst hee
        obtain ⟨c, i, hc, -, -⟩ := (f.write_meets h ⟨b, next b⟩ v).of_error hw hf
        exact ⟨c, i, hc⟩

/-- While every bank has room for what is still to come, no error is fatal. The counter of a bank
moves on only when one argument fewer is to come for it. -/
theorem bindFrom_not_fatal (h : Heap) {shape : RegisterShape} (args : List (Bank × Value))
    (next : ValueBank → UInt16) (f : Frame) (hs : f.Shaped shape)
    (hroom : ∀ b : ValueBank,
      (next b).toNat + (args.map Prod.fst).count (.value b) ≤ (shape.count (.value b)).toNat)
    {e : ExecutionError} (he : (f.bindFrom h next args).2 = some e) : e.isFatal = false := by
  induction args generalizing next f with
  | nil => exact absurd he (by simp [bindFrom])
  | cons a rest ih =>
    obtain ⟨b, v⟩ := a
    cases b with
    | iter =>
      rw [bindFrom, Option.some.injEq] at he
      subst he
      rfl
    | value b =>
      rw [bindFrom] at he
      have hb := hroom b
      rw [List.map_cons, List.count_cons_self] at hb
      cases hw : f.write h ⟨b, next b⟩ v with
      | error e' =>
        have hee : e' = e := by simpa only [hw, Option.some.injEq] using he
        subst hee
        refine ((f.write_meets h ⟨b, next b⟩ v).of_error hw).not_fatal fun p hp => ?_
        rw [List.mem_singleton.mp hp, hs.has_iff]
        exact show (next b).toNat < (shape.count (.value b)).toNat by omega
      | ok g =>
        have hg := ((f.write_meets h ⟨b, next b⟩ v).of_ok hw).1
        refine ih _ g (hs.of_agreesOff hg) (fun c => ?_) (by simpa only [hw] using he)
        by_cases hc : c = b
        · subst hc
          -- the counter is as wide as the size of a bank, so the bank is full before it wraps
          have hlt : (shape.count (.value c)).toNat < 65536 := (shape.count (.value c)).toNat_lt
          rw [if_pos rfl, UInt16.toNat_add, UInt16.toNat_one, Nat.mod_eq_of_lt (by omega)]
          omega
        · have hr := hroom c
          rw [List.map_cons, List.count_cons_of_ne (by simpa using fun e => hc e.symm)] at hr
          rw [if_neg hc]
          exact hr

/-- Binding to a frame of some shape: nothing but registers changes, and an error is fatal only
where the shape has no room, and then it names a register. -/
theorem bind_meets (h : Heap) {f : Frame} {shape : RegisterShape} (hs : f.Shaped shape)
    (args : List (Bank × Value)) :
    Meets (fun g => (∃ ps, f.AgreesOff ps g) ∧ g.ip = f.ip)
      (fun e => e.isFatal = true →
        (∃ b i, e = .invalidRegister b i) ∧ ¬ shape.Takes (args.map Prod.fst))
      (f.bind h args) := by
  obtain ⟨ps, hg, hip⟩ := bindFrom_agreesOff h args (fun _ => 0) f
  unfold bind
  cases hf : f.fill h args with
  | mk g error =>
    have hfill : f.bindFrom h (fun _ => 0) args = (g, error) := hf
    rw [hfill] at hg hip
    cases error with
    | none => exact ⟨⟨ps, hg⟩, hip⟩
    | some e =>
      refine fun hfatal => ⟨bindFrom_fatal h args (fun _ => 0) f (by rw [hfill]) hfatal, fun ht => ?_⟩
      have := bindFrom_not_fatal h args (fun _ => 0) f hs (fun b => by simpa using ht b)
        (e := e) (by rw [hfill])
      rw [this] at hfatal
      exact absurd hfatal (by simp)

end Frame

end RegisterMachine
