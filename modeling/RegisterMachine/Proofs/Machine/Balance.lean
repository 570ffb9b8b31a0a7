import RegisterMachine.Proofs.Machine.Reach

/-!
# Calls and their returns

What a call does to its caller when it is over, however long that takes and whatever runs in
between: `Worker.call_balanced`. The caller goes on behind the call, the frames below it and all its
registers are as they were, and the registers that the call lists for its results hold what the
callee has returned.

Between the call and the return the stack is that of a **pending** call (`CallStack.Pending`): the
callee's frame on the caller's, and on it the frames of calls that the callee has made in turn. It is
an inductive predicate over the frames on top, so that the frames of the caller and below it are fixed
by its parameters, and that they stay as they are is what a step has to keep. A step of a pending call
ends in one of three ways, `Pending.move`, and only the return of the callee itself brings the stack
back to the caller's depth.
-/

namespace RegisterMachine

/-- Some steps of a worker, after none of which its stack has `depth` frames. -/
def Environment.AwayFrom (env : Environment) (depth : Nat) : Worker → Worker → Prop :=
  Relation.ReflTransGen fun w w' => env.Steps w w' ∧ w'.stack.length ≠ depth

namespace CallStack

variable {env : Environment} {id : FunctionId} {rets : List AnyReg} {caller : Frame}
  {below stack stack' : CallStack} {progress : Progress}

/-- The stack of a call that is yet to return to `caller`. -/
inductive Pending (id : FunctionId) (rets : List AnyReg) (caller : Frame) (below : CallStack) :
    CallStack → Prop
  /-- The callee's own frame is on top. -/
  | callee {f : Frame} (hf : f.function = id) (hr : f.returnTo = some caller.ip)
      (hs : f.rets = rets) : Pending id rets caller below (f :: caller :: below)
  /-- On top is the frame of a call within the call. -/
  | nested {f : Frame} {stack : CallStack} (hr : f.returnTo ≠ none)
      (h : Pending id rets caller below stack) : Pending id rets caller below (f :: stack)

/-- The step in which the callee returns: `values` go from its registers to those of the caller. -/
inductive Returns (env : Environment) (id : FunctionId) (rets : List AnyReg) (caller : Frame)
    (below : CallStack) : CallStack → CallStack → Prop
  | intro {f g : Frame} {regs : List AnyReg} {values : List Value} (hf : f.function = id)
      (hi : env.program.instruction? f.ip = some (.ret regs)) (hv : f.readAll regs = .ok values)
      (hg : caller.AgreesOff (rets.map AnyReg.place) g) (hip : g.ip = caller.ip)
      (hres : g.HoldsResults rets values) :
      Returns env id rets caller below (f :: caller :: below) (g :: below)

theorem Returns.length_eq (h : Returns env id rets caller below stack stack') :
    stack'.length = (caller :: below).length := by
  cases h with
  | intro => rfl

namespace Pending

/-- A pending call is deeper than its caller. -/
theorem length_lt (h : Pending id rets caller below stack) :
    (caller :: below).length < stack.length := by
  induction h with
  | callee hf hr hs => exact Nat.lt_succ_self _
  | nested hr h ih => exact Nat.lt_succ_of_lt ih

theorem returnTo_ne_none {f : Frame} {rest : CallStack}
    (h : Pending id rets caller below (f :: rest)) : f.returnTo ≠ none := by
  cases h with
  | callee hf hr hs =>
    rw [hr]
    exact Option.some_ne_none _
  | nested hr h => exact hr

/-- What a frame on top has in its registers, and where it is, is of no account. -/
theorem top {f g : Frame} {rest : CallStack} {ps : List Place}
    (h : Pending id rets caller below (f :: rest)) (hg : f.AgreesOff ps g) :
    Pending id rets caller below (g :: rest) := by
  cases h with
  | callee hf hr hs =>
    exact .callee (hg.function.trans hf) (hg.returnTo.trans hr) (hg.rets.trans hs)
  | nested hr h =>
    have hr' : g.returnTo ≠ none := by
      rw [hg.returnTo]
      exact hr
    exact .nested hr' h

/-- **A step of a pending call** leaves it pending, ends the worker, or is its return. -/
theorem move (h : Pending id rets caller below stack) (hm : Moves env stack stack' progress) :
    Pending id rets caller below stack' ∨ (progress ≠ .running ∧ stack' = []) ∨
      Returns env id rets caller below stack stack' := by
  cases hm with
  | within hi hk hn hg => exact Or.inl (h.top hg)
  | @call f callee rest id' args rets' info ps hi hf hd hc hip =>
    have hr : callee.returnTo ≠ none := by
      rw [hc.returnTo]
      exact Option.some_ne_none _
    exact Or.inl (.nested hr (h.top (.past f)))
  | finish hi hv hr => exact absurd hr h.returnTo_ne_none
  | fault hf => exact Or.inr (Or.inl ⟨by simp, rfl⟩)
  | ret hi hv hr hg hip hres =>
    cases h with
    | nested hr' h => exact Or.inl (h.top hg)
    | callee hf hr' hs =>
      rw [hs] at hg hres
      rw [hr, Option.some.injEq] at hr'
      exact Or.inr (Or.inr (.intro hf hi hv hg (hip.trans hr') hres))

/-- A call stays pending for as long as the stack does not come back to its caller's depth, unless
the worker ends. -/
theorem away {w w' : Worker} (h : Pending id rets caller below w.stack)
    (ha : env.AwayFrom (caller :: below).length w w') :
    Pending id rets caller below w'.stack ∨ (w'.progress ≠ .running ∧ w'.stack = []) := by
  induction ha with
  | refl => exact Or.inl h
  | @tail a b _ hab ih =>
    obtain ⟨hs, hne⟩ := hab
    rcases hs.cases with ⟨hp, hm⟩ | ⟨-, rfl⟩
    · rcases ih with ih | ⟨hend, -⟩
      · rcases ih.move hm with hpend | hend | hret
        · exact Or.inl hpend
        · exact Or.inr hend
        · -- the return would have brought the stack back
          exact absurd hret.length_eq hne
      · exact absurd hp hend
    · exact ih

end Pending

/-- A call that has been executed is pending. -/
theorem pending_of_call {f : Frame} {args : List AnyReg}
    (hi : env.program.instruction? f.ip = some (.call id args rets))
    (hm : Moves env (f :: below) stack' .running) :
    Pending id rets f.past below stack' := by
  cases hm with
  | within hi' hk =>
    rw [hi, Option.some.injEq] at hi'
    subst hi'
    exact absurd hk (by simp)
  | call hi' hf hd hc hip =>
    rw [hi, Option.some.injEq] at hi'
    cases hi'
    exact .callee hc.function hc.returnTo hc.rets
  | ret hi' =>
    rw [hi] at hi'
    exact absurd hi' (by simp)

end CallStack

namespace Worker

/-- **Every call is balanced.** Take any worker whose top frame `f` is at a call that is executed and
does not fault. When its stack is as deep as it was for the first time again, then the last step was
the return of the callee, the frames below `f` are untouched, and `f` goes on behind the call with
all its registers as they were but for those listed for results, which hold the values that the
callee read from its own: the value at the last position a register is listed at, or its default
where there is none. -/
theorem call_balanced (env : Environment) {w c c' r : Worker} {f : Frame} {below : CallStack}
    {id : FunctionId} {args rets : List AnyReg} (hs : w.stack = f :: below)
    (hi : env.program.instruction? f.ip = some (.call id args rets)) (hc : env.Steps w c)
    (hok : c.progress = .running) (ha : env.AwayFrom w.stack.length c c') (hr : env.Steps c' r)
    (hd : r.stack.length = w.stack.length) :
    ∃ callee g regs values,
      c'.stack = callee :: f.past :: below ∧ callee.function = id ∧
      env.program.instruction? callee.ip = some (.ret regs) ∧ callee.readAll regs = .ok values ∧
      r.stack = g :: below ∧ g.ip = f.ip + 1 ∧ f.AgreesOff (rets.map AnyReg.place) g ∧
      g.HoldsResults rets values := by
  rw [hs] at ha hd
  -- an empty stack and that of a pending call are not as deep as the caller, so what is left of the
  -- last step is the return
  rcases hc.cases with ⟨-, hm⟩ | ⟨hend, rfl⟩
  · rw [hs, hok] at hm
    have hpend := (CallStack.pending_of_call hi hm).away ha
    rcases hr.cases with ⟨hp', hm'⟩ | ⟨-, rfl⟩
    · rcases hpend with hpend | ⟨hend, -⟩
      · rcases hpend.move hm' with h | ⟨-, h⟩ | h
        · exact absurd hd.symm (Nat.ne_of_lt h.length_lt)
        · rw [h] at hd
          exact absurd hd.symm (Nat.succ_ne_zero _)
        · generalize c'.stack = stack at h
          generalize r.stack = stack' at h
          obtain ⟨hf, hi', hv, hg, hip, hres⟩ := h
          exact ⟨_, _, _, _, rfl, hf, hi', hv, rfl, hip, .of_jump hg, hres⟩
      · exact absurd hp' hend
    · rcases hpend with hpend | ⟨-, h⟩
      · exact absurd hd.symm (Nat.ne_of_lt hpend.length_lt)
      · rw [h] at hd
        exact absurd hd.symm (Nat.succ_ne_zero _)
  · exact absurd hok hend

/-- The argument has been doubled and is where the call wants it. -/
theorem doubling_balanced :
    ∃ g, (doubling.afterSteps .doubling 3).stack = [g] ∧ g.ip = 1 ∧
      g.HoldsResults [⟨.int, 1⟩] [.int 42] := by
  have ha : Environment.doubling.AwayFrom doubling.stack.length
      (doubling.afterSteps .doubling 1) (doubling.afterSteps .doubling 2) :=
    .single ⟨⟨_, rfl⟩, by decide⟩
  obtain ⟨callee, g, regs, values, hs, -, hi, hv, hg, hip, -, hres⟩ :=
    call_balanced .doubling (w := doubling) (r := doubling.afterSteps .doubling 3) rfl rfl
      ⟨_, rfl⟩ rfl ha ⟨_, rfl⟩ rfl
  injection hs with hc _
  subst hc
  cases hi
  cases hv
  exact ⟨g, hg, hip, hres⟩

end Worker

end RegisterMachine
