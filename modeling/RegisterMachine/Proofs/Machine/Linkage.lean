import RegisterMachine.Proofs.Machine.Reach

/-!
# How the frames of a stack hang together

Every frame but the bottom one was put there by a call of the frame below it, and the two still agree
on it: `CallStack.Linked` says that the upper frame returns to where the lower one has stopped, and
that the instruction before that place is the call that made it, with its function and its result
registers. The invariant is a recursion down the stack that looks at two frames at a time. No step
touches the place of a frame that is not on top, which is why it survives.

Stack underflow is looked for at several places of the machine and can happen at none: an empty stack
belongs to a worker that has ended, and only the bottom frame has no caller. The main statement,
`Worker.reached_linked`, holds for any code whatever.
-/

namespace RegisterMachine

/-- Each frame returns to the frame below it, right behind the call that made it; the bottom frame
returns to none. -/
def CallStack.Linked (p : Program) : CallStack → Prop
  | [] => True
  | [f] => f.returnTo = none
  | f :: g :: rest =>
      f.returnTo = some g.ip ∧
      (∃ at' args, g.ip = at' + 1 ∧ p.instruction? at' = some (.call f.function args f.rets)) ∧
      Linked p (g :: rest)

namespace CallStack.Linked

variable {p : Program} {f g : Frame} {below : CallStack} {ps : List Place}

theorem tail (h : Linked p (f :: below)) : Linked p below := by
  cases below with
  | nil => exact trivial
  | cons g rest => exact h.2.2

/-- Only frames above it look at where a frame is, so the top frame may go on. -/
theorem top (h : Linked p (f :: below)) (hg : f.AgreesOff ps g) : Linked p (g :: below) := by
  cases below with
  | nil => exact hg.returnTo.trans h
  | cons k rest =>
    obtain ⟨hr, hc, hrest⟩ := h
    refine ⟨hg.returnTo.trans hr, ?_, hrest⟩
    rw [hg.function, hg.rets]
    exact hc

/-- A frame with no caller is the bottom one. -/
theorem below_eq_nil (h : Linked p (f :: below)) (hr : f.returnTo = none) : below = [] := by
  cases below with
  | nil => rfl
  | cons g rest =>
    have := h.1
    rw [hr] at this
    exact absurd this (by simp)

end CallStack.Linked

/-- A worker has frames exactly as long as it is at work, and they hang together; and it has not
ended for want of a frame. -/
structure Worker.Linked (p : Program) (w : Worker) : Prop where
  nonempty_iff : w.progress.isFinal = false ↔ w.stack ≠ []
  stack : CallStack.Linked p w.stack
  fault (fault : Fault) : w.progress = .faulted fault → fault.error ≠ .stackUnderflow

namespace Worker

variable {env : Environment} {w w' : Worker}

theorem FreshOf.linked {id : FunctionId} {wi : WorkerInfo} (h : w.FreshOf id wi) (p : Program) :
    w.Linked p := by
  obtain ⟨heap, args, f, hf, hw⟩ := h
  have hb := Frame.bind_meets heap (Frame.Shaped.start id wi) args
  obtain ⟨⟨ps, hps⟩, -⟩ := hb.of_ok hf
  rw [hw]
  exact ⟨by simp [start, Progress.isFinal], hps.returnTo, fun _ h => absurd h (by simp [start])⟩

/-- In a linked stack nothing is wrong that could make a step underflow. -/
theorem Linked.no_underflow (h : w.Linked env.program) (hp : w.progress = .running)
    {e : ExecutionError} (he : e.isFatal = true → Flaw env.program w.stack e) :
    e ≠ .stackUnderflow := by
  rintro rfl
  have hne : w.stack ≠ [] := h.nonempty_iff.mp (by rw [hp]; rfl)
  have hl := h.stack
  generalize w.stack = stack at hne hl he
  cases he rfl with
  | empty => exact hne rfl
  | orphan hr =>
    have hn : _ = none := hl
    rw [hr] at hn
    exact absurd hn (by simp)

/-- What a move leaves of a linked stack is linked, and empty exactly when the worker has ended. -/
theorem Linked.move {stack stack' : CallStack} {progress : Progress}
    (hl : CallStack.Linked env.program stack) (hm : Moves env stack stack' progress) :
    (progress.isFinal = false ↔ stack' ≠ []) ∧ CallStack.Linked env.program stack' := by
  cases hm with
  | within hi hk hn hg => exact ⟨by simp [Progress.isFinal], hl.top hg⟩
  | @call f callee below id args rets info ps hi hf hd hc hip =>
    -- the caller has moved past the call, and the frame on it returns there
    refine ⟨by simp [Progress.isFinal], ?_, ⟨f.ip, args, rfl, ?_⟩, hl.top (.past f)⟩
    · rw [hc.returnTo]
      rfl
    · rw [hc.function, hc.rets]
      exact hi
  | ret hi hv hr hg hip hres => exact ⟨by simp [Progress.isFinal], hl.tail.top hg⟩
  | finish hi hv hr =>
    have hb := hl.below_eq_nil hr
    subst hb
    exact ⟨by simp [Progress.isFinal], trivial⟩
  | fault hf => exact ⟨by simp [Progress.isFinal], trivial⟩

theorem Linked.step (h : w.Linked env.program) (hs : env.Steps w w') : w'.Linked env.program := by
  rcases hs.cases with ⟨hp, hm⟩ | ⟨-, rfl⟩
  · obtain ⟨hne, hl⟩ := Linked.move h.stack hm
    refine ⟨hne, hl, fun fault hf => ?_⟩
    rw [hf] at hm
    exact h.no_underflow hp hm.of_faulted.2
  · exact h

theorem Linked.reach (h : w.Linked env.program) (hr : env.Reaches w w') : w'.Linked env.program :=
  hr.keeps (fun _ _ hw hs => hw.step hs) h

/-- **The invariant of call stacks.** From one frame on, whatever the code and whatever the other
workers do: a worker has frames exactly as long as it is at work; every frame but the bottom one
returns to the frame below it, behind the call that made it; the worker never ends in a stack
underflow; and it returns only from the bottom frame, which leaves nothing. -/
theorem reached_linked (env : Environment) {id : FunctionId} {wi : WorkerInfo} {w₀ w : Worker}
    (h₀ : w₀.FreshOf id wi) (h : env.Reaches w₀ w) :
    (w.progress.isFinal = false ↔ w.stack ≠ []) ∧
    CallStack.Linked env.program w.stack ∧
    (∀ fault, w.progress = .faulted fault → fault.error ≠ .stackUnderflow) ∧
    ∀ world values, w.progress = .running → (env.step world w).2.progress = .returned values →
      (∃ f, w.stack = [f] ∧ f.returnTo = none) ∧ (env.step world w).2.stack = [] := by
  have hw : w.Linked env.program := (h₀.linked env.program).reach h
  refine ⟨hw.nonempty_iff, hw.stack, hw.fault, fun world values hp hr => ?_⟩
  have hm := env.step_moves world hp
  rw [hr] at hm
  obtain ⟨f, hstack, hnone⟩ := hm.of_returned
  have hl := hw.stack
  rw [hstack] at hl
  have hb := hl.below_eq_nil hnone
  exact ⟨⟨f, by rw [hstack, hb], hnone⟩, hb⟩

/-- While the argument is being doubled, the frame that does it returns behind the call. -/
theorem doubling_linked :
    (doubling.afterSteps .doubling 1).stack.map Frame.ip = [2, 1] ∧
      CallStack.Linked .doubling (doubling.afterSteps .doubling 1).stack :=
  ⟨rfl, (reached_linked .doubling doubling_fresh (reaches_afterSteps .doubling doubling 1)).2.1⟩

end Worker

end RegisterMachine
