import RegisterMachine.Proofs.Checked.Runs
import RegisterMachine.Proofs.Frame.Refusals
import RegisterMachine.Proofs.Machine.Calls
import RegisterMachine.Proofs.Machine.Faults

/-!
# How deep calls go

A call looks at how many frames the stack has before it does anything else, and what it looks for is that there are
fewer than the run allows. So a stack has no more frames than that, or one where not even one is allowed: the first
is there before anything is called (`Environment.step_shallow`, `Environment.Runs.workers`).

**`Environment.depth_bounded`** adds that the bound is met exactly. A function that exists cannot be called at the
bound, whatever its arguments are, and can otherwise be called as far as the depth is concerned; the trace of the
fault has as many frames as the run allows.
-/

namespace RegisterMachine

/-! ## What the workers of a run have -/

theorem Invocation.waiting_takeBack {inv : Invocation} {world : World} {w v : Worker}
    (h : v ∈ (inv.takeBack world w).world.waiting) : v = w ∨ v ∈ world.waiting := by
  cases hp : w.progress.isFinal with
  | false =>
    rw [takeBack_of_running hp] at h
    exact List.mem_cons.mp h
  | true =>
    by_cases hm : w.info.id = inv.main
    · rw [takeBack_main hp hm] at h
      exact .inr h
    · rw [takeBack_other hp hm] at h
      exact .inr h

/-- Only a call adds a frame, and it has counted them. -/
theorem Moves.length_le {env : Environment} {stack stack' : CallStack} {progress : Progress}
    (h : Moves env stack stack' progress) : stack'.length ≤ max stack.length env.maxDepth := by
  cases h with
  | within => exact Nat.le_max_left _ _
  | call hi hf hd => exact Nat.le_trans hd (Nat.le_max_right _ _)
  | ret | finish => simp only [List.length_cons]; omega
  | fault => exact Nat.zero_le _

namespace Environment

variable {env : Environment} {inv : Invocation} {n : Nat} {w w' : Worker}

/-- What a worker has to begin with and keeps with every step, all workers have that wait in a run. -/
theorem Runs.workers {P : Worker → Prop} (hfresh : ∀ id wi w, w.FreshOf id wi → P w)
    (hstep : ∀ w w', P w → env.Steps w w' → P w') (h : env.Runs n inv) :
    ∀ w ∈ inv.world.waiting, P w := by
  induction h with
  | start hs => exact fun w hw => absurd hw List.not_mem_nil
  | between h hw hs ih => exact ih
  | @launch n inv inv' id info args h hw hl ih =>
    intro w hm
    obtain ⟨-, -, hwaiting⟩ := (inv.world.launch_meets id info args).of_ok hl
    rcases hwaiting w hm with hold | ⟨wi, -, hf⟩
    · exact ih w hold
    · exact hfresh id wi w hf
  | unlaunched h hw hl ih =>
    rw [World.waiting_unlaunched]
    exact ih
  | @turn n inv before after v h hw ih =>
    intro w hm
    rw [hw] at ih
    rcases Invocation.waiting_takeBack hm with rfl | hm
    · exact hstep v _ (ih v (by simp)) ⟨_, rfl⟩
    · obtain ⟨started, hstarts, hfreshly⟩ :=
        env.step_adds { inv.world with waiting := before ++ after } v
      rw [hstarts.waiting] at hm
      rcases List.mem_append.mp hm with hm | hm
      · refine ih w ?_
        rcases List.mem_append.mp hm with hm | hm
        · exact List.mem_append_left _ hm
        · exact List.mem_append_right _ (List.mem_cons_of_mem _ hm)
      · obtain ⟨id, info, -, wi, -, hf⟩ := hfreshly w hm
        exact hfresh id wi w hf

/-! ## The bound -/

/-- The stack has no more frames than are allowed. One there is always. -/
abbrev Shallow (env : Environment) (w : Worker) : Prop := w.stack.length ≤ max 1 env.maxDepth

theorem shallow_of_fresh {id : FunctionId} {wi : WorkerInfo} (h : w.FreshOf id wi) : env.Shallow w := by
  obtain ⟨heap, args, frame, -, hw⟩ := h
  rw [hw]
  exact Nat.le_max_left 1 env.maxDepth

theorem step_shallow (hw : env.Shallow w) (hs : env.Steps w w') : env.Shallow w' := by
  rcases hs.cases with ⟨-, hmoves⟩ | ⟨-, rfl⟩
  · have hle := hmoves.length_le
    unfold Shallow at hw ⊢
    omega
  · exact hw

/-! ## Calls at the bound -/

section

variable {world : World} {f : Frame} {below : CallStack} {id : FunctionId} {info : FunctionInfo}
  {args rets : List AnyReg}

/-- At the bound nothing else about a call matters. -/
theorem call_of_deep {stack : CallStack} (hf : env.program.function? id = some info)
    (hd : env.maxDepth ≤ stack.length) :
    env.call world stack id args rets = .error (.stackOverflow env.maxDepth) := by
  simp only [call, hf, if_pos hd]

/-- Below the bound whatever is wrong with a call is about a register. -/
theorem call_ne_stackOverflow (hf : env.program.function? id = some info)
    (hd : (f :: below).length < env.maxDepth) (depth : Nat) :
    env.call world (f :: below) id args rets ≠ .error (.stackOverflow depth) := by
  intro hcall
  cases hr : f.readAll args with
  | error e =>
    have herror : env.call world (f :: below) id args rets = .error e := by
      simp only [call, hf, if_neg (Nat.not_le.mpr hd), hr]
      rfl
    obtain ⟨-, r, -, ⟨-, hlacks⟩, -⟩ := Frame.readAll_eq_error_iff.mp hr
    rw [herror, hlacks] at hcall
    cases hcall
  | ok values =>
    obtain ⟨b, i, hroom⟩ := (call_wantsRoom hf hd hr).of_error hcall
    cases hroom

/-- A worker at a call fails as the call does. -/
theorem step_of_call_error {e : ExecutionError} (h : w.At env.program f below (.call id args rets))
    (hcall : env.call world (f.past :: below) id args rets = .error e) :
    env.step world w = (world, w.failed env.program e) := by
  refine step_of_error h ?_
  simp only [execute, hcall]

theorem step_of_call_ok {world' : World} {stack : CallStack}
    (h : w.At env.program f below (.call id args rets))
    (hcall : env.call world (f.past :: below) id args rets = .ok (world', stack)) :
    env.step world w = (world', { w with stack }) := by
  refine step_of_goOn h ?_
  simp only [execute, hcall]

/-- A call of a function that there is overflows the stack at the bound and nowhere else. -/
theorem overflows_iff (h : w.At env.program f below (.call id args rets))
    (hf : env.program.function? id = some info) :
    (∃ trace, (env.step world w).2.progress = .faulted ⟨.stackOverflow env.maxDepth, trace⟩) ↔
      env.maxDepth ≤ w.stack.length := by
  constructor
  · rintro ⟨trace, hfault⟩
    by_contra hd
    rw [h.stack, Nat.not_le] at hd
    cases hcall : env.call world (f.past :: below) id args rets with
    | ok r =>
      rw [step_of_call_ok h hcall, h.running] at hfault
      cases hfault
    | error e =>
      rw [step_of_call_error h hcall] at hfault
      cases hfault
      exact call_ne_stackOverflow (f := f.past) hf hd _ hcall
  · intro hd
    rw [h.stack] at hd
    rw [step_of_call_error h (call_of_deep hf hd)]
    exact ⟨_, rfl⟩

end

/-- **Calls go as deep as is allowed and no deeper.** The stack of every worker in a run has at most as many frames
as are allowed, and one where none is; this includes what a worker has left after its last step. A function that
there is can be called if and only if there are fewer: otherwise the call overflows the stack, whatever is in the
registers that it would have read, and nobody has been started. The trace then has a line for each of the frames
that are allowed. -/
theorem depth_bounded (h : env.Runs n inv) (hw : w ∈ inv.world.waiting) :
    w.stack.length ≤ max 1 env.maxDepth ∧
    (∀ world, (env.step world w).2.stack.length ≤ max 1 env.maxDepth) ∧
    ∀ f below id args rets info, w.At env.program f below (.call id args rets) →
      env.program.function? id = some info →
      (∀ world, (∃ trace, (env.step world w).2.progress = .faulted ⟨.stackOverflow env.maxDepth, trace⟩) ↔
        env.maxDepth ≤ w.stack.length) ∧
      (env.maxDepth ≤ w.stack.length →
        ∃ fault, fault.error = .stackOverflow env.maxDepth ∧
          (1 ≤ env.maxDepth → fault.trace.length = env.maxDepth) ∧
          ∀ world regs, env.step world { w with stack := { f with regs } :: below } =
            (world, { w with stack := [], progress := .faulted fault })) := by
  have hshallow : env.Shallow w :=
    h.workers (fun _ _ _ => shallow_of_fresh) (fun _ _ => step_shallow) w hw
  refine ⟨hshallow, fun world => step_shallow hshallow ⟨world, rfl⟩, ?_⟩
  intro f below id args rets info hat hf
  refine ⟨fun world => overflows_iff hat hf, fun hd => ?_⟩
  refine ⟨⟨.stackOverflow env.maxDepth, CallStack.trace env.program (f.past :: below)⟩, rfl, ?_, ?_⟩
  · intro hone
    have hlength : (CallStack.trace env.program (f.past :: below)).length = w.stack.length := by
      rw [hat.stack, CallStack.trace, List.length_map]
      rfl
    unfold Shallow at hshallow
    dsimp only
    omega
  · intro world regs
    have hat' : Worker.At { w with stack := { f with regs } :: below } env.program { f with regs } below
        (.call id args rets) := ⟨hat.running, rfl, hat.instruction⟩
    rw [hat.stack] at hd
    exact step_of_call_error hat' (call_of_deep hf hd)

end Environment

/-! A function that calls itself and never returns, where two frames are allowed. -/

def Environment.recursing : Environment where
  program := { Program.doubling with code := #[.call ⟨0⟩ [⟨.int, 0⟩] []] }
  natives := []
  maxDepth := 2

/-- The second frame is the last: the call in it overflows the stack, with a line for each of the two. -/
theorem Environment.recursing_overflows :
    ∃ inv w, recursing.Runs 1 inv ∧ inv.world.waiting = [w] ∧ w.stack.length = 2 ∧
      ∃ fault, fault.error = .stackOverflow 2 ∧ fault.trace.length = 2 ∧
        recursing.step inv.world w = (inv.world, { w with stack := [], progress := .faulted fault }) := by
  have h0 : recursing.Runs 0 _ := .launch (.start Heap.sound_empty) rfl
    (rfl : (World.start .empty []).launch ⟨0⟩ Program.mainInfo [(.value .int, .int 5)] = .ok _)
  have h1 := @Runs.turn _ _ _ [] [] _ h0 rfl
  obtain ⟨-, -, hcalls⟩ := depth_bounded h1 List.mem_cons_self
  obtain ⟨-, hover⟩ := hcalls _ _ ⟨0⟩ [⟨.int, 0⟩] [] Program.mainInfo ⟨rfl, rfl, rfl⟩ rfl
  obtain ⟨fault, herror, htrace, hstep⟩ := hover (by decide)
  exact ⟨_, _, h1, rfl, rfl, fault, herror, htrace (by decide), hstep _ _⟩

end RegisterMachine
