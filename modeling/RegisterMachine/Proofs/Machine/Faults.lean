import RegisterMachine.Proofs.Machine.Moves

/-!
# A worker at an instruction, and how it fails there

What the next step of a worker comes to is said by the instruction that it is at (`Worker.At`): either the step
goes on from what the instruction leaves (`Environment.step_of_goOn`), or the instruction fails and the worker is
left with its fault (`Environment.step_of_error`). A fault is told by its error alone: the trace is that of the
frames at the time, whatever has gone wrong (`Worker.failed`).
-/

namespace RegisterMachine

/-- The worker has not ended and is about to execute an instruction. -/
structure Worker.At (w : Worker) (p : Program) (f : Frame) (below : CallStack) (i : Instruction) : Prop where
  running : w.progress = .running
  stack : w.stack = f :: below
  instruction : p.instruction? f.ip = some i

/-- What an error leaves of a worker: no frames, and a trace of those that it had. The one on top has moved past
the instruction that failed. -/
def Worker.failed (w : Worker) (p : Program) (e : ExecutionError) : Worker :=
  { w with
    stack := []
    progress := .faulted ⟨e, CallStack.trace p (w.stack.modifyHead Frame.past)⟩ }

theorem Worker.failed_inj {w : Worker} {p : Program} {e e' : ExecutionError} :
    w.failed p e = w.failed p e' ↔ e = e' := by
  simp [failed]

/-- A worker that has failed does not go on. -/
theorem Worker.not_running_of_eq_failed {w w' : Worker} {p : Program} {e : ExecutionError}
    (hw : w' = w.failed p e) : w'.progress ≠ .running := by
  rw [hw]
  exact nofun

namespace Environment

variable {env : Environment} {world world' : World} {w : Worker} {f : Frame} {below stack : CallStack}
  {i : Instruction} {e : ExecutionError}

theorem step_of_goOn (h : w.At env.program f below i)
    (hx : env.execute world w.info (f.past :: below) i = ⟨world', stack, .ok .goOn⟩) :
    env.step world w = (world', { w with stack }) := by
  unfold step advance
  rw [h.running, h.stack]
  dsimp only
  rw [h.instruction]
  dsimp only
  rw [hx, ← h.running]

theorem step_of_error (h : w.At env.program f below i)
    (hx : env.execute world w.info (f.past :: below) i = ⟨world', f.past :: below, .error e⟩) :
    env.step world w = (world', w.failed env.program e) := by
  unfold step advance Worker.failed
  rw [h.running, h.stack]
  dsimp only
  rw [h.instruction]
  dsimp only
  rw [hx]
  rfl

/-- An instruction within a frame fails and leaves the world alone, or takes the worker on. -/
theorem step_failed_iff (h : w.At env.program f below i) (hi : i.isLocal = true) :
    env.step world w = (world, w.failed env.program e) ↔
      f.past.exec env.program (world.isHeld (f.past :: below)) world.store.heap i = .error e := by
  have hx := env.execute_local world w.info f.past below hi
  cases he : f.past.exec env.program (world.isHeld (f.past :: below)) world.store.heap i with
  | ok r =>
    rw [he] at hx
    rw [step_of_goOn h hx]
    refine iff_of_false (fun hs => ?_) nofun
    exact Worker.not_running_of_eq_failed (congrArg Prod.snd hs) h.running
  | error e' =>
    rw [he] at hx
    rw [step_of_error h hx, Prod.mk.injEq, Worker.failed_inj, Except.error.injEq]
    exact and_iff_right rfl

end Environment

end RegisterMachine
