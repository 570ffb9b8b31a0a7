import RegisterMachine.Debug.Run
import RegisterMachine.Proofs.Checked.Machine

/-!
# Debug sessions, with every check

Before a step a session looks up where the worker is, and in what it remembers of the worker there must be a
place for the top frame. It is made just before, whatever is remembered, and so a session relies on nothing
at all.
-/

namespace RegisterMachine

open Checked

namespace Debug

/-- Whether a worker must stop. The top frame must have a place in what is remembered. -/
def Session.shouldSuspendChecked (s : Session) (w : Watch) (depth : Nat) (pos : Option SourcePos) :
    Option (Watch × Option Reason) :=
  if s.detached || depth == 0 then some (w, none)
  else
    let seen := resized w.seen depth
    match pos with
    | none => some ({ w with seen }, none)
    | some p => do
        let top ← minus? depth 1
        let last ← seen[top]?
        if last == some p then some ({ w with seen }, none)
        else
          let w := { w with seen := seen.set top (some p) }
          match w.mode with
          | .step => some (w, some .step)
          | .run => some (w, if s.breakpoints.contains p then some .breakpoint else none)

theorem Session.shouldSuspendChecked_eq (s : Session) (w : Watch) (depth : Nat)
    (pos : Option SourcePos) :
    s.shouldSuspendChecked w depth pos = some (s.shouldSuspend w depth pos) := by
  unfold shouldSuspendChecked shouldSuspend
  split
  · rfl
  · rename_i hdepth
    cases pos with
    | none => rfl
    | some p =>
      have hlen : (resized w.seen depth).length = depth := by
        unfold resized
        rw [List.length_append, List.length_take, List.length_replicate]
        omega
      have hpos : 1 ≤ depth := by
        simp only [Bool.or_eq_true, beq_iff_eq, not_or] at hdepth
        omega
      have hlast : depth - 1 < (resized w.seen depth).length := by omega
      dsimp only
      rw [minus?_of_le hpos]
      show ((resized w.seen depth)[depth - 1]?).bind _ = _
      rw [List.getElem?_eq_getElem hlast, Option.some_beq_some, Option.bind_some]
      split
      · rfl
      · cases w.mode <;> rfl

/-- The frames of a worker that stops at `position`. -/
def stopFramesChecked (p : Program) (stack : CallStack) (position : SourcePos) :
    Option (List TraceEntry) := do
  match ← stack.traceChecked p with
  | [] => some []
  | top :: rest => some ({ top with position := some position } :: rest)

theorem stopFramesChecked_eq (p : Program) (stack : CallStack) (position : SourcePos) :
    stopFramesChecked p stack position = some (stopFrames p stack position) := by
  unfold stopFramesChecked stopFrames
  rw [CallStack.traceChecked_eq]
  cases stack.trace p <;> rfl

/-- Shows a session a worker that is about to take a step. -/
def gateChecked (p : Program) (client : Client) (s : Session) (w : Watch) (world : World)
    (worker : Worker) : Option (Option (Session × Watch)) :=
  match worker.stack with
  | [] => some (some (s, w))
  | frame :: _ => do
      let position ← p.positionChecked frame.ip
      let (w, reason) ← s.shouldSuspendChecked w worker.stack.length position
      match reason, position with
      | some reason, some position => do
          let frames ← stopFramesChecked p worker.stack position
          let (s, w, released) :=
            s.suspend client world.store.output.size w (.ofNat worker.info.id)
              worker.info.workerName position reason frames
          some (if released then some (s, w) else none)
      | _, _ => some (some (s, w))

/-- **Every operation that a debug session uses has a result.** -/
theorem gateChecked_eq (p : Program) (client : Client) (s : Session) (w : Watch) (world : World)
    (worker : Worker) :
    gateChecked p client s w world worker = some (gate p client s w world worker) := by
  unfold gateChecked gate
  cases hstack : worker.stack with
  | nil => rfl
  | cons frame below =>
    dsimp only
    rw [p.positionChecked_eq, ← hstack]
    show (s.shouldSuspendChecked w worker.stack.length (p.position? frame.ip)).bind _ = _
    rw [s.shouldSuspendChecked_eq, Option.bind_some]
    generalize s.shouldSuspend w worker.stack.length (p.position? frame.ip) = decided
    obtain ⟨w, reason⟩ := decided
    cases reason with
    | none => rfl
    | some reason =>
      cases p.position? frame.ip with
      | none => rfl
      | some position =>
        show (stopFramesChecked p worker.stack position).bind _ = _
        rw [stopFramesChecked_eq]
        rfl

end Debug

end RegisterMachine
