import RegisterMachine.Proofs.Frame.Refusals
import RegisterMachine.Proofs.Machine.Faults
import RegisterMachine.Proofs.Machine.InPlace

/-!
# Native calls

A native function is no part of the program, and all that a program knows of it is when it is asked and what with.
`Environment.stepRecorded` carries out a step in place and keeps a record of the questions; only
`Environment.ask` can come by an answer, and it puts the question down. The record changes nothing
(`Environment.stepRecorded_eq`).

What can go wrong with a native call is listed in `Frame.NativeFails`, in the order in which it would go wrong: an
argument that is not there, the function itself, a register that cannot take its result.
**`Environment.native_call_exact`** says that a native call fails with these errors and no others, that the
function has been asked once, or not at all where an argument is not there, and what the results have become
where nothing is wrong.
-/

namespace RegisterMachine

open InPlace

/-! ## A record of what natives are asked -/

/-- What a native function is asked with, and by whom. -/
structure Question where
  name : String
  info : WorkerInstance
  store : Store
  args : List Value

/-- A part of a step, with the questions that have been asked. -/
abbrev Recorded (α : Type) := InPlace ((World × CallStack) × List Question) ExecutionError α

namespace Environment

/-- A part that asks nothing. -/
def unasked {α : Type} (c : InPlace (World × CallStack) ExecutionError α) : Recorded α :=
  effect fun (s, asked) =>
    let (result, s) := c.on s
    (result, (s, asked))

/-- Asks a native function. What it does to the store stays done, also where it fails. -/
def ask (name : String) (native : Native) (info : WorkerInstance) (args : List Value) :
    Recorded (List Value) :=
  effect fun ((world, stack), asked) =>
    let (store, result) := native info world.store args
    (result.mapError (.native name),
      (({ world with store }, stack), asked ++ [⟨name, info, world.store, args⟩]))

/-- Calls a native function. Its results go to the registers one after another. -/
def nativeCallRecorded (env : Environment) (info : WorkerInstance) (name : String)
    (args rets : List AnyReg) : Recorded Flow := do
  let native ← unasked (look fun _ =>
    match env.natives.lookup name with
    | none => .error (.unknownNative name)
    | some native => .ok native)
  let frame ← unasked (look fun s => s.2.top)
  let values ← unasked (look fun _ => frame.readAll args)
  let results ← ask name native info values
  unasked (onTop (Frame.writeAllInPlace rets results) >>= fun _ => pure .goOn)

/-- Carries out an instruction that has been fetched. -/
def executeRecorded (env : Environment) (info : WorkerInstance) : Instruction → Recorded Flow
  | .nativeCall name args rets => env.nativeCallRecorded info name args rets
  | i => unasked (env.executeInPlace info i)

/-- Fetches the next instruction, moves past it and carries it out. -/
def advanceRecorded (env : Environment) (info : WorkerInstance) : Recorded Flow := do
  let i ← unasked do
    let frame ← look fun s => s.2.top
    let i ← look fun _ =>
      match env.program.instruction? frame.ip with
      | none => .error (.invalidInstructionPointer frame.ip)
      | some i => .ok i
    onTop (Frame.inFrame fun _ frame => .ok frame.past)
    pure i
  env.executeRecorded info i

/-- One step of a worker, and the questions asked in it. -/
def stepRecorded (env : Environment) (world : World) (w : Worker) : (World × Worker) × List Question :=
  match w.progress with
  | .running =>
      let (result, s, asked) := (env.advanceRecorded w.info).on ((world, w.stack), [])
      (w.settle env.program (result, s), asked)
  | _ => ((world, w), [])

section

variable {env : Environment} {world : World} {info : WorkerInstance} {stack below : CallStack} {f : Frame}
  {asked : List Question} {name : String} {native : Native} {args rets : List AnyReg} {α β : Type}

theorem on_unasked_bind (c : InPlace (World × CallStack) ExecutionError α) (k : α → Recorded β)
    (s : World × CallStack) :
    (unasked c >>= k).on (s, asked) =
      match c.on s with
      | (.ok a, s') => (k a).on (s', asked)
      | (.error e, s') => (.error e, (s', asked)) := by
  rw [on_bind, unasked, on_effect]
  dsimp only
  generalize c.on s = r
  obtain ⟨result, s'⟩ := r
  cases result <;> rfl

/-- A native call of a function that there is. -/
theorem on_nativeCallRecorded (hn : env.natives.lookup name = some native) :
    (env.nativeCallRecorded info name args rets).on ((world, f :: below), asked) =
      match f.readAll args with
      | .error e => (.error e, ((world, f :: below), asked))
      | .ok values =>
          let asked := asked ++ [⟨name, info, world.store, values⟩]
          let (store, result) := native info world.store values
          match result with
          | .error e => (.error (.native name e), (({ world with store }, f :: below), asked))
          | .ok results =>
              let (result, s) := (onTop (Frame.writeAllInPlace rets results) >>= fun _ =>
                (pure .goOn : InPlace _ ExecutionError Flow)).on ({ world with store }, f :: below)
              (result, (s, asked)) := by
  unfold nativeCallRecorded
  rw [hn, on_unasked_bind, look, on_effect]
  dsimp only
  rw [on_unasked_bind, look, on_effect]
  dsimp only [CallStack.top]
  rw [on_unasked_bind, look, on_effect]
  cases f.readAll args with
  | error e => rfl
  | ok values =>
    dsimp only
    rw [on_bind, ask, on_effect]
    dsimp only
    generalize native info world.store values = answer
    obtain ⟨store, result⟩ := answer
    cases result <;> rfl

theorem nativeCallRecorded_carriedOut (env : Environment) (world : World) (info : WorkerInstance)
    (stack : CallStack) (name : String) (args rets : List AnyReg) (asked : List Question) :
    let r := (env.nativeCallRecorded info name args rets).on ((world, stack), asked)
    (env.nativeCall world info stack name args rets).CarriedOut env.program (r.1, r.2.1) := by
  unfold nativeCall
  cases hn : env.natives.lookup name with
  | none =>
    unfold nativeCallRecorded
    rw [hn, on_unasked_bind, look, on_effect]
    exact .same env.program _
  | some native =>
    cases stack with
    | nil =>
      unfold nativeCallRecorded
      rw [hn, on_unasked_bind, look, on_effect]
      dsimp only
      rw [on_unasked_bind, look, on_effect]
      exact .same env.program _
    | cons f below =>
      rw [on_nativeCallRecorded hn]
      dsimp only
      cases f.readAll args with
      | error e => exact .same env.program _
      | ok values =>
        dsimp only
        generalize native info world.store values = answer
        obtain ⟨store, result⟩ := answer
        cases result with
        | error e => exact .same env.program _
        | ok results =>
          have hwrite : (Executed.going { world with store } (f :: below) _).CarriedOut env.program _ :=
            going_carriedOut (onTop_follows env.program below
              (f.writeAllInPlace_follows (h := store.heap) rets results))
          dsimp only
          cases hw : f.writeAll store.heap rets results with
          | ok g =>
            rw [hw] at hwrite
            exact hwrite
          | error e =>
            rw [hw] at hwrite
            exact hwrite

theorem executeRecorded_carriedOut (env : Environment) (world : World) (info : WorkerInstance)
    (stack : CallStack) (i : Instruction) (asked : List Question) :
    let r := (env.executeRecorded info i).on ((world, stack), asked)
    (env.execute world info stack i).CarriedOut env.program (r.1, r.2.1) := by
  cases i with
  | nativeCall name args rets =>
    exact env.nativeCallRecorded_carriedOut world info stack name args rets asked
  | _ => exact env.execute_carriedOut world info stack _

theorem advanceRecorded_carriedOut (env : Environment) (world : World) (info : WorkerInstance)
    (stack : CallStack) :
    let r := (env.advanceRecorded info).on ((world, stack), [])
    (env.advance world info stack).CarriedOut env.program (r.1, r.2.1) := by
  unfold advanceRecorded advance
  rw [on_unasked_bind, on_look_bind]
  cases stack with
  | nil => exact .same env.program _
  | cons f below =>
    dsimp only [CallStack.top]
    rw [on_look_bind]
    cases env.program.instruction? f.ip with
    | none => exact .same env.program _
    | some i =>
      dsimp only
      rw [on_bind]
      exact env.executeRecorded_carriedOut world info (f.past :: below) i []

/-- **Keeping a record changes nothing.** -/
theorem stepRecorded_eq (env : Environment) (world : World) (w : Worker) :
    (env.stepRecorded world w).1 = env.step world w := by
  obtain ⟨info, stack, progress⟩ := w
  cases progress with
  | returned values => rfl
  | faulted fault => rfl
  | running => exact (env.advanceRecorded_carriedOut world info stack).settle ⟨info, stack, .running⟩

/-- The questions are those of the instruction. -/
theorem asked_of_at {w : Worker} {i : Instruction} (h : w.At env.program f below i) :
    (env.stepRecorded world w).2 =
      ((env.executeRecorded w.info i).on ((world, f.past :: below), [])).2.2 := by
  unfold stepRecorded advanceRecorded
  rw [h.running, h.stack]
  dsimp only
  rw [on_unasked_bind, on_look_bind]
  dsimp only [CallStack.top]
  rw [on_look_bind, h.instruction]
  dsimp only
  rw [on_bind]
  rfl

end

end Environment

/-! ## What can go wrong -/

/-- What goes wrong with a native call. `call` is what the function does with its arguments. -/
inductive Frame.NativeFails (f : Frame) (name : String)
    (call : List Value → Store × Except NativeError (List Value)) (args rets : List AnyReg) :
    ExecutionError → Prop
  /-- An argument is not there, and the function is not asked. -/
  | argument {e : ExecutionError} (he : First (fun _ => f.Lacks) args e) :
      NativeFails f name call args rets e
  /-- The function fails. -/
  | native {values : List Value} {e : NativeError} (hv : f.readAll args = .ok values)
      (he : (call values).2 = .error e) : NativeFails f name call args rets (.native name e)
  /-- A register cannot be given what it is due. -/
  | target {values results : List Value} {e : ExecutionError} (hv : f.readAll args = .ok values)
      (hr : (call values).2 = .ok results)
      (he : First (fun i r => f.TurnsDown (call values).1.heap r results[i]?) rets e) :
      NativeFails f name call args rets e

/-- The frame `g` is the one that `f` becomes: past the call, with the results in their registers. -/
structure Frame.TakesResults (f : Frame) (rets : List AnyReg) (results : List Value) (g : Frame) : Prop where
  ip : g.ip = f.ip + 1
  agrees : f.AgreesOff (rets.map AnyReg.place) g
  holds : g.HoldsResults rets results

/-- Where no register is named twice, each holds the result for its position. -/
theorem Frame.HoldsResults.read_of_nodup {g : Frame} {rets : List AnyReg} {results : List Value}
    (h : g.HoldsResults rets results) (hn : rets.Nodup) {i : Nat} {r : AnyReg} (hi : rets[i]? = some r) :
    g.read r = .ok (due results i r) := by
  refine h i r hi fun j hj hr => ?_
  obtain ⟨hlt, -⟩ := List.getElem?_eq_some_iff.mp hi
  exact absurd ((List.getElem?_inj hlt hn).mp (hi.trans hr.symm)) (Nat.ne_of_lt hj)

theorem Frame.writeAll_past (h : Heap) (f : Frame) (rets : List AnyReg) (results : List Value) :
    Meets (f.TakesResults rets results) (First (fun i r => f.TurnsDown h r results[i]?) rets)
      (f.past.writeAll h rets results) := by
  refine .intro (fun g hg => ?_) fun e he => ?_
  · obtain ⟨hagrees, hip, hholds⟩ := (writeAll_meets h rets results f.past).of_ok hg
    exact ⟨hip, hagrees.of_jump, hholds⟩
  · exact (writeAll_eq_error_iff.mp he).congr fun i r e => (AgreesOff.past f).turnsDown_iff

theorem Frame.writeAll_past_of_turnsDown {h : Heap} {f : Frame} {rets : List AnyReg}
    {results : List Value} {e : ExecutionError}
    (he : First (fun i r => f.TurnsDown h r results[i]?) rets e) :
    f.past.writeAll h rets results = .error e :=
  writeAll_eq_error_iff.mpr (he.congr fun _ _ _ => (AgreesOff.past f).turnsDown_iff.symm)

namespace Environment

section

variable {env : Environment} {world : World} {w : Worker} {f g : Frame} {below : CallStack}
  {name : String} {native : Native} {args rets : List AnyReg} {values results : List Value}
  {e : ExecutionError}

theorem step_nativeCall_of_lacks (h : w.At env.program f below (.nativeCall name args rets))
    (hn : env.natives.lookup name = some native) (hv : f.readAll args = .error e) :
    env.stepRecorded world w = ((world, w.failed env.program e), []) := by
  have hpast : f.past.readAll args = .error e := hv
  refine Prod.ext ?_ ?_
  · rw [stepRecorded_eq, step_of_error h]
    simp only [execute, nativeCall, hn, hpast]
  · rw [asked_of_at h, executeRecorded, on_nativeCallRecorded hn, hpast]

section

variable (h : w.At env.program f below (.nativeCall name args rets))
  (hn : env.natives.lookup name = some native) (hv : f.readAll args = .ok values)

include h hn hv

/-- Where its arguments are there the function is asked once. -/
theorem asked_nativeCall :
    (env.stepRecorded world w).2 = [⟨name, w.info, world.store, values⟩] := by
  have hpast : f.past.readAll args = .ok values := hv
  rw [asked_of_at h, executeRecorded, on_nativeCallRecorded hn, hpast]
  dsimp only
  cases (native w.info world.store values).2 <;> rfl

theorem step_nativeCall_of_native_error {e : NativeError}
    (hr : (native w.info world.store values).2 = .error e) :
    env.step world w = ({ world with store := (native w.info world.store values).1 },
      w.failed env.program (.native name e)) := by
  have hpast : f.past.readAll args = .ok values := hv
  refine step_of_error h ?_
  simp only [execute, nativeCall, hn, hpast, hr]

theorem step_nativeCall_of_write_error (hr : (native w.info world.store values).2 = .ok results)
    (hw : f.past.writeAll (native w.info world.store values).1.heap rets results = .error e) :
    env.step world w = ({ world with store := (native w.info world.store values).1 },
      w.failed env.program e) := by
  have hpast : f.past.readAll args = .ok values := hv
  refine step_of_error h ?_
  simp only [execute, nativeCall, hn, hpast, hr, hw]

theorem step_nativeCall_of_written (hr : (native w.info world.store values).2 = .ok results)
    (hw : f.past.writeAll (native w.info world.store values).1.heap rets results = .ok g) :
    env.step world w = ({ world with store := (native w.info world.store values).1 },
      { w with stack := g :: below }) := by
  have hpast : f.past.readAll args = .ok values := hv
  refine step_of_goOn h ?_
  simp only [execute, nativeCall, hn, hpast, hr, hw]

theorem world_nativeCall :
    (env.step world w).1 = { world with store := (native w.info world.store values).1 } := by
  cases hr : (native w.info world.store values).2 with
  | error e => rw [step_nativeCall_of_native_error h hn hv hr]
  | ok results =>
    cases hw : f.past.writeAll (native w.info world.store values).1.heap rets results with
    | error e => rw [step_nativeCall_of_write_error h hn hv hr hw]
    | ok g => rw [step_nativeCall_of_written h hn hv hr hw]

end

section

variable (h : w.At env.program f below (.nativeCall name args rets))
  (hn : env.natives.lookup name = some native)

include h hn

/-- What goes wrong with a native call is what the worker fails with. -/
theorem failed_of_nativeFails (he : f.NativeFails name (native w.info world.store) args rets e) :
    (env.step world w).2 = w.failed env.program e := by
  cases he with
  | argument he =>
    rw [← stepRecorded_eq, step_nativeCall_of_lacks h hn (Frame.readAll_eq_error_iff.mpr he)]
  | native hv he => rw [step_nativeCall_of_native_error h hn hv he]
  | target hv hr he =>
    rw [step_nativeCall_of_write_error h hn hv hr (Frame.writeAll_past_of_turnsDown he)]

/-- A native call goes wrong or goes on. -/
theorem nativeFails_or_goesOn :
    (∃ e, f.NativeFails name (native w.info world.store) args rets e) ∨
    ∃ values results g, f.readAll args = .ok values ∧
      (native w.info world.store values).2 = .ok results ∧
      (env.step world w).2 = { w with stack := g :: below } ∧ f.TakesResults rets results g := by
  cases hv : f.readAll args with
  | error e => exact .inl ⟨e, .argument (Frame.readAll_eq_error_iff.mp hv)⟩
  | ok values =>
    cases hr : (native w.info world.store values).2 with
    | error e => exact .inl ⟨_, .native hv hr⟩
    | ok results =>
      have hwrite := f.writeAll_past (native w.info world.store values).1.heap rets results
      cases hw : f.past.writeAll (native w.info world.store values).1.heap rets results with
      | error e => exact .inl ⟨e, .target hv hr (hwrite.of_error hw)⟩
      | ok g =>
        refine .inr ⟨values, results, g, rfl, hr, ?_, hwrite.of_ok hw⟩
        rw [step_nativeCall_of_written h hn hv hr hw]

end

/-- **A native function is asked once and its results go where they are due.** The worker fails with an error if
that is what goes wrong with the call (`Frame.NativeFails`), and only then. Where an argument is not there the
function has not been asked. Otherwise it has been asked once, with what the arguments were before any of the
results was written, and what it has done to the store stays done, also where the worker fails. Where nothing goes
wrong the frame is past the call and has changed in the registers for the results alone, which hold them. -/
theorem native_call_exact (h : w.At env.program f below (.nativeCall name args rets))
    (hn : env.natives.lookup name = some native) :
    let call := native w.info world.store
    let next := env.step world w
    (env.stepRecorded world w).1 = next ∧
    (∀ e, next.2 = w.failed env.program e ↔ f.NativeFails name call args rets e) ∧
    (∀ e, First (fun _ => f.Lacks) args e →
      env.stepRecorded world w = ((world, w.failed env.program e), [])) ∧
    (∀ values, f.readAll args = .ok values →
      next.1 = { world with store := (call values).1 } ∧
      (env.stepRecorded world w).2 = [⟨name, w.info, world.store, values⟩]) ∧
    ((∀ e, ¬ f.NativeFails name call args rets e) →
      ∃ values results g, f.readAll args = .ok values ∧ (call values).2 = .ok results ∧
        next.2 = { w with stack := g :: below } ∧ g.ip = f.ip + 1 ∧
        f.AgreesOff (rets.map AnyReg.place) g ∧ g.HoldsResults rets results) := by
  intro call next
  have hcases := @nativeFails_or_goesOn env world w f below name native args rets h hn
  refine ⟨env.stepRecorded_eq world w, fun e => ⟨fun hfailed => ?_, failed_of_nativeFails h hn⟩,
    fun e he => ?_, fun values hv => ?_, fun hnone => ?_⟩
  · rcases hcases with ⟨e', he'⟩ | ⟨values, results, g, -, -, hgoes, -⟩
    · rw [failed_of_nativeFails h hn he', Worker.failed_inj] at hfailed
      exact hfailed ▸ he'
    · exact (Worker.not_running_of_eq_failed (hgoes.symm.trans hfailed) h.running).elim
  · exact step_nativeCall_of_lacks h hn (Frame.readAll_eq_error_iff.mpr he)
  · exact ⟨world_nativeCall h hn hv, asked_nativeCall h hn hv⟩
  · rcases hcases with ⟨e, he⟩ | ⟨values, results, g, hv, hr, hgoes, htakes⟩
    · exact absurd he (hnone e)
    · exact ⟨values, results, g, hv, hr, hgoes, htakes.ip, htakes.agrees, htakes.holds⟩

end

end Environment

/-- Says that it has been asked, and hands its arguments back the other way round. -/
def Native.reversed : Native := fun _ s args => (s.printLine "reversed", .ok args.reverse)

def Environment.reversing : Environment where
  program :=
    { Program.doubling with
      code := #[.nativeCall "reversed" [⟨.int, 0⟩, ⟨.int, 1⟩] [⟨.int, 0⟩, ⟨.int, 1⟩, ⟨.str, 0⟩]] }
  natives := [("reversed", .reversed)]
  maxDepth := 4

/-- About to have 3 and 7 swapped. -/
def Frame.reversing : Frame :=
  { Frame.start ⟨0⟩ Program.mainInfo.defaultWorker with
    regs := { Registers.ofShape { ints := 2, strs := 1 } with ints := #[3, 7], strs := #["old"] } }

def Worker.reversing : Worker := .start ⟨1, ⟨0⟩, "main", defaultWorkerName⟩ .reversing

/-- The registers that the results go to are those that the arguments came from, and one more. -/
theorem Environment.reversing_exact :
    let world := World.start .empty []
    let next := Environment.reversing.step world .reversing
    (Environment.reversing.stepRecorded world .reversing).2 =
      [⟨"reversed", Worker.reversing.info, .empty, [.int 3, .int 7]⟩] ∧
    next.1.store.output = #["reversed"] ∧
    ∃ g, next.2 = { Worker.reversing with stack := [g] } ∧ g.ip = 1 ∧
      g.read ⟨.int, 0⟩ = .ok (.int 7) ∧ g.read ⟨.int, 1⟩ = .ok (.int 3) ∧
      g.read ⟨.str, 0⟩ = .ok (.str "") := by
  intro world next
  have h : Worker.reversing.At Environment.reversing.program .reversing []
      (.nativeCall "reversed" [⟨.int, 0⟩, ⟨.int, 1⟩] [⟨.int, 0⟩, ⟨.int, 1⟩, ⟨.str, 0⟩]) :=
    ⟨rfl, rfl, rfl⟩
  have hn : Environment.reversing.natives.lookup "reversed" = some .reversed := rfl
  obtain ⟨-, hfails, -, hasked, hgoes⟩ := @Environment.native_call_exact _ world _ _ _ _ _ _ _ h hn
  have hread : Frame.reversing.readAll [⟨.int, 0⟩, ⟨.int, 1⟩] = .ok [.int 3, .int 7] := rfl
  obtain ⟨hworld, hrecord⟩ := hasked _ hread
  have hrunning : next.2.progress = .running := rfl
  obtain ⟨values, results, g, hvalues, hresults, hnext, hip, -, hholds⟩ := hgoes fun e he =>
    Worker.not_running_of_eq_failed ((hfails e).mpr he) hrunning
  cases hread.symm.trans hvalues
  cases hresults
  have hnodup : [(⟨.int, 0⟩ : AnyReg), ⟨.int, 1⟩, ⟨.str, 0⟩].Nodup := by simp
  exact ⟨hrecord, congrArg (fun world : World => world.store.output) hworld, g, hnext, hip,
    hholds.read_of_nodup hnodup (i := 0) rfl, hholds.read_of_nodup hnodup (i := 1) rfl,
    hholds.read_of_nodup hnodup (i := 2) rfl⟩

end RegisterMachine
