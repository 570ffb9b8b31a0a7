import RegisterMachine.Proofs.Machine.Local
import RegisterMachine.Proofs.Machine.Spawning

/-!
# What one step can do to a stack

`Moves env stack stack' progress` lists it, one constructor for each way: the top frame moves on
within itself, it calls, it returns to the frame below, the bottom frame returns, or the worker
faults. **`Environment.step_moves` says that the list is complete**, and every statement about
workers below goes through it and never unfolds a step again.

Two things are left out of the list on purpose. What the step does to the world is no part of it: a
worker's stack is its own, and what it becomes depends on the world only in which values are read.
And a fault is told by its error alone, with one exception: an error that is fatal comes with its
`Flaw`, the defect of code or stack that is behind it.
-/

namespace RegisterMachine

/-- What must be wrong with the code or the stack for a step to end in a fatal error. -/
inductive Flaw (p : Program) : CallStack → ExecutionError → Prop
  /-- There is no frame to take a step. -/
  | empty : Flaw p [] .stackUnderflow
  /-- The bottom frame wants to go back to a caller. -/
  | orphan {f : Frame} {ip : Nat} (hr : f.returnTo = some ip) : Flaw p [f] .stackUnderflow
  /-- The code has run out. -/
  | pointer {f : Frame} {below : CallStack} (hi : p.instruction? f.ip = none) :
      Flaw p (f :: below) (.invalidInstructionPointer f.ip)
  /-- The instruction names a register that its frame does not have. -/
  | operand {f : Frame} {below : CallStack} {i : Instruction} {b : Bank} {r : UInt16}
      (hi : p.instruction? f.ip = some i) (hm : (b, r.toNat) ∈ i.places)
      (hh : ¬ f.Has (b, r.toNat)) : Flaw p (f :: below) (.invalidRegister b r)
  /-- A call has more arguments than one of the workers it starts has registers. -/
  | argument {f : Frame} {below : CallStack} {id : FunctionId} {args rets : List AnyReg}
      {info : FunctionInfo} {w : WorkerInfo} {b : Bank} {r : UInt16}
      (hi : p.instruction? f.ip = some (.call id args rets)) (hf : p.function? id = some info)
      (hw : w ∈ info.defaultWorker :: info.workers)
      (ht : ¬ w.registers.Takes (args.map fun r => .value r.bank)) :
      Flaw p (f :: below) (.invalidRegister b r)
  /-- A caller does not have a register that is to take a result. -/
  | result {f caller : Frame} {rest : CallStack} {ip : Nat} {b : Bank} {r : UInt16}
      (hr : f.returnTo = some ip) (hm : (b, r.toNat) ∈ f.rets.map AnyReg.place)
      (hh : ¬ caller.Has (b, r.toNat)) : Flaw p (f :: caller :: rest) (.invalidRegister b r)

/-- What a step can make of a stack, and how far the worker is after it. -/
inductive Moves (env : Environment) : CallStack → CallStack → Progress → Prop
  /-- The top frame goes on, having written to the destinations of its instruction. -/
  | within {f g : Frame} {below : CallStack} {i : Instruction}
      (hi : env.program.instruction? f.ip = some i) (hk : i.keepsFrame = true)
      (hn : g.ip ∈ i.targets (f.ip + 1)) (hg : f.AgreesOff i.destinations g) :
      Moves env (f :: below) (g :: below) .running
  /-- A fresh frame of the function's default worker comes on top. -/
  | call {f callee : Frame} {below : CallStack} {id : FunctionId} {args rets : List AnyReg}
      {info : FunctionInfo} {ps : List Place}
      (hi : env.program.instruction? f.ip = some (.call id args rets))
      (hf : env.program.function? id = some info) (hd : (f :: below).length < env.maxDepth)
      (hc : ((Frame.start id info.defaultWorker).returningTo (f.ip + 1) rets).AgreesOff ps callee)
      (hip : callee.ip = info.defaultWorker.entry) :
      Moves env (f :: below) (callee :: f.past :: below) .running
  /-- The frame below goes on where it was to, and holds the results. -/
  | ret {f caller g : Frame} {rest : CallStack} {regs : List AnyReg} {values : List Value}
      {ip : Nat} (hi : env.program.instruction? f.ip = some (.ret regs))
      (hv : f.readAll regs = .ok values) (hr : f.returnTo = some ip)
      (hg : caller.AgreesOff (f.rets.map AnyReg.place) g) (hip : g.ip = ip)
      (hres : g.HoldsResults f.rets values) : Moves env (f :: caller :: rest) (g :: rest) .running
  /-- A frame with no caller returns. -/
  | finish {f : Frame} {below : CallStack} {regs : List AnyReg} {values : List Value}
      (hi : env.program.instruction? f.ip = some (.ret regs))
      (hv : f.readAll regs = .ok values) (hr : f.returnTo = none) :
      Moves env (f :: below) below (.returned values)
  | fault {stack : CallStack} {fault : Fault}
      (hf : fault.error.isFatal = true → Flaw env.program stack fault.error) :
      Moves env stack [] (.faulted fault)

namespace Moves

variable {env : Environment} {stack stack' : CallStack}

/-- A fault leaves no frame. -/
theorem of_faulted {fault : Fault} (h : Moves env stack stack' (.faulted fault)) :
    stack' = [] ∧ (fault.error.isFatal = true → Flaw env.program stack fault.error) := by
  cases h with
  | fault hf => exact ⟨rfl, hf⟩

/-- Only a frame that has no caller ends the worker by returning. -/
theorem of_returned {values : List Value} (h : Moves env stack stack' (.returned values)) :
    ∃ f, stack = f :: stack' ∧ f.returnTo = none := by
  cases h with
  | finish hi hv hr => exact ⟨_, rfl, hr⟩

end Moves

/-- What an executed instruction leaves is one of the moves from `stack`, and it has started nothing
but fresh workers. -/
def Executed.IsMove (env : Environment) (world : World) (stack : CallStack) (done : Executed) :
    Prop :=
  World.Adds env.program world done.world ∧
    match done.result with
    | .ok .goOn => Moves env stack done.stack .running
    | .ok (.finished values) => Moves env stack done.stack (.returned values)
    | .error e => e.isFatal = true → Flaw env.program stack e

namespace Executed.IsMove

variable {env : Environment} {world world' : World} {stack stack' : CallStack}

theorem goOn (hw : world'.waiting = world.waiting) (hs : world'.scheduler = world.scheduler)
    (h : Moves env stack stack' .running) :
    (Executed.mk world' stack' (.ok .goOn)).IsMove env world stack := ⟨.none hw hs, h⟩

theorem finished {values : List Value} (h : Moves env stack stack' (.returned values)) :
    (Executed.mk world stack' (.ok (.finished values))).IsMove env world stack :=
  ⟨.none rfl rfl, h⟩

theorem failed {e : ExecutionError} (hw : world'.waiting = world.waiting)
    (hs : world'.scheduler = world.scheduler) (h : e.isFatal = true → Flaw env.program stack e) :
    (Executed.mk world' stack' (.error e)).IsMove env world stack := ⟨.none hw hs, h⟩

/-- Nothing has to be wrong for an error that is not fatal. -/
theorem failed_harmless {e : ExecutionError} (hw : world'.waiting = world.waiting)
    (hs : world'.scheduler = world.scheduler) (h : e.isFatal = false) :
    (Executed.mk world' stack' (.error e)).IsMove env world stack :=
  failed hw hs fun hf => absurd hf (by simp [h])

end Executed.IsMove

/-- What an instruction within the top frame leaves. -/
def Executed.within (world : World) (stack below : CallStack) :
    Except ExecutionError (Heap × Frame) → Executed
  | .ok (heap, frame) =>
      ⟨{ world with store := { world.store with heap } }, frame :: below, .ok .goOn⟩
  | .error e => ⟨world, stack, .error e⟩

namespace Environment

variable (env : Environment) (world : World) (info : WorkerInstance)

theorem execute_local (frame : Frame) (below : CallStack) {i : Instruction}
    (hi : i.isLocal = true) :
    env.execute world info (frame :: below) i = .within world (frame :: below) below
      (frame.exec env.program (world.isHeld (frame :: below)) world.store.heap i) := by
  cases i <;> first | exact absurd hi Bool.false_ne_true | rfl

-- an instruction is executed in a frame that has moved past it already
variable {f : Frame} {below : CallStack}

/-- An error that blames the instruction's own places is a flaw of the code. -/
theorem flaw_of_blames {i : Instruction} {e : ExecutionError} {ps : List Place}
    (hi : env.program.instruction? f.ip = some i) (hb : f.past.Blames ps e)
    (hs : ps ⊆ i.places) (hf : e.isFatal = true) : Flaw env.program (f :: below) e := by
  obtain ⟨b, r, rfl, hm, hh⟩ := hb hf
  exact .operand hi (hs hm) hh

/-- The values handed to a call, each with the bank it was read from. -/
theorem banks_of_readAll {args : List AnyReg} {values : List Value}
    (h : f.readAll args = .ok values) :
    (((args.map fun r => Bank.value r.bank).zip values).map Prod.fst)
      = args.map fun r => .value r.bank := by
  have hl : values.length = args.length := (f.readAll_meets args).of_ok h
  exact List.map_fst_zip (by simp [hl])

theorem execute_within {i : Instruction} (hi : env.program.instruction? f.ip = some i)
    (hl : i.isLocal = true) :
    (env.execute world info (f.past :: below) i).IsMove env world (f :: below) := by
  have hm := Frame.exec_meets env.program (world.isHeld (f.past :: below)) world.store.heap
    f.past hl
  rw [env.execute_local world info f.past below hl]
  cases he : f.past.exec env.program (world.isHeld (f.past :: below)) world.store.heap i with
  | ok r =>
    obtain ⟨hn, hg⟩ := hm.of_ok he
    exact .goOn rfl rfl (.within hi (Instruction.keepsFrame_of_isLocal hl) hn hg.of_jump)
  | error e => exact .failed rfl rfl (env.flaw_of_blames hi (hm.of_error he) (List.Subset.refl _))

/-- A call, of a function that need not exist and with arguments that need not fit. -/
theorem call_meets {id : FunctionId} {args rets : List AnyReg}
    (hi : env.program.instruction? f.ip = some (.call id args rets)) :
    Meets
      (fun r => World.Adds env.program world r.1 ∧ Moves env (f :: below) r.2 .running)
      (fun e => e.isFatal = true → Flaw env.program (f :: below) e)
      (env.call world (f.past :: below) id args rets) := by
  unfold call
  cases hf : env.program.function? id with
  | none => exact fun hfatal => absurd hfatal (by simp [ExecutionError.isFatal])
  | some info =>
    dsimp only
    split
    · exact fun hfatal => absurd hfatal (by simp [ExecutionError.isFatal])
    rename_i hd
    refine Meets.bind (P := fun values => f.past.readAll args = .ok values)
      (.intro (fun _ h => h) fun e he => ?_) fun values hv => ?_
    · exact env.flaw_of_blames hi ((f.past.readAll_meets args).of_error he) (by simp)
    have hbanks := banks_of_readAll hv
    -- the arguments as they are handed on, to the callee and to its named workers alike
    generalize hz : (args.map fun r => Bank.value r.bank).zip values = handed
    rw [hz] at hbanks
    have hcallee := Frame.bind_meets world.store.heap
      (f := (Frame.start id info.defaultWorker).returningTo (f.ip + 1) rets)
      (Frame.Shaped.start id info.defaultWorker) handed
    refine Meets.bind (hcallee.mono (fun _ h => h) fun e he hfatal => ?_) fun callee hc => ?_
    · obtain ⟨⟨b, r, rfl⟩, ht⟩ := he hfatal
      exact .argument hi hf List.mem_cons_self (hbanks ▸ ht)
    have hspawn := world.spawn_meets id info handed
    refine Meets.bind (hspawn.mono (fun _ h => h) fun e he hfatal => ?_) fun world' hw => ?_
    · obtain ⟨⟨b, r, rfl⟩, w, hm, ht⟩ := he hfatal
      exact .argument hi hf (List.mem_cons_of_mem _ hm) (hbanks ▸ ht)
    obtain ⟨⟨ps, hps⟩, hip⟩ := hc
    obtain ⟨started, hstart, hfresh⟩ := hw
    refine ⟨⟨started, hstart, fun s hs => ⟨id, info, hf, hfresh s hs⟩⟩, ?_⟩
    exact .call hi hf (Nat.lt_of_not_le hd) hps hip

theorem execute_call {id : FunctionId} {args rets : List AnyReg}
    (hi : env.program.instruction? f.ip = some (.call id args rets)) :
    (env.execute world info (f.past :: below) (.call id args rets)).IsMove env world
      (f :: below) := by
  have hm := @call_meets env world f below id args rets hi
  cases hc : env.call world (f.past :: below) id args rets with
  | ok r =>
    have hx : env.execute world info (f.past :: below) (.call id args rets) =
        ⟨r.1, r.2, .ok .goOn⟩ := by simp only [execute, hc]
    rw [hx]
    exact hm.of_ok hc
  | error e =>
    have hx : env.execute world info (f.past :: below) (.call id args rets) =
        ⟨world, f.past :: below, .error e⟩ := by simp only [execute, hc]
    rw [hx]
    exact .failed rfl rfl (hm.of_error hc)

theorem execute_nativeCall {name : String} {args rets : List AnyReg}
    (hi : env.program.instruction? f.ip = some (.nativeCall name args rets)) :
    (env.execute world info (f.past :: below) (.nativeCall name args rets)).IsMove env world
      (f :: below) := by
  show (env.nativeCall world info (f.past :: below) name args rets).IsMove env world (f :: below)
  unfold nativeCall
  cases env.natives.lookup name with
  | none => exact .failed_harmless rfl rfl rfl
  | some native =>
    dsimp only
    cases hv : f.past.readAll args with
    | error e =>
      have hb := (f.past.readAll_meets args).of_error hv
      exact .failed rfl rfl (env.flaw_of_blames hi hb (by simp))
    | ok values =>
      dsimp only
      cases native info world.store values with
      | mk store result =>
        cases result with
        | error e => exact .failed_harmless rfl rfl rfl
        | ok results =>
          have hm := Frame.writeAll_meets store.heap rets results f.past
          dsimp only
          cases hw : f.past.writeAll store.heap rets results with
          | error e =>
            exact .failed rfl rfl (env.flaw_of_blames hi (hm.of_error hw) (by simp))
          | ok g =>
            obtain ⟨hg, hip, -⟩ := hm.of_ok hw
            exact .goOn rfl rfl (.within hi rfl (by simp [hip]) hg.of_jump)

theorem execute_ret {regs : List AnyReg}
    (hi : env.program.instruction? f.ip = some (.ret regs)) :
    (env.execute world info (f.past :: below) (.ret regs)).IsMove env world (f :: below) := by
  show (ret world (f.past :: below) regs).IsMove env world (f :: below)
  unfold ret
  dsimp only
  cases hv : f.past.readAll regs with
  | error e =>
    have hb := (f.past.readAll_meets regs).of_error hv
    exact .failed rfl rfl (env.flaw_of_blames hi hb (by simp))
  | ok values =>
    cases hr : f.returnTo with
    | none => exact .finished (.finish hi hv hr)
    | some ip =>
      cases below with
      | nil => exact .failed rfl rfl fun _ => .orphan hr
      | cons caller rest =>
        have hm := Frame.writeAll_meets world.store.heap f.rets values { caller with ip }
        dsimp only
        cases hw : ({ caller with ip } : Frame).writeAll world.store.heap f.rets values with
        | error e =>
          refine .failed rfl rfl fun hf => ?_
          obtain ⟨b, r, rfl, hp, hh⟩ := hm.of_error hw hf
          exact .result hr hp hh
        | ok g =>
          obtain ⟨hg, hip, hres⟩ := hm.of_ok hw
          exact .goOn rfl rfl (.ret hi hv hr hg.of_jump hip hres)

/-- Fetching and executing is one of the moves. -/
theorem advance_isMove (stack : CallStack) :
    (env.advance world info stack).IsMove env world stack := by
  cases stack with
  | nil => exact .failed rfl rfl fun _ => .empty
  | cons f below =>
    unfold advance
    dsimp only
    cases hi : env.program.instruction? f.ip with
    | none => exact .failed rfl rfl fun _ => .pointer hi
    | some i =>
      by_cases hl : i.isLocal = true
      · exact env.execute_within world info hi hl
      · cases i with
        | call id args rets => exact env.execute_call world info hi
        | nativeCall name args rets => exact env.execute_nativeCall world info hi
        | ret regs => exact env.execute_ret world info hi
        | _ => exact absurd rfl hl

/-- **A step of a worker that has not ended is one of the moves.** -/
theorem step_moves {worker : Worker} (hp : worker.progress = .running) :
    Moves env worker.stack (env.step world worker).2.stack (env.step world worker).2.progress := by
  have hm := env.advance_isMove world worker.info worker.stack
  unfold Executed.IsMove at hm
  unfold step
  rw [hp]
  cases hr : (env.advance world worker.info worker.stack).result with
  | ok flow =>
    rw [hr] at hm
    cases flow with
    | goOn => simpa only [hr, hp] using hm.2
    | finished values => simpa only [hr] using hm.2
  | error e =>
    rw [hr] at hm
    simp only [hr]
    exact .fault hm.2

/-- A worker that has ended stays as it is. -/
theorem step_of_not_running {worker : Worker} (hp : worker.progress ≠ .running) :
    env.step world worker = (world, worker) := by
  unfold step
  cases h : worker.progress with
  | running => exact absurd h hp
  | returned values => rfl
  | faulted fault => rfl

/-- Whatever a step does, the workers that waited before it wait after it, and those that have come
are fresh. -/
theorem step_adds (worker : Worker) :
    World.Adds env.program world (env.step world worker).1 := by
  by_cases hp : worker.progress = .running
  · have hm := env.advance_isMove world worker.info worker.stack
    unfold step
    rw [hp]
    dsimp only
    split <;> exact hm.1
  · rw [step_of_not_running env world hp]
    exact .none rfl rfl

end Environment

end RegisterMachine
