import RegisterMachine.Proofs.Checked.Frames
import RegisterMachine.Proofs.Machine.Launching

/-!
# The machine, with every check

A step of a worker, and setting up an invocation, in a form that checks everything. A step relies on three
things: a sound heap, iterators that have got no further than there have been instructions, and room to
count the workers that it starts. The first two it keeps, with or without room (`Environment.step_kept`).
Where there is all of it, **`Environment.stepChecked_eq`**: every operation of the step has a result.
-/

namespace RegisterMachine

open Checked

/-! ## Source positions -/

namespace Program

/-- The source position of the instruction at `ip`, in an entry that must be there. -/
def positionChecked (p : Program) (ip : Nat) : Option (Option SourcePos) :=
  match (p.lines.takeWhile fun entry => entry.ip ≤ ip).length with
  | 0 => some none
  | last + 1 => (p.lines[last]?).map fun entry => some entry.pos

theorem positionChecked_eq (p : Program) (ip : Nat) : p.positionChecked ip = some (p.position? ip) := by
  obtain ⟨after, happ⟩ := List.takeWhile_prefix (l := p.lines) fun entry => decide (entry.ip ≤ ip)
  unfold positionChecked position?
  generalize p.lines.takeWhile (fun entry => decide (entry.ip ≤ ip)) = past at happ ⊢
  cases hlen : past.length with
  | zero =>
    rw [List.length_eq_zero_iff.mp hlen]
    rfl
  | succ last =>
    have hlt : last < past.length := hlen ▸ Nat.lt_succ_self last
    have hget : p.lines[last]? = some past[last] := by
      rw [← happ, List.getElem?_append_left hlt, List.getElem?_eq_getElem hlt]
    rw [List.getLast?_eq_getElem?, hlen, Nat.add_sub_cancel, List.getElem?_eq_getElem hlt]
    dsimp only
    rw [hget]
    rfl

end Program

namespace CallStack

/-- What a stack trace says about a frame. -/
def entryOfChecked (p : Program) (f : Frame) : Option TraceEntry :=
  (p.positionChecked (max (f.ip - 1) f.entry)).map fun position =>
    { function := ((p.function? f.function).map FunctionInfo.name).getD f.function.render
      worker := f.worker
      position }

def traceChecked (p : Program) (stack : CallStack) : Option (List TraceEntry) :=
  stack.mapM (entryOfChecked p)

theorem traceChecked_eq (p : Program) (stack : CallStack) :
    stack.traceChecked p = some (stack.trace p) := by
  refine mapM_eq_some fun f _ => ?_
  unfold entryOfChecked
  rw [p.positionChecked_eq]
  rfl

end CallStack

/-! ## Starting workers -/

/-- Counts a worker in. There must be room to count it. -/
def Scheduler.registerChecked (s : Scheduler) (function : FunctionId)
    (functionName workerName : String) : Option (Scheduler × WorkerInstance) := do
  let inFlight ← place? (s.inFlight + 1)
  let worker : WorkerInstance := { id := s.nextId, function, functionName, workerName }
  some ({ s with nextId := s.nextId + 1, live := s.live ++ [worker], inFlight }, worker)

theorem Scheduler.registerChecked_eq {s : Scheduler} (h : s.inFlight + 1 < 2 ^ 64)
    (function : FunctionId) (functionName workerName : String) :
    s.registerChecked function functionName workerName =
      some (s.register function functionName workerName) := by
  unfold registerChecked
  rw [place?_of_lt h]
  rfl

namespace World

/-- Counts a worker in and lets it wait for its turn. -/
def enqueueChecked (functionName : String) (w : World) (frame : Frame) : Option World := do
  let (scheduler, info) ← w.scheduler.registerChecked frame.function functionName frame.worker
  some { w with scheduler, waiting := w.waiting ++ [.start info frame] }

/-- Starts the named workers of a function on the same arguments. -/
def spawnChecked (w : World) (id : FunctionId) (info : FunctionInfo) (args : List (Bank × Value)) :
    Checked ExecutionError World := do
  let frames ← info.workers.mapM fun worker => (Frame.start id worker).bindChecked w.store.heap args
  .must (frames.foldlM (enqueueChecked info.name) w)

theorem foldl_enqueue_inFlight (name : String) (frames : List Frame) (w : World) :
    (frames.foldl (fun w frame => w.enqueue name frame) w).scheduler.inFlight =
      w.scheduler.inFlight + frames.length := by
  induction frames generalizing w with
  | nil => rfl
  | cons frame rest ih =>
    have hnext : (w.enqueue name frame).scheduler.inFlight = w.scheduler.inFlight + 1 := rfl
    rw [List.foldl_cons, ih, List.length_cons]
    omega

theorem foldlM_enqueueChecked_eq (name : String) (frames : List Frame) {w : World}
    (h : w.scheduler.inFlight + frames.length < 2 ^ 64) :
    frames.foldlM (enqueueChecked name) w =
      some (frames.foldl (fun w frame => w.enqueue name frame) w) := by
  induction frames generalizing w with
  | nil => rfl
  | cons frame rest ih =>
    rw [List.length_cons] at h
    have hfirst : enqueueChecked name w frame = some (w.enqueue name frame) := by
      unfold enqueueChecked
      rw [Scheduler.registerChecked_eq (by omega)]
      rfl
    have hnext : (w.enqueue name frame).scheduler.inFlight = w.scheduler.inFlight + 1 := rfl
    rw [List.foldlM_cons, hfirst, List.foldl_cons]
    exact ih (by omega)

theorem spawn_inFlight {w w' : World} {id : FunctionId} {info : FunctionInfo}
    {args : List (Bank × Value)} (h : w.spawn id info args = .ok w') :
    w'.scheduler.inFlight = w.scheduler.inFlight + info.workers.length := by
  obtain ⟨frames, hframes, rfl⟩ := spawn_eq_ok h
  rw [foldl_enqueue_inFlight, hframes.length_eq]

/-- There is room to start workers if there is room to count those that are at work afterwards. -/
theorem spawnChecked_safe (w : World) (id : FunctionId) (info : FunctionInfo)
    (args : List (Bank × Value))
    (hroom : ∀ w', w.spawn id info args = .ok w' → w'.scheduler.inFlight < 2 ^ 64) :
    Safe (fun _ => True) (w.spawnChecked id info args) (w.spawn id info args) := by
  have hframes := Safe.mapM (P := fun _ => True) fun (worker : WorkerInfo)
      (_ : worker ∈ info.workers) =>
    (Frame.bindChecked_safe w.store.heap args (Frame.Shaped.start id worker)).mono
      fun _ _ => trivial
  refine hframes.with_eq.bind fun frames hf => ?_
  refine .result (foldlM_enqueueChecked_eq info.name frames ?_) trivial
  rw [← foldl_enqueue_inFlight info.name frames w]
  refine hroom _ ?_
  unfold spawn
  rw [hf.1]
  rfl

/-- Sets up an invocation. -/
def launchChecked (world : World) (id : FunctionId) (info : FunctionInfo)
    (args : List (Bank × Value)) : Checked ExecutionError Invocation := do
  let frame ← (Frame.start id info.defaultWorker).bindChecked world.store.heap args
  let (scheduler, me) ← .must
    (world.scheduler.registerChecked id info.name info.defaultWorker.name)
  let world ← { world with scheduler }.spawnChecked id info args
  let world := world.hold (args.map Prod.snd)
  pure { world := { world with waiting := .start me frame :: world.waiting }
         main := me.id
         ended := [] }

theorem launchChecked_safe (world : World) (id : FunctionId) (info : FunctionInfo)
    (args : List (Bank × Value))
    (hroom : world.scheduler.inFlight + (info.defaultWorker :: info.workers).length < 2 ^ 64) :
    Safe (fun _ => True) (world.launchChecked id info args) (world.launch id info args) := by
  rw [List.length_cons] at hroom
  have hbind := Frame.bindChecked_safe world.store.heap args (Frame.Shaped.start id info.defaultWorker)
  refine hbind.bind fun frame _ => ?_
  refine .must (Scheduler.registerChecked_eq (by omega) _ _ _) ?_
  refine (spawnChecked_safe _ id info args fun w' hw' => ?_).bind fun w' _ => .pure trivial
  have hcount := spawn_inFlight hw'
  dsimp only at hcount
  omega

end World

/-! ## Steps -/

/-- No iterator of a frame on the stack has got further than to `n`. -/
def CallStack.Within (n : Nat) (stack : CallStack) : Prop := ∀ f ∈ stack, f.Within n

theorem CallStack.Within.mono {n m : Nat} {stack : CallStack} (hs : stack.Within n) (hle : n ≤ m) :
    stack.Within m := fun f hf => (hs f hf).mono hle

theorem CallStack.Within.cons {n : Nat} {stack : CallStack} {f : Frame} (hf : f.Within n)
    (hs : stack.Within n) : CallStack.Within n (f :: stack) := List.forall_mem_cons.mpr ⟨hf, hs⟩

/-- A worker that is about to run its first instruction has no iterators. -/
theorem Worker.FreshOf.within {n : Nat} {id : FunctionId} {w : WorkerInfo} {worker : Worker}
    (h : worker.FreshOf id w) : worker.stack.Within n := by
  obtain ⟨heap, args, frame, hb, hw⟩ := h
  rw [hw]
  intro f hf
  rw [List.mem_singleton.mp hf]
  have hkeeps := (Frame.bindChecked_safe heap args (Frame.Shaped.start id w)).meets.of_ok hb
  exact (Frame.Within.start id w).keeps hkeeps

/-- Native functions, whatever else they do, leave a sound heap sound. -/
def Natives.KeepSound (natives : Natives) : Prop :=
  ∀ name native, natives.lookup name = some native →
    ∀ info store args, store.heap.Sound → (native info store args).1.heap.Sound

/-- The heap is sound, and the iterators have got no further than to `n`. -/
structure Executed.Kept (n : Nat) (done : Executed) : Prop where
  heap : done.world.store.heap.Sound
  stack : done.stack.Within n

/-- What a call leaves. -/
def Executed.called (world : World) (stack : CallStack) :
    Except ExecutionError (World × CallStack) → Executed
  | .ok (world, stack) => ⟨world, stack, .ok .goOn⟩
  | .error e => ⟨world, stack, .error e⟩

namespace Environment

variable (env : Environment) {world : World} {stack : CallStack} {n : Nat}

/-- Calls a function. -/
def callChecked (world : World) (stack : CallStack) (id : FunctionId) (args rets : List AnyReg) :
    Checked ExecutionError (World × CallStack) :=
  match env.program.function? id with
  | none => throw (.unknownFunction id)
  | some info =>
      if env.maxDepth ≤ stack.length then throw (.stackOverflow env.maxDepth)
      else
        match stack with
        | [] => throw .stackUnderflow
        | caller :: _ => do
            let values ← .lift (caller.readAll args)
            let args := (args.map fun r => Bank.value r.bank).zip values
            let callee := (Frame.start id info.defaultWorker).returningTo caller.ip rets
            let callee ← callee.bindChecked world.store.heap args
            let world ← world.spawnChecked id info args
            let _ ← .must (place? (stack.length + 1))
            pure (world, callee :: stack)

/-- Executes an instruction that has been fetched. -/
def executeChecked (world : World) (info : WorkerInstance) (stack : CallStack) (i : Instruction) :
    Option Executed :=
  match i with
  | .call id args rets =>
      (env.callChecked world stack id args rets).run.map (.called world stack)
  | .ret regs => some (ret world stack regs)
  | .nativeCall name args rets => some (env.nativeCall world info stack name args rets)
  | i =>
      match stack with
      | [] => some ⟨world, stack, .error .stackUnderflow⟩
      | frame :: below =>
          (frame.execChecked env.program (world.isHeld stack) world.store.heap i).run.map
            (.within world stack below)

/-- Fetches the next instruction and executes it. -/
def advanceChecked (world : World) (info : WorkerInstance) (stack : CallStack) : Option Executed :=
  match stack with
  | [] => some ⟨world, stack, .error .stackUnderflow⟩
  | frame :: below =>
      match env.program.instruction? frame.ip with
      | none => some ⟨world, stack, .error (.invalidInstructionPointer frame.ip)⟩
      | some i => do
          let ip ← place? (frame.ip + 1)
          env.executeChecked world info ({ frame with ip } :: below) i

/-- One step of a worker. -/
def stepChecked (world : World) (worker : Worker) : Option (World × Worker) :=
  match worker.progress with
  | .running => do
      let done ← env.advanceChecked world worker.info worker.stack
      match done.result with
      | .ok .goOn => some (done.world, { worker with stack := done.stack })
      | .ok (.finished values) =>
          some (done.world, { worker with stack := done.stack, progress := .returned values })
      | .error error => do
          let trace ← done.stack.traceChecked env.program
          some (done.world, { worker with stack := [], progress := .faulted { error, trace } })
  | _ => some (world, worker)

theorem execute_called (world : World) (info : WorkerInstance) (stack : CallStack)
    (id : FunctionId) (args rets : List AnyReg) :
    env.execute world info stack (.call id args rets) =
      .called world stack (env.call world stack id args rets) := rfl

/-! ### What a step keeps -/

theorem call_kept (hheap : world.store.heap.Sound) (hstack : stack.Within n) (id : FunctionId)
    (args rets : List AnyReg) :
    Meets (fun r => r.1.store.heap.Sound ∧ CallStack.Within n r.2) (fun _ => True)
      (env.call world stack id args rets) := by
  unfold call
  split
  · exact trivial
  · rename_i info _
    split
    · exact trivial
    · cases stack with
      | nil => exact trivial
      | cons caller below =>
        refine Meets.bind_any fun values => ?_
        have hfresh : ((Frame.start id info.defaultWorker).returningTo caller.ip rets).Within n :=
          Frame.Within.start id info.defaultWorker
        have hcallee := Frame.bindChecked_safe world.store.heap
          ((args.map fun r => Bank.value r.bank).zip values)
          (f := (Frame.start id info.defaultWorker).returningTo caller.ip rets)
          (Frame.Shaped.start id info.defaultWorker)
        refine hcallee.meets.bind fun callee hkeeps => ?_
        refine Meets.any.with_eq.bind fun world' hworld => ⟨?_, ?_⟩
        · rw [(World.spawn_leaves hworld.1).1]
          exact hheap
        · exact .cons (hfresh.keeps hkeeps) hstack

/-- A return writes to registers of the caller. -/
theorem ret_kept (hheap : world.store.heap.Sound) (hstack : stack.Within n) (regs : List AnyReg) :
    (ret world stack regs).Kept n := by
  unfold ret
  split
  · exact ⟨hheap, hstack⟩
  · rename_i callee below
    obtain ⟨hcallee, hbelow⟩ := List.forall_mem_cons.mp hstack
    split
    · exact ⟨hheap, hstack⟩
    · rename_i values _
      split
      · exact ⟨hheap, hbelow⟩
      · rename_i ip _
        split
        · exact ⟨hheap, hbelow⟩
        · rename_i caller rest
          obtain ⟨hcaller, hrest⟩ := List.forall_mem_cons.mp hbelow
          have hmoved : ({ caller with ip } : Frame).Within n := hcaller
          have hkeeps := Frame.writeAll_keepsIterators world.store.heap { caller with ip }
            callee.rets values
          dsimp only
          split
          · exact ⟨hheap, .cons (hmoved.keeps (hkeeps.of_ok ‹_›)) hrest⟩
          · exact ⟨hheap, .cons hmoved hrest⟩

/-- A native function changes the store, and the results go to registers. -/
theorem nativeCall_kept (hnatives : env.natives.KeepSound) (hheap : world.store.heap.Sound)
    (hstack : stack.Within n) (info : WorkerInstance) (name : String) (args rets : List AnyReg) :
    (env.nativeCall world info stack name args rets).Kept n := by
  unfold nativeCall
  split
  · exact ⟨hheap, hstack⟩
  · rename_i native hnative
    split
    · exact ⟨hheap, hstack⟩
    · rename_i frame below
      obtain ⟨hframe, hbelow⟩ := List.forall_mem_cons.mp hstack
      split
      · exact ⟨hheap, hstack⟩
      · rename_i values _
        have hafter := hnatives name native hnative info world.store values hheap
        dsimp only
        generalize native info world.store values = called at hafter
        obtain ⟨store, result⟩ := called
        cases result with
        | error e => exact ⟨hafter, hstack⟩
        | ok results =>
          have hkeeps := Frame.writeAll_keepsIterators store.heap frame rets results
          dsimp only
          split
          · exact ⟨hafter, .cons (hframe.keeps (hkeeps.of_ok ‹_›)) hbelow⟩
          · exact ⟨hafter, hstack⟩

theorem execute_kept (hnatives : env.natives.KeepSound) (hn : n + 1 < 2 ^ 63)
    (hheap : world.store.heap.Sound) (hstack : stack.Within n) (info : WorkerInstance)
    (i : Instruction) : (env.execute world info stack i).Kept (n + 1) := by
  have hlater : stack.Within (n + 1) := hstack.mono (Nat.le_succ n)
  by_cases hl : i.isLocal = true
  · cases stack with
    | nil => cases i <;> first | exact ⟨hheap, hlater⟩ | exact absurd hl Bool.false_ne_true
    | cons frame below =>
      obtain ⟨hframe, (hbelow : CallStack.Within n below)⟩ := List.forall_mem_cons.mp hstack
      rw [env.execute_local world info frame below hl]
      have hmeets := (frame.execChecked_safe env.program (world.isHeld (frame :: below)) hheap
        hframe hn hl).meets
      cases he : frame.exec env.program (world.isHeld (frame :: below)) world.store.heap i with
      | error e => exact ⟨hheap, hlater⟩
      | ok r =>
        obtain ⟨hheap', hframe'⟩ := hmeets.of_ok he
        exact ⟨hheap', .cons hframe' (hbelow.mono (Nat.le_succ n))⟩
  · cases i with
    | call id args rets =>
      rw [env.execute_called]
      have hmeets := env.call_kept hheap hlater id args rets
      cases hc : env.call world stack id args rets with
      | error e => exact ⟨hheap, hlater⟩
      | ok r =>
        obtain ⟨hheap', hstack'⟩ := hmeets.of_ok hc
        exact ⟨hheap', hstack'⟩
    | ret regs => exact ret_kept hheap hlater regs
    | nativeCall name args rets => exact env.nativeCall_kept hnatives hheap hlater info name args rets
    | _ => exact absurd rfl hl

/-- How many instructions are executed when the next one is fetched: one, if there is one. -/
def fetches (stack : CallStack) : Nat :=
  match stack with
  | [] => 0
  | f :: _ => if (env.program.instruction? f.ip).isSome then 1 else 0

/-- How many instructions a step of a worker executes. -/
def executes (w : Worker) : Nat :=
  match w.progress with
  | .running => env.fetches w.stack
  | _ => 0

theorem advance_kept (hnatives : env.natives.KeepSound) (hn : n + env.fetches stack < 2 ^ 63)
    (hheap : world.store.heap.Sound) (hstack : stack.Within n) (info : WorkerInstance) :
    (env.advance world info stack).Kept (n + env.fetches stack) := by
  cases stack with
  | nil => exact ⟨hheap, hstack⟩
  | cons f below =>
    unfold advance
    unfold fetches at *
    dsimp only at *
    cases hi : env.program.instruction? f.ip with
    | none => exact ⟨hheap, hstack⟩
    | some i =>
      rw [hi] at hn
      obtain ⟨hf, hbelow⟩ := List.forall_mem_cons.mp hstack
      have hpast : f.past.Within n := hf
      exact env.execute_kept hnatives hn hheap (.cons hpast hbelow) info i

/-- **A step keeps what steps rely on**: the heap is sound, and the worker's iterators have got no
further than there have been instructions. -/
theorem step_kept (hnatives : env.natives.KeepSound) {w : Worker}
    (hn : n + env.executes w < 2 ^ 63) (hheap : world.store.heap.Sound)
    (hstack : w.stack.Within n) :
    (env.step world w).1.store.heap.Sound ∧
      (env.step world w).2.stack.Within (n + env.executes w) := by
  unfold executes at *
  cases hp : w.progress with
  | running =>
    rw [hp] at hn
    obtain ⟨hheap', hstack'⟩ := env.advance_kept hnatives hn hheap hstack w.info
    unfold step
    rw [hp]
    generalize env.advance world w.info w.stack = done at hheap' hstack'
    obtain ⟨world', stack', result⟩ := done
    cases result with
    | ok flow => cases flow <;> exact ⟨hheap', hstack'⟩
    | error e => exact ⟨hheap', fun f hf => absurd hf List.not_mem_nil⟩
  | _ =>
    unfold step
    rw [hp]
    exact ⟨hheap, hstack⟩

/-! ### What a step uses -/

/-- A call relies on room to count its workers, and on the depth of a stack being a number that fits. -/
theorem callChecked_eq (hdepth : env.maxDepth < 2 ^ 64) (id : FunctionId) (args rets : List AnyReg)
    (hroom : ∀ r, env.call world stack id args rets = .ok r → r.1.scheduler.inFlight < 2 ^ 64) :
    (env.callChecked world stack id args rets).run = some (env.call world stack id args rets) := by
  suffices hsafe : Safe (fun _ => True) (env.callChecked world stack id args rets)
      (env.call world stack id args rets) from hsafe.run_eq
  unfold callChecked call at *
  cases hf : env.program.function? id with
  | none => exact .throw _
  | some info =>
    rw [hf] at hroom
    dsimp only at hroom ⊢
    split
    · exact .throw _
    · rename_i hlt
      rw [if_neg hlt] at hroom
      cases stack with
      | nil => exact .throw _
      | cons caller below =>
        refine (Safe.lift (Meets.any (x := caller.readAll args))).with_eq.bind fun values hv => ?_
        generalize hhanded : (args.map fun r => Bank.value r.bank).zip values = handed
        have hcallee := Frame.bindChecked_safe world.store.heap handed
          (f := (Frame.start id info.defaultWorker).returningTo caller.ip rets)
          (Frame.Shaped.start id info.defaultWorker)
        refine hcallee.with_eq.bind fun callee hc => ?_
        refine (world.spawnChecked_safe id info handed fun w' hw' => ?_).bind fun w' _ => ?_
        · refine hroom (w', callee :: caller :: below) ?_
          dsimp only
          rw [hv.1]
          show (Frame.bind world.store.heap _ _ >>= _) = _
          rw [hhanded, hc.1]
          show (world.spawn id info handed >>= _) = _
          rw [hw']
          rfl
        · exact .must (place?_of_lt (by omega)) (.pure trivial)

theorem executeChecked_eq (hdepth : env.maxDepth < 2 ^ 64) (hn : n + 1 < 2 ^ 63)
    (hheap : world.store.heap.Sound) (hstack : stack.Within n) (info : WorkerInstance)
    (i : Instruction)
    (hroom : (env.execute world info stack i).world.scheduler.inFlight < 2 ^ 64) :
    env.executeChecked world info stack i = some (env.execute world info stack i) := by
  by_cases hl : i.isLocal = true
  · cases stack with
    | nil => cases i <;> first | rfl | exact absurd hl Bool.false_ne_true
    | cons frame below =>
      have hrun := (frame.execChecked_safe env.program (world.isHeld (frame :: below)) hheap
        (hstack frame List.mem_cons_self) hn hl).run_eq
      rw [env.execute_local world info frame below hl]
      refine Eq.trans ?_ (congrArg (Option.map (Executed.within world (frame :: below) below)) hrun)
      cases i <;> first | rfl | exact absurd hl Bool.false_ne_true
  · cases i with
    | call id args rets =>
      refine congrArg (Option.map (Executed.called world stack))
        (env.callChecked_eq hdepth id args rets fun r hr => ?_)
      rw [env.execute_called, hr] at hroom
      exact hroom
    | ret regs => rfl
    | nativeCall name args rets => rfl
    | _ => exact absurd rfl hl

/-- The next instruction has an offset that is a word, since it is in the code. -/
theorem advanceChecked_eq (hcode : env.program.code.size < 2 ^ 63) (hdepth : env.maxDepth < 2 ^ 64)
    (hn : n + env.fetches stack < 2 ^ 63) (hheap : world.store.heap.Sound)
    (hstack : stack.Within n) (info : WorkerInstance)
    (hroom : (env.advance world info stack).world.scheduler.inFlight < 2 ^ 64) :
    env.advanceChecked world info stack = some (env.advance world info stack) := by
  cases stack with
  | nil => rfl
  | cons f below =>
    unfold advanceChecked advance at *
    unfold fetches at hn
    dsimp only at *
    cases hi : env.program.instruction? f.ip with
    | none => rfl
    | some i =>
      rw [hi] at hn hroom
      have hip : f.ip < env.program.code.size := (Array.getElem?_eq_some_iff.mp hi).1
      obtain ⟨hf, hbelow⟩ := List.forall_mem_cons.mp hstack
      have hpast : f.past.Within n := hf
      dsimp only
      rw [place?_of_lt (by omega)]
      exact env.executeChecked_eq hdepth hn hheap (.cons hpast hbelow) info i hroom

/-- **Every operation that a step of a worker uses has a result.** -/
theorem stepChecked_eq (hcode : env.program.code.size < 2 ^ 63) (hdepth : env.maxDepth < 2 ^ 64)
    {w : Worker} (hn : n + env.executes w < 2 ^ 63) (hheap : world.store.heap.Sound)
    (hstack : w.stack.Within n)
    (hroom : (env.step world w).1.scheduler.inFlight < 2 ^ 64) :
    env.stepChecked world w = some (env.step world w) := by
  unfold executes at hn
  cases hp : w.progress with
  | running =>
    rw [hp] at hn
    rw [step_world world hp] at hroom
    have hadvance := env.advanceChecked_eq hcode hdepth hn hheap hstack w.info hroom
    unfold stepChecked step
    rw [hp]
    dsimp only
    rw [hadvance]
    generalize env.advance world w.info w.stack = done
    obtain ⟨world', stack', result⟩ := done
    cases result with
    | ok flow => cases flow <;> rfl
    | error e =>
      show (CallStack.traceChecked env.program stack').bind _ = _
      rw [CallStack.traceChecked_eq]
      rfl
  | _ =>
    unfold stepChecked step
    rw [hp]

end Environment

end RegisterMachine
