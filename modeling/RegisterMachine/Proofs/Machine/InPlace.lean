import RegisterMachine.Proofs.Frame.InPlace
import RegisterMachine.Proofs.Machine.Course

/-!
# Steps carried out in place

A call counts in one worker after the other, and a return takes its frame off the stack before it looks at the
caller. `Environment.stepInPlace` carries out a step that way, with the instructions within a frame as in
`Frame.execInPlace`, and nothing is undone when it fails. A call has made every frame by the time it counts in the
first worker, and a return works on the worker's own stack, so again whatever fails fails before anyone else can
notice (`Environment.execute_carriedOut`). Hence **`Environment.stepInPlace_eq`**: nobody can tell which way a step
has been carried out.

**`Environment.fault_leaves_rest`** is what that comes to for a worker that faults.
-/

namespace RegisterMachine

open InPlace

/-! ## Calls and returns -/

/-- The frame on top. -/
def CallStack.top : CallStack → Except ExecutionError Frame
  | [] => .error .stackUnderflow
  | f :: _ => .ok f

namespace World

/-- Starts the named workers of a function: all their frames are made, and then they are counted in one
after another. -/
def spawnInPlace (id : FunctionId) (info : FunctionInfo) (args : List (Bank × Value)) :
    InPlace World ExecutionError Unit := do
  let frames ← look fun world =>
    info.workers.mapM fun w => (Frame.start id w).bind world.store.heap args
  forM frames fun frame => change fun world => world.enqueue info.name frame

theorem on_forM_enqueue (name : String) (frames : List Frame) (world : World) :
    (forM frames fun frame =>
        (change fun world => world.enqueue name frame : InPlace World ExecutionError Unit)).on world =
      (.ok (), frames.foldl (fun w f => w.enqueue name f) world) := by
  induction frames generalizing world with
  | nil => rfl
  | cons f rest ih =>
    rw [List.forM_cons, on_bind]
    exact ih (world.enqueue name f)

theorem spawnInPlace_follows (world : World) (id : FunctionId) (info : FunctionInfo)
    (args : List (Bank × Value)) :
    Follows (· = world) ((spawnInPlace id info args).on world) (world.spawn id info args) :=
  .read rfl fun frames _ => on_forM_enqueue info.name frames world

end World

namespace Environment

/-- Works on the frame on top and on the heap. -/
def onTop (c : InPlace (Heap × Frame) ExecutionError Unit) :
    InPlace (World × CallStack) ExecutionError Unit :=
  effect fun (world, stack) =>
    match stack with
    | [] => (.error .stackUnderflow, (world, stack))
    | f :: below =>
        putBack id (fun s => ({ world with store := { world.store with heap := s.1 } }, s.2 :: below))
          (c.on (world.store.heap, f))

/-- Works on the world. -/
def onWorld (c : InPlace World ExecutionError Unit) :
    InPlace (World × CallStack) ExecutionError Unit :=
  effect fun (world, stack) => putBack id (·, stack) (c.on world)

/-- Calls a function. -/
def callInPlace (env : Environment) (id : FunctionId) (args rets : List AnyReg) :
    InPlace (World × CallStack) ExecutionError Unit := do
  let info ← look fun _ =>
    match env.program.function? id with
    | none => .error (.unknownFunction id)
    | some info => .ok info
  let caller ← look fun s =>
    if env.maxDepth ≤ s.2.length then .error (.stackOverflow env.maxDepth) else s.2.top
  let values ← look fun _ => caller.readAll args
  let handed := (args.map fun r => Bank.value r.bank).zip values
  let callee ← look fun s =>
    ((Frame.start id info.defaultWorker).returningTo caller.ip rets).bind s.1.store.heap handed
  onWorld (World.spawnInPlace id info handed)
  change fun s => (s.1, callee :: s.2)

/-- Returns from the top frame, which is gone before its caller is looked at. -/
def retInPlace (regs : List AnyReg) : InPlace (World × CallStack) ExecutionError Flow := do
  let callee ← look fun s => s.2.top
  let values ← look fun _ => callee.readAll regs
  change fun s => (s.1, s.2.tail)
  match callee.returnTo with
  | none => pure (.finished values)
  | some ip => do
      onTop (Frame.inFrame fun _ caller => .ok { caller with ip })
      onTop (Frame.writeAllInPlace callee.rets values)
      pure .goOn

/-- Carries out an instruction that has been fetched. What a native function does stays done. -/
def executeInPlace (env : Environment) (info : WorkerInstance) :
    Instruction → InPlace (World × CallStack) ExecutionError Flow
  | .call id args rets => do
      env.callInPlace id args rets
      pure .goOn
  | .ret regs => retInPlace regs
  | .nativeCall name args rets =>
      effect fun (world, stack) =>
        let done := env.nativeCall world info stack name args rets
        (done.result, (done.world, done.stack))
  | i => do
      let isHeld ← look fun s => .ok (s.1.isHeld s.2)
      onTop (Frame.execInPlace env.program isHeld i)
      pure .goOn

/-- Fetches the next instruction, moves past it and carries it out. -/
def advanceInPlace (env : Environment) (info : WorkerInstance) :
    InPlace (World × CallStack) ExecutionError Flow := do
  let frame ← look fun s => s.2.top
  let i ← look fun _ =>
    match env.program.instruction? frame.ip with
    | none => .error (.invalidInstructionPointer frame.ip)
    | some i => .ok i
  onTop (Frame.inFrame fun _ frame => .ok frame.past)
  env.executeInPlace info i

/-- One step of a worker, carried out in place. -/
def stepInPlace (env : Environment) (world : World) (worker : Worker) : World × Worker :=
  match worker.progress with
  | .running =>
      let (result, world, stack) := (env.advanceInPlace worker.info).on (world, worker.stack)
      match result with
      | .ok .goOn => (world, { worker with stack })
      | .ok (.finished values) => (world, { worker with stack, progress := .returned values })
      | .error error =>
          let fault := { error, trace := stack.trace env.program }
          (world, { worker with stack := [], progress := .faulted fault })
  | _ => (world, worker)

theorem onWorld_follows {world : World} (stack : CallStack) {c : InPlace World ExecutionError Unit}
    {x : Except ExecutionError World} (hc : Follows (· = world) (c.on world) x) :
    Follows (· = (world, stack)) ((onWorld c).on (world, stack)) (x.map (·, stack)) := by
  have hput := hc.putBack (· = (world, stack)) id (·, stack) fun w hw => by rw [hw]
  rw [map_mapError_id] at hput
  exact hput

/-- **A call fails before anyone has been counted in.** -/
theorem callInPlace_follows (env : Environment) (world : World) (stack : CallStack) (id : FunctionId)
    (args rets : List AnyReg) :
    Follows (· = (world, stack)) ((env.callInPlace id args rets).on (world, stack))
      (env.call world stack id args rets) := by
  unfold call
  cases hf : env.program.function? id with
  | none => exact .look_error (by simp only [hf]) rfl
  | some info =>
    refine .look_ok (a := info) (by simp only [hf]) ?_
    dsimp only
    by_cases hdepth : env.maxDepth ≤ stack.length
    · rw [if_pos hdepth]
      exact .look_error (if_pos hdepth) rfl
    rw [if_neg hdepth]
    cases stack with
    | nil => exact .look_error (if_neg hdepth) rfl
    | cons caller below =>
      refine .look_ok (a := caller) (if_neg hdepth) ?_
      refine .read rfl fun values _ => .read rfl fun callee _ => ?_
      have hspawn := onWorld_follows (caller :: below)
        (world.spawnInPlace_follows id info ((args.map fun r => Bank.value r.bank).zip values))
      have hmap : ∀ x : Except ExecutionError World,
          (x >>= fun world => .ok (world, callee :: caller :: below)) =
            (x.map (·, caller :: below)) >>= fun s => .ok (s.1, callee :: s.2) := by
        intro x
        cases x <;> rfl
      rw [hmap]
      exact hspawn.bind fun s _ => .change _

/-! ## Steps -/

end Environment

/-- Carried out in place an instruction comes to what is said. Where it fails the frames need only be in the
same places: their registers are on their way out. -/
structure Executed.CarriedOut (p : Program) (done : Executed)
    (r : Except ExecutionError Flow × World × CallStack) : Prop where
  result : r.1 = done.result
  world : r.2.1 = done.world
  stack (flow : Flow) : done.result = .ok flow → r.2.2 = done.stack
  trace : r.2.2.trace p = done.stack.trace p

theorem Executed.CarriedOut.same (p : Program) (done : Executed) :
    done.CarriedOut p (done.result, done.world, done.stack) := ⟨rfl, rfl, fun _ _ => rfl, rfl⟩

/-- What an instruction leaves that does not return. -/
def Executed.going (world : World) (stack : CallStack) :
    Except ExecutionError (World × CallStack) → Executed
  | .ok (world, stack) => ⟨world, stack, .ok .goOn⟩
  | .error e => ⟨world, stack, .error e⟩

theorem Executed.within_eq_going (world : World) (stack below : CallStack)
    (x : Except ExecutionError (Heap × Frame)) :
    Executed.within world stack below x = .going world stack
      (x.map fun s => ({ world with store := { world.store with heap := s.1 } }, s.2 :: below)) := by
  cases x <;> rfl

/-- What is left of a worker, and of the world, by what it has executed. -/
def Worker.settle (w : Worker) (p : Program) (r : Except ExecutionError Flow × World × CallStack) :
    World × Worker :=
  match r.1 with
  | .ok .goOn => (r.2.1, { w with stack := r.2.2 })
  | .ok (.finished values) => (r.2.1, { w with stack := r.2.2, progress := .returned values })
  | .error error =>
      let fault := { error, trace := r.2.2.trace p }
      (r.2.1, { w with stack := [], progress := .faulted fault })

/-- Nothing that is left tells how an instruction has been carried out. -/
theorem Executed.CarriedOut.settle {p : Program} {done : Executed}
    {r : Except ExecutionError Flow × World × CallStack} (h : done.CarriedOut p r) (w : Worker) :
    w.settle p r = w.settle p (done.result, done.world, done.stack) := by
  obtain ⟨result, world', stack'⟩ := r
  obtain ⟨world, stack, outcome⟩ := done
  obtain ⟨rfl, rfl, hstack, htrace⟩ := h
  dsimp only at hstack htrace
  unfold Worker.settle
  cases result with
  | error e =>
    dsimp only
    rw [htrace]
  | ok flow => rw [hstack flow rfl]

namespace Environment

variable {p : Program} {world : World} {stack below : CallStack} {f g : Frame}

/-- The trace of a stack does not depend on registers. -/
theorem trace_of_kept {h : Heap} {s : Heap × Frame} (hs : Frame.Kept h f s) :
    CallStack.trace p (s.2 :: below) = CallStack.trace p (f :: below) := by
  obtain ⟨-, ⟨ps, hps⟩, hip⟩ := hs
  have hentry : CallStack.entryOf p s.2 = CallStack.entryOf p f := by
    rw [hps.rest, hip]
    rfl
  exact congrArg (· :: below.map (CallStack.entryOf p)) hentry

/-- The world is as it was and so is the place of every frame. -/
abbrev Placed (p : Program) (world : World) (stack : CallStack) (s : World × CallStack) : Prop :=
  s.1 = world ∧ s.2.trace p = stack.trace p

theorem onTop_follows (p : Program) (below : CallStack)
    {c : InPlace (Heap × Frame) ExecutionError Unit} {x : Except ExecutionError (Heap × Frame)}
    (hc : Follows (Frame.Kept world.store.heap f) (c.on (world.store.heap, f)) x) :
    Follows (Placed p world (f :: below)) ((onTop c).on (world, f :: below))
      (x.map fun s => ({ world with store := { world.store with heap := s.1 } }, s.2 :: below)) := by
  have hput := hc.putBack (Placed p world (f :: below)) id
    (fun s => ({ world with store := { world.store with heap := s.1 } }, s.2 :: below))
    fun s hs => ⟨by rw [hs.1], trace_of_kept hs⟩
  rw [map_mapError_id] at hput
  exact hput

theorem going_carriedOut {c : InPlace (World × CallStack) ExecutionError Unit}
    {x : Except ExecutionError (World × CallStack)}
    (hc : Follows (Placed p world stack) (c.on (world, stack)) x) :
    (Executed.going world stack x).CarriedOut p
      ((c >>= fun _ => pure Flow.goOn : InPlace _ ExecutionError Flow).on (world, stack)) := by
  rw [on_bind]
  cases x with
  | ok s =>
    rw [show c.on (world, stack) = (.ok (), s) from hc]
    exact ⟨rfl, rfl, fun _ _ => rfl, rfl⟩
  | error e =>
    obtain ⟨he, hworld, htrace⟩ := hc
    generalize c.on (world, stack) = r at he hworld htrace
    obtain ⟨result, world', stack'⟩ := r
    cases he
    exact ⟨rfl, hworld, fun flow hflow => (nomatch hflow), htrace⟩

theorem retInPlace_carriedOut (p : Program) (world : World) (stack : CallStack) (regs : List AnyReg) :
    (ret world stack regs).CarriedOut p ((retInPlace regs).on (world, stack)) := by
  cases stack with
  | nil => exact .same p _
  | cons callee below =>
    unfold retInPlace ret
    rw [on_look_bind]
    dsimp only [CallStack.top]
    rw [on_look_bind]
    cases hr : callee.readAll regs with
    | error e => exact .same p _
    | ok values =>
      dsimp only
      rw [on_bind, change, on_effect]
      dsimp only [List.tail_cons]
      cases callee.returnTo with
      | none => exact .same p _
      | some ip =>
        cases below with
        | nil => exact .same p _
        | cons caller rest =>
          dsimp only
          rw [on_bind]
          have hwrite := going_carriedOut (onTop_follows p rest
            (Frame.writeAllInPlace_follows (h := world.store.heap) callee.rets values
              { caller with ip }))
          cases hw : Frame.writeAll world.store.heap { caller with ip } callee.rets values with
          | ok g =>
            rw [hw] at hwrite
            exact hwrite
          | error e =>
            rw [hw] at hwrite
            exact hwrite

theorem executeInPlace_local (env : Environment) (info : WorkerInstance) {i : Instruction}
    (hi : i.isLocal = true) :
    env.executeInPlace info i =
      (look fun s => .ok (s.1.isHeld s.2)) >>= fun isHeld =>
        onTop (Frame.execInPlace env.program isHeld i) >>= fun _ => pure .goOn := by
  cases i <;> first | exact absurd hi Bool.false_ne_true | rfl

theorem execute_carriedOut_local (env : Environment) (world : World) (info : WorkerInstance)
    (stack : CallStack) {i : Instruction} (hi : i.isLocal = true) :
    (env.execute world info stack i).CarriedOut env.program
      ((env.executeInPlace info i).on (world, stack)) := by
  rw [executeInPlace_local env info hi, on_look_bind]
  cases stack with
  | nil =>
    have hnil : env.execute world info [] i = ⟨world, [], .error .stackUnderflow⟩ := by
      cases i <;> first | exact absurd hi Bool.false_ne_true | rfl
    rw [hnil]
    exact .same env.program _
  | cons f below =>
    rw [env.execute_local world info f below hi, Executed.within_eq_going]
    exact going_carriedOut (onTop_follows env.program below
      (f.execInPlace_follows env.program (world.isHeld (f :: below)) world.store.heap i))

/-- **An instruction fails before anyone else can tell**, unless it is a native call, of which nothing is undone
in the definition either. -/
theorem execute_carriedOut (env : Environment) (world : World) (info : WorkerInstance)
    (stack : CallStack) (i : Instruction) :
    (env.execute world info stack i).CarriedOut env.program
      ((env.executeInPlace info i).on (world, stack)) := by
  cases i with
  | call id args rets =>
    have hcall : Follows (Placed env.program world stack)
        ((env.callInPlace id args rets).on (world, stack)) (env.call world stack id args rets) :=
      (env.callInPlace_follows world stack id args rets).mono fun s hs => by
        rw [hs]
        exact ⟨rfl, rfl⟩
    have hexecute : env.execute world info stack (.call id args rets) =
        .going world stack (env.call world stack id args rets) := by
      unfold execute
      dsimp only
      cases env.call world stack id args rets <;> rfl
    rw [hexecute]
    exact going_carriedOut hcall
  | ret regs => exact retInPlace_carriedOut env.program world stack regs
  | nativeCall name args rets => exact .same env.program _
  | _ => exact env.execute_carriedOut_local world info stack rfl

theorem advance_carriedOut (env : Environment) (world : World) (info : WorkerInstance)
    (stack : CallStack) :
    (env.advance world info stack).CarriedOut env.program
      ((env.advanceInPlace info).on (world, stack)) := by
  unfold advanceInPlace advance
  rw [on_look_bind]
  cases stack with
  | nil => exact .same env.program _
  | cons f below =>
    dsimp only [CallStack.top]
    rw [on_look_bind]
    cases env.program.instruction? f.ip with
    | none => exact .same env.program _
    | some i =>
      dsimp only
      rw [on_bind]
      exact env.execute_carriedOut world info (f.past :: below) i

/-- **A step can be carried out in place.** Nothing that it leaves tells the difference. -/
theorem stepInPlace_eq (env : Environment) (world : World) (w : Worker) :
    env.stepInPlace world w = env.step world w := by
  obtain ⟨info, stack, progress⟩ := w
  cases progress with
  | returned values => rfl
  | faulted fault => rfl
  | running => exact (env.advance_carriedOut world info stack).settle ⟨info, stack, .running⟩

/-! ## Faults -/

/-- An instruction that is no native call has failed before it has changed the world. -/
theorem world_of_execute_error (env : Environment) (world : World) (info : WorkerInstance)
    (stack : CallStack) {i : Instruction} (hi : ∀ name args rets, i ≠ .nativeCall name args rets)
    {e : ExecutionError} (he : (env.execute world info stack i).result = .error e) :
    (env.execute world info stack i).world = world := by
  cases i with
  | nativeCall name args rets => exact absurd rfl (hi name args rets)
  | ret regs => exact ret_world world stack regs
  | call id args rets =>
    simp only [execute] at he ⊢
    cases hc : env.call world stack id args rets with
    | ok r =>
      rw [hc] at he
      cases he
    | error e => rfl
  | _ =>
    cases stack with
    | nil => rfl
    | cons f below =>
      rw [env.execute_local world info f below rfl] at he ⊢
      cases hx : f.exec env.program (world.isHeld (f :: below)) world.store.heap _ with
      | ok r =>
        rw [hx] at he
        cases he
      | error e => rfl

/-- A step that faults, and not in a native call, leaves the world alone. -/
theorem step_of_faulted (env : Environment) (world : World) {w : Worker} {fault : Fault}
    (hp : w.progress = .running)
    (hi : ∀ f ∈ w.stack.head?, ∀ name args rets,
      env.program.instruction? f.ip ≠ some (.nativeCall name args rets))
    (hfault : (env.step world w).2.progress = .faulted fault) :
    env.step world w = (world, { w with stack := [], progress := .faulted fault }) := by
  have hworld : ∀ e, (env.advance world w.info w.stack).result = .error e →
      (env.advance world w.info w.stack).world = world := by
    cases hs : w.stack with
    | nil => exact fun _ _ => rfl
    | cons f below =>
      unfold advance
      dsimp only
      cases hf : env.program.instruction? f.ip with
      | none => exact fun _ _ => rfl
      | some i =>
        have hother : ∀ name args rets, i ≠ .nativeCall name args rets := fun name args rets he =>
          hi f (by rw [hs]; rfl) name args rets (by rw [hf, he])
        exact fun e => env.world_of_execute_error world w.info (f.past :: below) hother
  unfold step at hfault ⊢
  rw [hp] at hfault ⊢
  dsimp only at hfault ⊢
  cases hr : (env.advance world w.info w.stack).result with
  | error e =>
    rw [hr] at hfault
    cases hfault
    rw [hworld e hr]
  | ok flow =>
    rw [hr] at hfault
    cases flow with
    | goOn => cases hfault
    | finished values => cases hfault

/-- **A fault is the fault of one worker.** Where a worker faults in anything but a native call, carried out in
place, what is left is as it was: the store with every object in it and all that has been printed, the workers
that wait with their frames and iterators, and what is held for the caller. The worker that faulted has lost
its stack and is counted out. (`world` is the world that it had its turn in: all the others wait there.) -/
theorem fault_leaves_rest (env : Environment) (inv : Invocation) (world : World) {w : Worker}
    {fault : Fault} (hp : w.progress = .running)
    (hi : ∀ f ∈ w.stack.head?, ∀ name args rets,
      env.program.instruction? f.ip ≠ some (.nativeCall name args rets))
    (hfault : (env.stepInPlace world w).2.progress = .faulted fault) :
    let next := env.stepInPlace world w
    let scheduler := world.scheduler.complete w.info.id (.error fault)
    next = env.step world w ∧
    next = (world, { w with stack := [], progress := .faulted fault }) ∧
    inv.takeBack next.1 next.2 =
      { main := inv.main
        world := { world with scheduler }
        ended := inv.ended ++ [(w.info, .error fault)] } ∧
    scheduler.nextId = world.scheduler.nextId ∧ scheduler.live.Sublist world.scheduler.live := by
  intro next scheduler
  have hstep : next = env.step world w := env.stepInPlace_eq world w
  have hnext : next = (world, { w with stack := [], progress := .faulted fault }) :=
    hstep.trans (env.step_of_faulted world hp hi (hstep ▸ hfault))
  refine ⟨hstep, hnext, ?_, Scheduler.nextId_complete world.scheduler w.info.id (.error fault), ?_⟩
  · rw [hnext]
    have hfinal : (Progress.faulted fault).isFinal = true := rfl
    by_cases hm : w.info.id = inv.main
    · exact Invocation.takeBack_main (w := { w with stack := [], progress := .faulted fault }) hfinal hm
    · exact Invocation.takeBack_other (w := { w with stack := [], progress := .faulted fault }) hfinal hm
  · show (world.scheduler.complete w.info.id (.error fault)).live.Sublist _
    unfold Scheduler.complete
    split
    · exact List.Sublist.refl _
    · exact List.filter_sublist

/-- A worker that has no register for the number keeps the whole function from being called, and nobody has
been counted in. -/
theorem doubling_fault_leaves_rest :
    let env : Environment :=
      ⟨{ Program.doubling with
        functions := #[Program.mainInfo, { Program.doubleInfo with workers := [⟨"echo", 3, {}⟩] }] },
        [], 4⟩
    let next := env.stepInPlace (.start .empty []) Worker.doubling
    (Invocation.mk (.start .empty []) 1 []).takeBack next.1 next.2 =
      ⟨.start .empty [], 1, [(Worker.doubling.info,
        .error ⟨.invalidRegister (.value .int) 0, [⟨"main", defaultWorkerName, none⟩]⟩)]⟩ := by
  intro env next
  have hnative : ∀ f ∈ Worker.doubling.stack.head?, ∀ name args rets,
      env.program.instruction? f.ip ≠ some (.nativeCall name args rets) := by
    intro f hf name args rets
    cases hf
    exact nofun
  have hfault : next.2.progress =
      .faulted ⟨.invalidRegister (.value .int) 0, [⟨"main", defaultWorkerName, none⟩]⟩ := rfl
  obtain ⟨-, -, hback, -⟩ :=
    env.fault_leaves_rest ⟨.start .empty [], 1, []⟩ (.start .empty []) rfl hnative hfault
  exact hback

end Environment

end RegisterMachine
