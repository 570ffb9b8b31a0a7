import RegisterMachine.Proofs.Frame.Binding
import RegisterMachine.Proofs.Machine.Course
import RegisterMachine.Proofs.Machine.Launching

/-!
# What a call hands on

A call reads its arguments once. The frame of the function it calls and the frames of all its named workers
are made from what was read then (`Frame.Enters`, `Worker.Begins`), each with its own copy in its own
registers, and only when the last of them has been made is the first worker counted in
(`World.Spawned`). So a call that fails has started nobody, and what a worker starts with is settled at the
call: until its first turn, whoever takes a turn leaves it as it is (`Environment.mem_waiting_of_course`).

**`Environment.call_all_or_nothing`** says so of every call in every state of an invocation.
**`Environment.binding_exact`** sums up what binding comes to, for calls and for whole runs as well: since they
hand on values that fit, nothing but room can be wanting.
-/

namespace RegisterMachine

/-! ## Frames that are entered -/

/-- The frame is at the start of a worker's code and holds some arguments, and nothing else. -/
structure Frame.Enters (f : Frame) (id : FunctionId) (w : WorkerInfo) (args : List (Bank × Value)) :
    Prop where
  function : f.function = id
  worker : f.worker = w.name
  ip : f.ip = w.entry
  entry : f.entry = w.entry
  registers : f.Handed w.registers args

/-- The worker is about to run its first instruction, in the only frame it has, which nothing is to be
returned from. -/
structure Worker.Begins (s : Worker) (number : Nat) (id : FunctionId) (info : FunctionInfo)
    (w : WorkerInfo) (args : List (Bank × Value)) : Prop where
  info : s.info = ⟨number, id, info.name, w.name⟩
  progress : s.progress = .running
  stack : ∃ frame, s.stack = [frame] ∧ frame.Enters id w args ∧ frame.returnTo = none ∧
    frame.rets = []

section

variable {id : FunctionId} {w : WorkerInfo} {args : List (Bank × Value)} {h : Heap} {frame : Frame}
  {returnTo : Nat} {rets : List AnyReg}

theorem Frame.enters_of_bind_start (hb : (Frame.start id w).bind h args = .ok frame) :
    frame.Enters id w args ∧ frame.returnTo = none ∧ frame.rets = [] := by
  obtain ⟨hhanded, hrest⟩ := Handed.of_bind (Shaped.start id w) (Handed.start id w) hb
  rw [hrest] at hhanded ⊢
  exact ⟨⟨rfl, rfl, rfl, rfl, hhanded⟩, rfl, rfl⟩

theorem Frame.enters_of_bind_returningTo
    (hb : ((Frame.start id w).returningTo returnTo rets).bind h args = .ok frame) :
    frame.Enters id w args ∧ frame.returnTo = some returnTo ∧ frame.rets = rets := by
  have hs : ((Frame.start id w).returningTo returnTo rets).Shaped w.registers := Shaped.start id w
  obtain ⟨hhanded, hrest⟩ := Handed.of_bind hs ((Handed.start id w).congr rfl) hb
  rw [hrest] at hhanded ⊢
  exact ⟨⟨rfl, rfl, rfl, rfl, hhanded⟩, rfl, rfl⟩

/-- A frame bound on its own makes a worker. -/
theorem Worker.begins_of_bind (number : Nat) (info : FunctionInfo)
    (hb : (Frame.start id w).bind h args = .ok frame) :
    (Worker.start ⟨number, frame.function, info.name, frame.worker⟩ frame).Begins number id info w
      args := by
  obtain ⟨henters, hnone, hrets⟩ := Frame.enters_of_bind_start hb
  refine ⟨?_, rfl, frame, rfl, henters, hnone, hrets⟩
  rw [Worker.start, henters.function, henters.worker]

end

/-! ## Named workers, counted in one after another -/

/-- Frames as workers, with numbers from `first` on. -/
def Worker.crew (name : String) (first : Nat) (frames : List Frame) : List Worker :=
  frames.mapIdx fun k f => .start ⟨first + k, f.function, name, f.worker⟩ f

theorem Worker.crew_cons (name : String) (first : Nat) (f : Frame) (rest : List Frame) :
    crew name first (f :: rest) =
      .start ⟨first, f.function, name, f.worker⟩ f :: crew name (first + 1) rest := by
  simp [crew, List.mapIdx_cons, Nat.add_assoc, Nat.add_comm 1]

namespace World

/-- The books and the queue after frames have been counted in. -/
theorem foldl_enqueue (name : String) (frames : List Frame) (world : World) :
    frames.foldl (fun w f => w.enqueue name f) world =
      { world with
        scheduler :=
          { world.scheduler with
            nextId := world.scheduler.nextId + frames.length
            live := world.scheduler.live ++
              (Worker.crew name world.scheduler.nextId frames).map Worker.info
            inFlight := world.scheduler.inFlight + frames.length }
        waiting := world.waiting ++ Worker.crew name world.scheduler.nextId frames } := by
  induction frames generalizing world with
  | nil => simp [Worker.crew]
  | cons f rest ih =>
    rw [List.foldl_cons, ih, Worker.crew_cons]
    simp [enqueue, Scheduler.register, Worker.start, Nat.add_assoc, Nat.add_comm 1]

/-- `world'` is `world` after the named workers of a function have been started on some arguments: one for
each of them, in their order. -/
structure Spawned (world : World) (id : FunctionId) (info : FunctionInfo) (args : List (Bank × Value))
    (started : List Worker) (world' : World) : Prop where
  store : world'.store = world.store
  kept : world'.kept = world.kept
  waiting : world'.waiting = world.waiting ++ started
  live : world'.scheduler.live = world.scheduler.live ++ started.map Worker.info
  nextId : world'.scheduler.nextId = world.scheduler.nextId + started.length
  inFlight : world'.scheduler.inFlight = world.scheduler.inFlight + started.length
  failures : world'.scheduler.failures = world.scheduler.failures
  count : started.length = info.workers.length
  begins (k : Nat) (w : WorkerInfo) : info.workers[k]? = some w →
    ∃ s, started[k]? = some s ∧ s.Begins (world.scheduler.nextId + k) id info w args

theorem Spawned.of_spawn {world world' : World} {id : FunctionId} {info : FunctionInfo}
    {args : List (Bank × Value)} (h : world.spawn id info args = .ok world') :
    ∃ started, world.Spawned id info args started world' := by
  obtain ⟨frames, hframes, rfl⟩ := spawn_eq_ok h
  obtain ⟨hlength, hbind⟩ := List.forall₂_iff_get.mp hframes
  rw [foldl_enqueue]
  have hcount : (Worker.crew info.name world.scheduler.nextId frames).length = frames.length :=
    List.length_mapIdx
  refine ⟨Worker.crew info.name world.scheduler.nextId frames, rfl, rfl, rfl, rfl, ?_, ?_, rfl,
    hcount.trans hlength.symm, ?_⟩
  · rw [hcount]
  · rw [hcount]
  intro k w hw
  obtain ⟨hk, rfl⟩ := List.getElem?_eq_some_iff.mp hw
  have hk' : k < frames.length := hlength ▸ hk
  refine ⟨_, ?_, Worker.begins_of_bind (world.scheduler.nextId + k) info (hbind k hk hk')⟩
  rw [Worker.crew, List.getElem?_mapIdx, List.getElem?_eq_getElem hk']
  rfl

end World

namespace Environment

variable {env : Environment} {world : World}

/-! ## Calls -/

/-- A call whose arguments have been read makes the frame of the function and then those of its workers. -/
theorem call_of_readAll {caller : Frame} {below : CallStack} {id : FunctionId} {info : FunctionInfo}
    {args rets : List AnyReg} {values : List Value} (hf : env.program.function? id = some info)
    (hdepth : (caller :: below).length < env.maxDepth) (hr : caller.readAll args = .ok values) :
    env.call world (caller :: below) id args rets =
      let handed := (args.map fun r => Bank.value r.bank).zip values
      ((Frame.start id info.defaultWorker).returningTo caller.ip rets).bind world.store.heap handed
        >>= fun callee => (world.spawn id info handed).map (·, callee :: caller :: below) := by
  simp only [call, hf, if_neg (Nat.not_le.mpr hdepth), hr]
  dsimp only [bind, Except.bind]
  split
  · rfl
  · cases world.spawn id info ((args.map fun r => Bank.value r.bank).zip values) <;> rfl

/-- What has been made where a call goes through. -/
theorem call_eq_ok {caller : Frame} {below stack' : CallStack} {id : FunctionId}
    {args rets : List AnyReg} {world' : World}
    (h : env.call world (caller :: below) id args rets = .ok (world', stack')) :
    ∃ info values callee, env.program.function? id = some info ∧ caller.readAll args = .ok values ∧
      ((Frame.start id info.defaultWorker).returningTo caller.ip rets).bind world.store.heap
        ((args.map fun r => Bank.value r.bank).zip values) = .ok callee ∧
      world.spawn id info ((args.map fun r => Bank.value r.bank).zip values) = .ok world' ∧
      stack' = callee :: caller :: below := by
  cases hf : env.program.function? id with
  | none => simp [call, hf] at h
  | some info =>
    by_cases hdepth : env.maxDepth ≤ (caller :: below).length
    · simp only [call, hf, if_pos hdepth] at h
      cases h
    cases hr : caller.readAll args with
    | error e =>
      simp only [call, hf, if_neg hdepth, hr] at h
      cases h
    | ok values =>
      rw [call_of_readAll hf (Nat.not_le.mp hdepth) hr] at h
      dsimp only at h
      generalize hb : ((Frame.start id info.defaultWorker).returningTo caller.ip rets).bind
        world.store.heap ((args.map fun r => Bank.value r.bank).zip values) = bound at h
      generalize hs : world.spawn id info ((args.map fun r => Bank.value r.bank).zip values) =
        spawned at h
      cases bound with
      | error e => cases h
      | ok callee =>
        cases spawned with
        | error e => cases h
        | ok world'' =>
          cases h
          exact ⟨info, values, callee, rfl, rfl, hb, hs, rfl⟩

/-! ## Until the first turn -/

/-- Taking a worker back leaves those that wait where they are. -/
theorem mem_waiting_takeBack {inv : Invocation} {s w : Worker} (hs : s ∈ world.waiting) :
    s ∈ (inv.takeBack world w).world.waiting := by
  cases hp : w.progress.isFinal with
  | false =>
    rw [Invocation.takeBack_of_running hp]
    exact List.mem_cons_of_mem w hs
  | true =>
    by_cases hm : w.info.id = inv.main
    · rw [Invocation.takeBack_main hp hm]
      exact hs
    · rw [Invocation.takeBack_other hp hm]
      exact hs

/-- A turn moves nobody who waits but the worker whose turn it is. -/
theorem mem_waiting_of_turn {inv : Invocation} {before after : List Worker} {s w : Worker}
    (hw : inv.world.waiting = before ++ w :: after) (hs : s ∈ inv.world.waiting)
    (hne : w.info ≠ s.info) :
    let next := env.step { inv.world with waiting := before ++ after } w
    s ∈ (inv.takeBack next.1 next.2).world.waiting := by
  have hother : s ∈ before ++ after := by
    rw [hw] at hs
    rcases List.mem_append.mp hs with hs | hs
    · exact List.mem_append_left after hs
    · rcases List.mem_cons.mp hs with rfl | hs
      · exact absurd rfl hne
      · exact List.mem_append_right before hs
  obtain ⟨started, hstarts, -⟩ := env.step_adds { inv.world with waiting := before ++ after } w
  refine mem_waiting_takeBack ?_
  rw [hstarts.waiting]
  exact List.mem_append_left started hother

/-- A worker that waits is as it was for as long as it has not had a turn, whoever has had one. -/
theorem mem_waiting_of_course {inv inv' : Invocation} {deeds : List Deed} {s : Worker}
    (hc : env.Course inv deeds inv') (hs : s ∈ inv.world.waiting)
    (hne : ∀ d ∈ deeds, d.who ≠ s.info) : s ∈ inv'.world.waiting := by
  induction hc with
  | start => exact hs
  | turn _ hw ih =>
    refine mem_waiting_of_turn hw (ih fun d hd => hne d (List.mem_append_left _ hd)) ?_
    exact hne _ (List.mem_append_right _ (List.mem_singleton.mpr rfl))

/-- **Spawning is all or nothing.** A call by a worker whose turn it is either fails, and then nothing has
changed but that worker, or it has read its arguments, and then the frame of the function and those of its
named workers hold them, and every one of these workers still starts with its own whatever turns are taken
before its first. -/
theorem call_all_or_nothing (env : Environment) (inv : Invocation) (world : World) {w : Worker}
    {f : Frame} {below : CallStack} {id : FunctionId} {args rets : List AnyReg}
    (hp : w.progress = .running) (hs : w.stack = f :: below)
    (hi : env.program.instruction? f.ip = some (.call id args rets)) :
    let next := env.step world w
    (∃ fault, next = (world, { w with stack := [], progress := .faulted fault })) ∨
    ∃ info values callee started,
      let handed := (args.map fun r => Bank.value r.bank).zip values
      env.program.function? id = some info ∧ f.readAll args = .ok values ∧
      next.2 = { w with stack := callee :: f.past :: below } ∧
      (callee.Enters id info.defaultWorker handed ∧ callee.returnTo = some (f.ip + 1) ∧
        callee.rets = rets) ∧
      world.Spawned id info handed started next.1 ∧
      ∀ s ∈ started, ∀ deeds inv', env.Course (inv.takeBack next.1 next.2) deeds inv' →
        (∀ d ∈ deeds, d.who ≠ s.info) → s ∈ inv'.world.waiting := by
  intro next
  have hnext : next = env.step world w := rfl
  cases hc : env.call world (f.past :: below) id args rets with
  | error e =>
    left
    refine ⟨⟨e, CallStack.trace env.program (f.past :: below)⟩, ?_⟩
    simp only [hnext, step, hp, hs, advance, hi, execute, hc]
  | ok r =>
    right
    obtain ⟨world', stack'⟩ := r
    have hstep : next = (world', { w with stack := stack' }) := by
      simp only [hnext, step, hp, hs, advance, hi, execute, hc]
    obtain ⟨info, values, callee, hf, hr, hb, hspawn, rfl⟩ := call_eq_ok hc
    obtain ⟨started, hstarted⟩ := World.Spawned.of_spawn hspawn
    refine ⟨info, values, callee, started, hf, hr, ?_, Frame.enters_of_bind_returningTo hb, ?_, ?_⟩
    · rw [hstep]
    · rw [hstep]
      exact hstarted
    · intro s hs deeds inv' hcourse hne
      refine mem_waiting_of_course hcourse (mem_waiting_takeBack ?_) hne
      rw [hstep, hstarted.waiting]
      exact List.mem_append_right _ hs

/-- The worker beside the function that doubles starts on 21, as the function itself does. -/
theorem doubling_hands_on :
    ∃ callee echo, (Environment.doubling.step (.start .empty []) Worker.doubling).1.waiting = [echo] ∧
      (Environment.doubling.step (.start .empty []) Worker.doubling).2.stack.head? = some callee ∧
      callee.Enters ⟨1⟩ Program.doubleInfo.defaultWorker [(.value .int, .int 21)] ∧
      echo.Begins 1 ⟨1⟩ Program.doubleInfo ⟨"echo", 3, { ints := 1 }⟩ [(.value .int, .int 21)] := by
  obtain ⟨fault, hfault⟩ | ⟨info, values, callee, started, hinfo, hvalues, hstack, hcallee, hspawned, -⟩ :=
    call_all_or_nothing Environment.doubling ⟨.start .empty [], 1, []⟩ (.start .empty [])
      (w := Worker.doubling) rfl rfl rfl
  · exact nomatch congrArg (fun next => next.2.stack) hfault
  cases hinfo
  cases hvalues
  obtain ⟨echo, hecho, hbegins⟩ := hspawned.begins 0 _ rfl
  have hone : started = [echo] := by
    obtain ⟨s, rfl⟩ := List.length_eq_one_iff.mp hspawned.count
    exact congrArg (fun s => [s]) (Option.some.inj hecho)
  refine ⟨callee, echo, ?_, ?_, hcallee.1, hbegins⟩
  · rw [hspawned.waiting, hone]
    rfl
  · rw [hstack]
    rfl

/-! ## What can be wrong with arguments -/

theorem spawn_wantsRoom (world : World) (id : FunctionId) (info : FunctionInfo)
    {args : List (Bank × Value)} (hfits : ∀ a ∈ args, a.1.Fits a.2) :
    Meets (fun _ => True) ExecutionError.WantsRoom (world.spawn id info args) := by
  have hframes : ∀ w ∈ info.workers, Meets (fun _ => True) ExecutionError.WantsRoom
      ((Frame.start id w).bind world.store.heap args) := fun w _ =>
    Frame.bind_wantsRoom (Frame.Shaped.start id w) (Frame.Handed.start id w) hfits
  exact (Meets.mapM hframes).bind fun _ _ => trivial

theorem launch_wantsRoom (world : World) (id : FunctionId) (info : FunctionInfo)
    {args : List (Bank × Value)} (hfits : ∀ a ∈ args, a.1.Fits a.2) :
    Meets (fun _ => True) ExecutionError.WantsRoom (world.launch id info args) := by
  have hlead := Frame.bind_wantsRoom (h := world.store.heap)
    (Frame.Shaped.start id info.defaultWorker) (Frame.Handed.start id info.defaultWorker) hfits
  refine hlead.bind fun frame _ => ?_
  exact (spawn_wantsRoom _ id info hfits).bind fun _ _ => trivial

/-- A call whose arguments have been read. -/
theorem call_wantsRoom {caller : Frame} {below : CallStack} {id : FunctionId} {info : FunctionInfo}
    {args rets : List AnyReg} {values : List Value} (hf : env.program.function? id = some info)
    (hdepth : (caller :: below).length < env.maxDepth) (hr : caller.readAll args = .ok values) :
    Meets (fun _ => True) ExecutionError.WantsRoom
      (env.call world (caller :: below) id args rets) := by
  have hfits := Frame.fits_of_readAll hr
  have hs : ((Frame.start id info.defaultWorker).returningTo caller.ip rets).Shaped
      info.defaultWorker.registers := Frame.Shaped.start id info.defaultWorker
  rw [call_of_readAll hf hdepth hr]
  refine (Frame.bind_wantsRoom hs ((Frame.Handed.start id _).congr rfl) hfits).bind fun callee _ => ?_
  exact (spawn_wantsRoom world id info hfits).map fun _ _ => trivial

/-- **Binding is exact.** A fresh frame takes arguments where all of them fit and there is room for each; it
then holds them in their order, and its other registers their defaults. Otherwise the error is that of the
first argument that cannot be taken. The counters do not overflow either way. What a call has read, and what
is placed by nature, fits, so only room can be wanting for these. -/
theorem binding_exact (id : FunctionId) (w : WorkerInfo) (h : Heap) (args : List (Bank × Value)) :
    let f := Frame.start id w
    ((∃ g, f.bind h args = .ok g) ↔ w.registers.Accepts args) ∧
    (∀ g, f.bind h args = .ok g → g.Handed w.registers args ∧ g = { f with regs := g.regs }) ∧
    (∀ e, f.bind h args = .error e ↔ w.registers.Stops h args e) ∧
    (f.bindChecked h args).run = some (f.bind h args) ∧
    (∀ (env : Environment) (world : World) (caller : Frame) (below : CallStack) (id : FunctionId)
      (info : FunctionInfo) (args rets : List AnyReg) (values : List Value) (e : ExecutionError),
      env.program.function? id = some info → (caller :: below).length < env.maxDepth →
      caller.readAll args = .ok values →
      env.call world (caller :: below) id args rets = .error e → e.WantsRoom) ∧
    ∀ (world : World) (id : FunctionId) (info : FunctionInfo) (values : List Value)
      (e : ExecutionError), world.launch id info (Frame.naturalArgs values) = .error e →
      e.WantsRoom ∧ ∀ {σ ω : Type} (env : Environment) (obs : Observer σ ω) (seen : σ) (limit : Nat),
        (env.runFunction obs limit ⟨seen, world⟩ id info (Frame.naturalArgs values)).map Prod.snd =
          some (.error (.faulted ⟨e, []⟩)) := by
  intro f
  have hs := Frame.Shaped.start id w
  have hf := Frame.Handed.start id w
  refine ⟨Frame.exists_bind_iff hs hf, fun g hg => Frame.Handed.of_bind hs hf hg,
    fun e => Frame.bind_eq_error_iff hs hf, (Frame.bindChecked_safe h args hs).run_eq, ?_, ?_⟩
  · intro env world caller below id info args rets values e hinfo hdepth hr hcall
    exact (call_wantsRoom hinfo hdepth hr).of_error hcall
  · intro world id info values e hlaunch
    refine ⟨(launch_wantsRoom world id info (Frame.fits_naturalArgs values)).of_error hlaunch, ?_⟩
    intro σ ω env obs seen limit
    rw [runFunction_of_launch_error hlaunch]
    rfl

/-- The function that doubles has a register for one number, so two are one too many for it. -/
theorem doubling_takes_one :
    ∃ e, (World.start .empty []).launch ⟨1⟩ Program.doubleInfo (Frame.naturalArgs [.int 21, .int 2]) =
        .error e ∧ e.WantsRoom := by
  obtain ⟨-, -, -, -, -, hruns⟩ :=
    binding_exact ⟨1⟩ Program.doubleInfo.defaultWorker .empty (Frame.naturalArgs [.int 21, .int 2])
  refine ⟨.invalidRegister (.value .int) 1, rfl, ?_⟩
  exact (hruns (.start .empty []) ⟨1⟩ Program.doubleInfo [.int 21, .int 2] _ rfl).1

end Environment

end RegisterMachine
