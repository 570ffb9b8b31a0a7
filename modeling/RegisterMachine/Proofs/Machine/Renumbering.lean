import RegisterMachine.Native.Strings
import RegisterMachine.Proofs.Machine.Launching

/-!
# Other numbers for the same workers

Which id the first worker of a run has is a matter of what was run before on the same scheduler, and nothing
that workers do depends on it. `shift d` adds `d` to all ids, and everything that the machine does commutes
with it: a step (`Environment.step_shift`), setting up a function (`World.launch_shift`), and so every course
of turns and every run of a function, in both directions. A run that starts from the higher ids has been
shifted, and there is one below that it comes from.

Natives see which worker calls them, and could look at its id. Those that the program calls are supposed not
to (`Environment.CallsIgnoreIds`).
-/

namespace RegisterMachine

/-! ## Higher ids -/

def WorkerInstance.shift (d : Nat) (w : WorkerInstance) : WorkerInstance := { w with id := w.id + d }

def WorkerFailure.shift (d : Nat) (f : WorkerFailure) : WorkerFailure :=
  { f with worker := f.worker.shift d }

def Scheduler.shift (d : Nat) (s : Scheduler) : Scheduler where
  nextId := s.nextId + d
  live := s.live.map (·.shift d)
  inFlight := s.inFlight
  failures := s.failures.map (·.shift d)

def Worker.shift (d : Nat) (w : Worker) : Worker := { w with info := w.info.shift d }

def World.shift (d : Nat) (world : World) : World :=
  { world with scheduler := world.scheduler.shift d, waiting := world.waiting.map (·.shift d) }

def Executed.shift (d : Nat) (done : Executed) : Executed := { done with world := done.world.shift d }

def Invocation.shift (d : Nat) (inv : Invocation) : Invocation where
  world := inv.world.shift d
  main := inv.main + d
  ended := inv.ended.map fun x => (x.1.shift d, x.2)

def Deed.shift (d : Nat) (deed : Deed) : Deed := { deed with who := deed.who.shift d }

def RunError.shift (d : Nat) : RunError → RunError
  | .workersFailed failures => .workersFailed (failures.map (·.shift d))
  | e => e

/-- The result of a run in which all workers had higher ids. Only failures tell which worker was which. -/
abbrev shiftResult {α : Type} (d : Nat) (result : Except RunError α) : Except RunError α :=
  result.mapError (·.shift d)

@[simp] theorem Worker.info_shift (d : Nat) (w : Worker) : (w.shift d).info = w.info.shift d := rfl

@[simp] theorem Worker.stack_shift (d : Nat) (w : Worker) : (w.shift d).stack = w.stack := rfl

@[simp] theorem Worker.progress_shift (d : Nat) (w : Worker) : (w.shift d).progress = w.progress := rfl

@[simp] theorem World.store_shift (d : Nat) (world : World) : (world.shift d).store = world.store := rfl

@[simp] theorem World.scheduler_shift (d : Nat) (world : World) :
    (world.shift d).scheduler = world.scheduler.shift d := rfl

@[simp] theorem World.waiting_shift (d : Nat) (world : World) :
    (world.shift d).waiting = world.waiting.map (·.shift d) := rfl

@[simp] theorem Invocation.world_shift (d : Nat) (inv : Invocation) :
    (inv.shift d).world = inv.world.shift d := rfl

/-- A list that has been mapped comes apart where the list does. -/
theorem map_eq_append_cons {α β : Type} {f : α → β} {l : List α} {before after : List β} {y : β}
    (h : l.map f = before ++ y :: after) :
    ∃ before' x after', l = before' ++ x :: after' ∧ before = before'.map f ∧ y = f x ∧
      after = after'.map f := by
  obtain ⟨before', rest, rfl, hb, hr⟩ := List.map_eq_append_iff.mp h
  obtain ⟨x, after', rfl, hx, ha⟩ := List.map_eq_cons_iff.mp hr
  exact ⟨before', x, after', rfl, hb.symm, hx.symm, ha.symm⟩

/-! ## The books -/

namespace Scheduler

variable (d : Nat) (s : Scheduler)

theorem register_shift (function : FunctionId) (name worker : String) :
    (s.shift d).register function name worker =
      ((s.register function name worker).1.shift d, (s.register function name worker).2.shift d) := by
  simp [register, shift, WorkerInstance.shift, Nat.add_right_comm]

theorem complete_shift (id : Nat) (outcome : Outcome) :
    (s.shift d).complete (id + d) outcome = (s.complete id outcome).shift d := by
  -- who has this id among the raised ones had it before, and nobody else
  have hsame : ((fun w : WorkerInstance => w.id == id + d) ∘ (·.shift d)) =
      fun w : WorkerInstance => w.id == id := by
    funext w
    simp [WorkerInstance.shift]
  have hother : ((fun w : WorkerInstance => w.id != id + d) ∘ (·.shift d)) =
      fun w : WorkerInstance => w.id != id := by
    funext w
    simp [WorkerInstance.shift, bne]
  have hfind : (s.shift d).live.find? (fun w => w.id == id + d) =
      (s.live.find? fun w => w.id == id).map (·.shift d) := by
    rw [shift, List.find?_map, hsame]
  unfold complete
  rw [hfind]
  cases s.live.find? fun w => w.id == id with
  | none => rfl
  | some worker =>
    cases outcome <;> simp [shift, List.filter_map, hother, WorkerFailure.shift]

theorem join?_shift :
    (s.shift d).join? = s.join?.map fun joined => joined.mapError (List.map (·.shift d)) := by
  unfold join?
  by_cases h : s.inFlight = 0
  · rw [if_pos (show (s.shift d).inFlight = 0 from h), if_pos h]
    cases hf : s.failures with
    | nil => simp [shift, hf, Except.mapError]
    | cons f rest => simp [shift, hf, Except.mapError]
  · rw [if_neg (show (s.shift d).inFlight ≠ 0 from h), if_neg h]
    rfl

end Scheduler

theorem Environment.conclude_shift (d : Nat) (outcome : Outcome)
    (joined : Except (List WorkerFailure) Unit) :
    conclude outcome (joined.mapError (List.map (·.shift d))) =
      shiftResult d (conclude outcome joined) := by
  cases outcome with
  | error fault => rfl
  | ok values => cases joined <;> rfl

namespace World

variable (d : Nat) (world : World)

theorem isHeld_shift (stack : CallStack) : (world.shift d).isHeld stack = world.isHeld stack := by
  funext r
  simp [isHeld, roots, shift, List.flatMap_map, Worker.shift]

theorem complete_shift (info : WorkerInstance) (outcome : Outcome) :
    (world.shift d).complete (info.shift d) outcome = (world.complete info outcome).shift d := by
  have hbooks : (world.scheduler.shift d).complete (info.shift d).id outcome = _ :=
    world.scheduler.complete_shift d info.id outcome
  unfold complete
  rw [scheduler_shift, hbooks]
  rfl

theorem enqueue_shift (name : String) (frame : Frame) :
    (world.shift d).enqueue name frame = (world.enqueue name frame).shift d := by
  unfold enqueue
  rw [World.scheduler_shift, world.scheduler.register_shift d]
  simp [shift, Worker.shift, Worker.start]

theorem foldl_enqueue_shift (name : String) (frames : List Frame) :
    frames.foldl (fun w f => w.enqueue name f) (world.shift d) =
      (frames.foldl (fun w f => w.enqueue name f) world).shift d := by
  induction frames generalizing world with
  | nil => rfl
  | cons f rest ih => rw [List.foldl_cons, List.foldl_cons, enqueue_shift, ih]

theorem spawn_shift (id : FunctionId) (info : FunctionInfo) (args : List (Bank × Value)) :
    (world.shift d).spawn id info args = (world.spawn id info args).map (·.shift d) := by
  unfold spawn
  rw [World.store_shift]
  cases info.workers.mapM fun worker => (Frame.start id worker).bind world.store.heap args with
  | error e => rfl
  | ok frames => exact congrArg Except.ok (world.foldl_enqueue_shift d info.name frames)

end World

/-! ## A step -/

/-- A native function does the same for whichever worker of a post it is called by. -/
def Native.IgnoresId (native : Native) : Prop :=
  ∀ (info info' : WorkerInstance) (store : Store) (args : List Value), info.post = info'.post →
    native info store args = native info' store args

namespace Environment

/-- The native functions that the program calls do not look at ids. -/
def CallsIgnoreIds (env : Environment) : Prop :=
  ∀ ip name args rets native, env.program.instruction? ip = some (.nativeCall name args rets) →
    env.natives.lookup name = some native → native.IgnoresId

end Environment

/-- The functions that every program can call do not look at ids. -/
theorem Natives.ignoresId_withLibrary {lib : Regex.Library} {name : String} {native : Native}
    (h : (withLibrary lib).lookup name = some native) : native.IgnoresId := by
  have hmem : ∀ n ∈ withLibrary lib, n.2.IgnoresId := by
    simp only [withLibrary, List.mem_cons, List.not_mem_nil, or_false, forall_eq_or_imp, forall_eq]
    refine ⟨?_, ?_, ?_, ?_, ?_, ?_, ?_⟩ <;> exact fun _ _ _ _ _ => rfl
  obtain ⟨before, after, he, -⟩ := List.lookup_eq_some_iff.mp h
  exact hmem (name, native) (he ▸ List.mem_append_right _ List.mem_cons_self)

namespace Environment

variable {env : Environment} (d : Nat) (world : World) (info : WorkerInstance) (stack : CallStack)

theorem call_shift (id : FunctionId) (args rets : List AnyReg) :
    env.call (world.shift d) stack id args rets =
      (env.call world stack id args rets).map fun r => (r.1.shift d, r.2) := by
  unfold call
  cases env.program.function? id with
  | none => rfl
  | some callee =>
    dsimp only
    split
    · rfl
    · cases stack with
      | nil => rfl
      | cons caller below =>
        dsimp only
        cases caller.readAll args with
        | error e => rfl
        | ok values =>
          dsimp only [bind, Except.bind]
          rw [World.store_shift]
          cases Frame.bind world.store.heap
              ((Frame.start id callee.defaultWorker).returningTo caller.ip rets)
              ((args.map fun r => Bank.value r.bank).zip values) with
          | error e => rfl
          | ok frame =>
            dsimp only
            rw [world.spawn_shift d]
            cases world.spawn id callee ((args.map fun r => Bank.value r.bank).zip values) <;> rfl

theorem ret_shift (regs : List AnyReg) :
    ret (world.shift d) stack regs = (ret world stack regs).shift d := by
  unfold ret
  cases stack with
  | nil => rfl
  | cons callee below =>
    dsimp only
    cases callee.readAll regs with
    | error e => rfl
    | ok values =>
      cases callee.returnTo with
      | none => rfl
      | some ip =>
        cases below with
        | nil => rfl
        | cons caller rest =>
          dsimp only
          rw [World.store_shift]
          split <;> rfl

theorem nativeCall_shift {name : String}
    (hn : ∀ native, env.natives.lookup name = some native → native.IgnoresId) (args rets : List AnyReg) :
    env.nativeCall (world.shift d) (info.shift d) stack name args rets =
      (env.nativeCall world info stack name args rets).shift d := by
  unfold nativeCall
  cases hname : env.natives.lookup name with
  | none => rfl
  | some native =>
    cases stack with
    | nil => rfl
    | cons frame below =>
      dsimp only
      cases frame.readAll args with
      | error e => rfl
      | ok values =>
        dsimp only
        rw [World.store_shift, hn native hname (info.shift d) info world.store values rfl]
        cases (native info world.store values).2 with
        | error e => rfl
        | ok results =>
          dsimp only
          split <;> rfl

theorem execute_shift {i : Instruction}
    (hn : ∀ name args rets native, i = .nativeCall name args rets →
      env.natives.lookup name = some native → native.IgnoresId) :
    env.execute (world.shift d) (info.shift d) stack i = (env.execute world info stack i).shift d := by
  cases i with
  | call id args rets =>
    simp only [execute, call_shift]
    cases env.call world stack id args rets <;> rfl
  | ret regs => exact ret_shift d world stack regs
  | nativeCall name args rets =>
    exact nativeCall_shift d world info stack (hn name args rets · rfl) args rets
  | _ =>
    -- all others work on the frame and the heap, and ids are in neither
    cases stack with
    | nil => rfl
    | cons frame below =>
      simp only [execute, world.isHeld_shift d]
      rw [World.store_shift]
      split <;> rfl

theorem advance_shift (hn : env.CallsIgnoreIds) :
    env.advance (world.shift d) (info.shift d) stack = (env.advance world info stack).shift d := by
  cases stack with
  | nil => rfl
  | cons frame below =>
    unfold advance
    dsimp only
    cases hi : env.program.instruction? frame.ip with
    | none => rfl
    | some i =>
      refine execute_shift d world info _ fun name args rets native he => ?_
      exact hn frame.ip name args rets native (he ▸ hi)

/-- **A step does the same with higher ids.** -/
theorem step_shift (hn : env.CallsIgnoreIds) (w : Worker) :
    env.step (world.shift d) (w.shift d) =
      ((env.step world w).1.shift d, (env.step world w).2.shift d) := by
  unfold step
  rw [Worker.progress_shift]
  cases w.progress with
  | running =>
    dsimp only
    rw [Worker.info_shift, Worker.stack_shift, advance_shift d world w.info w.stack hn]
    generalize env.advance world w.info w.stack = done
    obtain ⟨world, stack, result⟩ := done
    cases result with
    | error e => rfl
    | ok flow => cases flow <;> rfl
  | returned values => rfl
  | faulted fault => rfl

end Environment

/-! ## Setting up -/

theorem World.launch_shift (d : Nat) (world : World) (id : FunctionId) (info : FunctionInfo)
    (args : List (Bank × Value)) :
    (world.shift d).launch id info args = (world.launch id info args).map (·.shift d) := by
  cases hb : (Frame.start id info.defaultWorker).bind world.store.heap args with
  | error e =>
    unfold launch
    rw [World.store_shift, hb]
    rfl
  | ok frame =>
    rw [world.launch_of_bind hb, (world.shift d).launch_of_bind hb, World.scheduler_shift,
      world.scheduler.register_shift d]
    generalize world.scheduler.register id info.name info.defaultWorker.name = reg
    have hspawn : World.spawn { world.shift d with scheduler := reg.1.shift d } id info args =
        (World.spawn { world with scheduler := reg.1 } id info args).map (·.shift d) :=
      World.spawn_shift d { world with scheduler := reg.1 } id info args
    dsimp only
    rw [hspawn]
    cases World.spawn { world with scheduler := reg.1 } id info args <;> rfl

theorem World.unlaunched_shift (d : Nat) (world : World) (id : FunctionId) (info : FunctionInfo)
    (args : List (Bank × Value)) (e : ExecutionError) :
    (world.shift d).unlaunched id info args e = (world.unlaunched id info args e).shift d := by
  unfold unlaunched
  rw [World.store_shift]
  cases (Frame.start id info.defaultWorker).bind world.store.heap args with
  | error e' => rfl
  | ok frame =>
    dsimp only
    rw [World.scheduler_shift, world.scheduler.register_shift d]
    generalize world.scheduler.register id info.name info.defaultWorker.name = reg
    obtain ⟨scheduler, me⟩ := reg
    exact World.complete_shift d { world with scheduler } me (.error ⟨e, []⟩)

/-! ## Courses -/

theorem Invocation.takeBack_shift (d : Nat) (inv : Invocation) (world : World) (w : Worker) :
    (inv.shift d).takeBack (world.shift d) (w.shift d) = (inv.takeBack world w).shift d := by
  unfold takeBack
  rw [Worker.progress_shift, Worker.info_shift]
  split
  · dsimp only
    rw [World.complete_shift d]
    have hmain : (w.info.shift d).id = (inv.shift d).main ↔ w.info.id = inv.main :=
      Nat.add_right_cancel_iff
    by_cases hid : w.info.id = inv.main
    · rw [if_pos hid, if_pos (hmain.mpr hid)]
      simp [shift, World.shift, World.hold]
    · rw [if_neg hid, if_neg fun h => hid (hmain.mp h)]
      simp [shift]
  · rfl

namespace Environment

variable {env : Environment}

theorem deed_shift (hn : env.CallsIgnoreIds) (d : Nat) (world : World) (w : Worker) :
    env.deed (world.shift d) (w.shift d) = (env.deed world w).shift d := by
  have hcalling : env.calling? (w.shift d) = env.calling? w := rfl
  simp only [deed, called?, step_shift d world hn, hcalling]
  rfl

/-- The world of an invocation while one of its workers has its turn. -/
theorem turn_shift (hn : env.CallsIgnoreIds) (d : Nat) (inv : Invocation) (before after : List Worker)
    (w : Worker) :
    env.deed { (inv.shift d).world with waiting := before.map (·.shift d) ++ after.map (·.shift d) }
        (w.shift d) = (env.deed { inv.world with waiting := before ++ after } w).shift d ∧
      (inv.shift d).takeBack
          (env.step { (inv.shift d).world with
            waiting := before.map (·.shift d) ++ after.map (·.shift d) } (w.shift d)).1
          (env.step { (inv.shift d).world with
            waiting := before.map (·.shift d) ++ after.map (·.shift d) } (w.shift d)).2 =
        (inv.takeBack (env.step { inv.world with waiting := before ++ after } w).1
          (env.step { inv.world with waiting := before ++ after } w).2).shift d := by
  have hworld : ({ (inv.shift d).world with
      waiting := before.map (·.shift d) ++ after.map (·.shift d) } : World) =
      ({ inv.world with waiting := before ++ after } : World).shift d := by
    simp [Invocation.shift, World.shift]
  rw [hworld, deed_shift hn, step_shift d _ hn]
  exact ⟨rfl, Invocation.takeBack_shift d _ _ _⟩

theorem Course.shift (hn : env.CallsIgnoreIds) (d : Nat) {inv inv' : Invocation} {deeds : List Deed}
    (hc : env.Course inv deeds inv') :
    env.Course (inv.shift d) (deeds.map (·.shift d)) (inv'.shift d) := by
  induction hc with
  | start => exact .start
  | @turn deeds inv' before after w _ hw ih =>
    obtain ⟨hdeed, hback⟩ := turn_shift hn d inv' before after w
    have hw' : (inv'.shift d).world.waiting =
        before.map (·.shift d) ++ w.shift d :: after.map (·.shift d) := by
      simp [Invocation.shift, World.shift, hw]
    have hturn := ih.turn hw'
    rw [hdeed, hback] at hturn
    simpa using hturn

/-- A course from higher ids has been shifted. -/
theorem Course.of_shift (hn : env.CallsIgnoreIds) (d : Nat) {inv inv' : Invocation} {deeds : List Deed}
    (hc : env.Course (inv.shift d) deeds inv') :
    ∃ deeds₀ inv₀, env.Course inv deeds₀ inv₀ ∧ inv' = inv₀.shift d := by
  induction hc with
  | start => exact ⟨[], inv, .start, rfl⟩
  | turn _ hw ih =>
    obtain ⟨deeds₀, inv₀, hc₀, rfl⟩ := ih
    obtain ⟨before, w, after, hw₀, rfl, rfl, rfl⟩ := map_eq_append_cons hw
    exact ⟨_, _, hc₀.turn hw₀, (turn_shift hn d inv₀ before after w).2⟩

/-! ## Runs of a function -/

variable {world world' : World} {id : FunctionId} {info : FunctionInfo} {args : List (Bank × Value)}
  {result : Except RunError (List Value)}

/-- A function is run in some order of turns, and afterwards the values that are held on to are those that
were before. -/
def RunsAnyhow (env : Environment) (world : World) (id : FunctionId) (info : FunctionInfo)
    (args : List (Bank × Value)) (world' : World) (result : Except RunError (List Value)) : Prop :=
  ∃ deeds ended left, env.Invokes world id info args deeds ended left result ∧
    world' = { left with kept := world.kept }

/-- It could not be set up, or turns have led from its start to where none was left. -/
theorem runsAnyhow_iff :
    env.RunsAnyhow world id info args world' result ↔
      (∃ e, world.launch id info args = .error e ∧ world' = world.unlaunched id info args e ∧
        result = .error (.faulted ⟨e, []⟩)) ∨
      ∃ inv deeds inv' me outcome joined, world.launch id info args = .ok inv ∧
        env.Course inv deeds inv' ∧ me.id = inv.main ∧ (me, outcome) ∈ inv'.ended ∧
        inv'.world.scheduler.join? = some joined ∧ world' = { inv'.world with kept := world.kept } ∧
        result = conclude outcome joined := by
  constructor
  · rintro ⟨deeds, ended, left, h, rfl⟩
    cases h with
    | unbound hb =>
      refine .inl ⟨_, ?_, ?_, rfl⟩
      · rw [World.launch, hb]
        rfl
      · rw [World.unlaunched, hb]
    | unspawned hb hr hs =>
      refine .inl ⟨_, ?_, ?_, rfl⟩
      · rw [world.launch_of_bind hb, hr]
        dsimp only
        rw [hs]
      · rw [world.unlaunched_of_bind hb, hr]
        rfl
    | ran hl hc hme ho hj => exact .inr ⟨_, _, _, _, _, _, hl, hc, hme, ho, hj, rfl, rfl⟩
  · rintro (⟨e, hl, rfl, rfl⟩ | ⟨inv, deeds, inv', me, outcome, joined, hl, hc, hme, ho, hj, rfl, rfl⟩)
    · have hkept := world.kept_unlaunched id info args e
      cases hb : (Frame.start id info.defaultWorker).bind world.store.heap args with
      | error e' =>
        rw [World.launch, hb] at hl
        cases hl
        exact ⟨_, _, _, .unbound hb, by rw [World.unlaunched, hb]⟩
      | ok frame =>
        rw [world.launch_of_bind hb] at hl
        generalize hr : world.scheduler.register id info.name info.defaultWorker.name = reg at hl
        dsimp only at hl
        cases hs : World.spawn { world with scheduler := reg.1 } id info args with
        | ok world' =>
          rw [hs] at hl
          cases hl
        | error e' =>
          rw [hs] at hl
          cases hl
          refine ⟨_, _, _, .unspawned hb hr hs, ?_⟩
          rw [world.unlaunched_of_bind hb, hr]
          rfl
    · exact ⟨deeds, inv'.ended, { inv'.world with kept := world.kept }, .ran hl hc hme ho hj, rfl⟩

theorem RunsAnyhow.shift (hn : env.CallsIgnoreIds) (d : Nat)
    (h : env.RunsAnyhow world id info args world' result) :
    env.RunsAnyhow (world.shift d) id info args (world'.shift d) (shiftResult d result) := by
  rcases runsAnyhow_iff.mp h with ⟨e, hl, rfl, rfl⟩ |
    ⟨inv, deeds, inv', me, outcome, joined, hl, hc, hme, ho, hj, rfl, rfl⟩
  · refine runsAnyhow_iff.mpr (.inl ⟨e, ?_, (world.unlaunched_shift d id info args e).symm, rfl⟩)
    rw [world.launch_shift d, hl]
    rfl
  · refine runsAnyhow_iff.mpr (.inr ⟨inv.shift d, _, inv'.shift d, me.shift d, outcome,
      joined.mapError (List.map (·.shift d)), ?_, hc.shift hn d, congrArg (· + d) hme,
      List.mem_map.mpr ⟨(me, outcome), ho, rfl⟩, ?_, rfl, (conclude_shift d outcome joined).symm⟩)
    · rw [world.launch_shift d, hl]
      rfl
    · exact (inv'.world.scheduler.join?_shift d).trans (congrArg _ hj)

/-- A run from higher ids has been shifted. -/
theorem RunsAnyhow.of_shift (hn : env.CallsIgnoreIds) (d : Nat)
    (h : env.RunsAnyhow (world.shift d) id info args world' result) :
    ∃ world₀ result₀, env.RunsAnyhow world id info args world₀ result₀ ∧
      world' = world₀.shift d ∧ result = shiftResult d result₀ := by
  rcases runsAnyhow_iff.mp h with ⟨e, hl, rfl, rfl⟩ |
    ⟨inv, deeds, inv', me, outcome, joined, hl, hc, hme, ho, hj, rfl, rfl⟩
  · rw [world.launch_shift d] at hl
    cases hl₀ : world.launch id info args with
    | ok inv =>
      rw [hl₀] at hl
      cases hl
    | error e₀ =>
      rw [hl₀] at hl
      cases hl
      exact ⟨_, _, runsAnyhow_iff.mpr (.inl ⟨e, hl₀, rfl, rfl⟩), world.unlaunched_shift d id info args e,
        rfl⟩
  · rw [world.launch_shift d] at hl
    cases hl₀ : world.launch id info args with
    | error e =>
      rw [hl₀] at hl
      cases hl
    | ok inv₀ =>
      rw [hl₀] at hl
      cases hl
      obtain ⟨deeds₀, inv₀', hc₀, rfl⟩ := hc.of_shift hn d
      obtain ⟨⟨me₀, outcome⟩, ho₀, he⟩ := List.mem_map.mp ho
      cases he
      rw [Invocation.world_shift, World.scheduler_shift, Scheduler.join?_shift] at hj
      obtain ⟨joined₀, hj₀, rfl⟩ := Option.map_eq_some_iff.mp hj
      exact ⟨_, _, runsAnyhow_iff.mpr (.inr ⟨inv₀, deeds₀, inv₀', me₀, outcome, joined₀, hl₀, hc₀,
        Nat.add_right_cancel hme, ho₀, hj₀, rfl, rfl⟩), rfl, conclude_shift d outcome joined₀⟩

/-! ## The run that nobody watches -/

variable {limit : Nat}

theorem runWorker_shift (hn : env.CallsIgnoreIds) (d : Nat) (world : World) (w : Worker) :
    env.runWorker .idle limit ⟨(), world.shift d⟩ () (w.shift d) =
      (env.runWorker .idle limit ⟨(), world⟩ () w).map fun r => (⟨(), r.1.world.shift d⟩, r.2) := by
  induction limit generalizing world w with
  | zero => rfl
  | succ limit ih =>
    unfold runWorker
    dsimp only [Observer.idle]
    rw [step_shift d world hn]
    dsimp only
    rw [Worker.progress_shift]
    split
    · rfl
    · exact ih _ _

theorem runWaiting_shift (hn : env.CallsIgnoreIds) (d : Nat) {workers : Nat} :
    env.runWaiting .idle limit workers ⟨(), world.shift d⟩ =
      (env.runWaiting .idle limit workers ⟨(), world⟩).map fun r => ⟨(), r.world.shift d⟩ := by
  induction workers generalizing world with
  | zero => rfl
  | succ workers ih =>
    unfold runWaiting
    dsimp only
    rw [World.waiting_shift]
    cases world.waiting with
    | nil => rfl
    | cons w waiting =>
      rw [List.map_cons]
      dsimp only
      have hworker : env.runWorker .idle limit
          ⟨(), { world.shift d with waiting := waiting.map (·.shift d) }⟩ Observer.idle.fresh (w.shift d) = _ :=
        runWorker_shift hn d { world with waiting } w
      rw [hworker]
      cases env.runWorker .idle limit ⟨(), { world with waiting }⟩ () w with
      | none => rfl
      | some r =>
        dsimp only [Option.map_some]
        rw [Worker.info_shift, World.complete_shift]
        exact ih

/-- Run to its end, a function does the same with higher ids. -/
theorem runFunction_shift (hn : env.CallsIgnoreIds) (d : Nat) :
    env.runFunction .idle limit ⟨(), world.shift d⟩ id info args =
      (env.runFunction .idle limit ⟨(), world⟩ id info args).map fun r =>
        (⟨(), r.1.world.shift d⟩, shiftResult d r.2) := by
  cases hl : world.launch id info args with
  | error e =>
    have hl' : (world.shift d).launch id info args = .error e := by
      rw [world.launch_shift d, hl]
      rfl
    have hrun : env.runFunction .idle limit ⟨(), world⟩ id info args = _ := runFunction_of_launch_error hl
    have hrun' : env.runFunction .idle limit ⟨(), world.shift d⟩ id info args = _ :=
      runFunction_of_launch_error hl'
    rw [hrun, hrun', world.unlaunched_shift d]
    rfl
  | ok inv =>
    have hl' : (world.shift d).launch id info args = .ok (inv.shift d) := by
      rw [world.launch_shift d, hl]
      rfl
    obtain ⟨w, waiting, hw⟩ : ∃ w waiting, inv.world.waiting = w :: waiting := by
      obtain ⟨frame, scheduler, me, world', -, -, -, rfl⟩ := World.launch_eq_ok hl
      exact ⟨_, _, rfl⟩
    have hw' : (inv.shift d).world.waiting = w.shift d :: waiting.map (·.shift d) := by
      simp [Invocation.shift, World.shift, hw]
    have hrun : env.runFunction .idle limit ⟨(), world⟩ id info args = _ := runFunction_of_launch hl hw
    have hrun' : env.runFunction .idle limit ⟨(), world.shift d⟩ id info args = _ :=
      runFunction_of_launch hl' hw'
    rw [hrun, hrun']
    have hworker : env.runWorker .idle limit
        ⟨(), { (inv.shift d).world with waiting := waiting.map (·.shift d) }⟩ Observer.idle.fresh
          (w.shift d) = _ :=
      runWorker_shift hn d { inv.world with waiting } w
    rw [hworker]
    cases env.runWorker .idle limit ⟨(), { inv.world with waiting }⟩ () w with
    | none => rfl
    | some r =>
      obtain ⟨⟨_, left⟩, outcome⟩ := r
      dsimp only [Option.map_some, Option.bind_some]
      have hleft : ((left.shift d).complete (w.shift d).info outcome).hold outcome.values =
          ((left.complete w.info outcome).hold outcome.values).shift d :=
        congrArg (World.hold · outcome.values) (left.complete_shift d w.info outcome)
      rw [hleft, runWaiting_shift hn d]
      cases env.runWaiting .idle limit limit
          ⟨(), (left.complete w.info outcome).hold outcome.values⟩ with
      | none => rfl
      | some waited =>
        dsimp only [Option.map_some, Option.bind_some]
        rw [World.scheduler_shift, Scheduler.join?_shift]
        cases waited.world.scheduler.join? with
        | none => rfl
        | some joined =>
          exact congrArg (fun result => some (_, result)) (conclude_shift d outcome joined)

end Environment

end RegisterMachine
