import RegisterMachine.Proofs.Machine.Draining

/-!
# Functions of a run, one after another

A run of a program is the runs of some of its functions, first those that initialise packages and then
main. Each of them is set up, and then there is an invocation whose workers are run, or there is not, and
then the run of the program is over. `Environment.runFunction` and `Environment.runPackages` are written
out here in these terms, whoever watches.
-/

namespace RegisterMachine

namespace World

/-- What is left of an invocation that could not be set up. -/
def unlaunched (world : World) (id : FunctionId) (info : FunctionInfo)
    (args : List (Bank × Value)) (e : ExecutionError) : World :=
  match (Frame.start id info.defaultWorker).bind world.store.heap args with
  | .error _ => world
  | .ok _ =>
      let (scheduler, me) := world.scheduler.register id info.name info.defaultWorker.name
      ({ world with scheduler } : World).complete me (.error ⟨e, []⟩)

/-- The arguments of a program as those of its main function. -/
def handMain (world : World) (info : FunctionInfo) (args : List String) :
    Except ExecutionError (World × List (Bank × Value)) :=
  if info.defaultWorker.registers.refs = 0 then .ok (world, [])
  else
    match ArrayObject.ofStrings args with
    | .error e => .error (.array (.index e))
    | .ok array =>
        let (store, v) := world.store.alloc (.array array)
        .ok ({ world with store }, [(.value .ref, v)])

end World

/-- Handing main its arguments reaches no further than the store. -/
theorem World.handMain_store {world world' : World} {info : FunctionInfo} {args : List String}
    {handed : List (Bank × Value)} (hh : world.handMain info args = .ok (world', handed)) :
    ∃ store, world' = { world with store } := by
  unfold World.handMain at hh
  split at hh
  · cases hh
    exact ⟨_, rfl⟩
  · cases ha : ArrayObject.ofStrings args with
    | error e =>
      rw [ha] at hh
      cases hh
    | ok array =>
      rw [ha] at hh
      cases hh
      exact ⟨_, rfl⟩

theorem World.AtRest.handMain {world world' : World} {info : FunctionInfo} {args : List String}
    {handed : List (Bank × Value)} (h : world.AtRest)
    (hh : world.handMain info args = .ok (world', handed)) : world'.AtRest := by
  obtain ⟨store, rfl⟩ := World.handMain_store hh
  exact ⟨h.waiting, h.live, h.inFlight, h.failures⟩

theorem World.waiting_unlaunched (world : World) (id : FunctionId) (info : FunctionInfo)
    (args : List (Bank × Value)) (e : ExecutionError) :
    (world.unlaunched id info args e).waiting = world.waiting := by
  unfold World.unlaunched
  split <;> rfl

theorem World.kept_unlaunched (world : World) (id : FunctionId) (info : FunctionInfo)
    (args : List (Bank × Value)) (e : ExecutionError) :
    (world.unlaunched id info args e).kept = world.kept := by
  unfold World.unlaunched
  split <;> rfl

section

variable (world : World) {id : FunctionId} {info : FunctionInfo} {args : List (Bank × Value)}
  {frame : Frame}

/-- Setting up a function whose default worker can take the arguments. -/
theorem World.launch_of_bind
    (hb : (Frame.start id info.defaultWorker).bind world.store.heap args = .ok frame) :
    world.launch id info args =
      let reg := world.scheduler.register id info.name info.defaultWorker.name
      match World.spawn { world with scheduler := reg.1 } id info args with
      | .error e => .error e
      | .ok world =>
          .ok ⟨{ world.hold (args.map Prod.snd) with
            waiting := .start reg.2 frame :: world.waiting }, reg.2.id, []⟩ := by
  unfold launch
  rw [hb]
  dsimp only [bind, Except.bind]
  generalize World.spawn _ id info args = spawned
  cases spawned <;> rfl

theorem World.unlaunched_of_bind
    (hb : (Frame.start id info.defaultWorker).bind world.store.heap args = .ok frame)
    (e : ExecutionError) :
    world.unlaunched id info args e =
      let reg := world.scheduler.register id info.name info.defaultWorker.name
      World.complete { world with scheduler := reg.1 } reg.2 (.error ⟨e, []⟩) := by
  unfold unlaunched
  rw [hb]

end

namespace Environment

variable {σ ω : Type} {env : Environment} {obs : Observer σ ω} {limit : Nat} {run : Run σ}
  {id : FunctionId} {info : FunctionInfo} {args : List (Bank × Value)}

/-- A function that could not be set up. -/
theorem runFunction_of_launch_error {e : ExecutionError}
    (h : run.world.launch id info args = .error e) :
    env.runFunction obs limit run id info args =
      some (⟨run.seen, run.world.unlaunched id info args e⟩, .error (.faulted ⟨e, []⟩)) := by
  unfold runFunction
  dsimp only
  cases hb : (Frame.start id info.defaultWorker).bind run.world.store.heap args with
  | error e' =>
    unfold World.launch at h
    rw [hb] at h
    cases h
    unfold World.unlaunched
    rw [hb]
  | ok frame =>
    rw [run.world.launch_of_bind hb] at h
    rw [run.world.unlaunched_of_bind hb]
    dsimp only at h ⊢
    cases hs : World.spawn { run.world with
        scheduler := (run.world.scheduler.register id info.name info.defaultWorker.name).1 }
        id info args with
    | error e' =>
      rw [hs] at h
      cases h
      rfl
    | ok world =>
      rw [hs] at h
      cases h

/-- A function that could: first its default worker is run and then those that wait, and when nobody is
left the result is there. -/
theorem runFunction_of_launch {inv : Invocation} {w : Worker} {waiting : List Worker}
    (h : run.world.launch id info args = .ok inv) (hw : inv.world.waiting = w :: waiting) :
    env.runFunction obs limit run id info args =
      (env.runWorker obs limit ⟨run.seen, { inv.world with waiting }⟩ obs.fresh w).bind fun r =>
        (env.runWaiting obs limit limit
          ⟨r.1.seen, (r.1.world.complete w.info r.2).hold r.2.values⟩).bind fun waited =>
          waited.world.scheduler.join?.bind fun joined =>
            some (⟨waited.seen, { waited.world with kept := run.world.kept }⟩,
              conclude r.2 joined) := by
  obtain ⟨frame, scheduler, me, world, hb, hr, hs, rfl⟩ := World.launch_eq_ok h
  cases hw
  have hkept := (World.spawn_leaves hs).2
  dsimp only at hkept
  unfold runFunction
  dsimp only
  rw [hb]
  dsimp only
  rw [hr]
  dsimp only
  rw [hs, ← hkept]
  rfl

end Environment

/-- The program is its init functions and then main. -/
theorem Environment.runPackages_eq {σ ω : Type} (env : Environment) (obs : Observer σ ω)
    (limit : Nat) (run : Run σ) (id : FunctionId) (info : FunctionInfo) (args : List String) :
    env.runPackages obs limit run id info args =
      (env.runInits obs limit run env.program.packages).bind fun r =>
        match r.2 with
        | .error e => some (r.1, .error e)
        | .ok _ =>
            match r.1.world.handMain info args with
            | .error e => some (r.1, .error (.faulted ⟨e, []⟩))
            | .ok (world, handed) => env.runFunction obs limit ⟨r.1.seen, world⟩ id info handed := by
  unfold runPackages World.handMain
  cases env.runInits obs limit run env.program.packages with
  | none => rfl
  | some r =>
    obtain ⟨run, inits⟩ := r
    cases inits with
    | error e => rfl
    | ok _ =>
      simp only [Option.bind_eq_bind, Option.bind_some]
      split
      · rfl
      · cases ArrayObject.ofStrings args <;> rfl

end RegisterMachine
