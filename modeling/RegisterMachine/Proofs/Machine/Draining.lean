import RegisterMachine.Proofs.Machine.Course

/-!
# Every run is drained

A run of a function ends when its default worker has ended and waiting for the others does. That
nobody is at work then, and that nobody has been lost on the way, is a matter of the books, which are
kept by whoever starts a worker and by whoever ends one: `Invocation.Balanced` is the balance that
every turn keeps, however many workers are started on the way and whichever of them call functions
that start more.

**`Environment.runs_drained`** draws it up at the end of a run, for every order of turns
(`Environment.Invokes`), of which `Environment.runFunction` takes one.
-/

namespace RegisterMachine

/-- Nothing is at work in the world, and nothing that was has failed. -/
structure World.AtRest (world : World) : Prop where
  waiting : world.waiting = []
  live : world.scheduler.live = []
  inFlight : world.scheduler.inFlight = 0
  failures : world.scheduler.failures = []

/-! ## The balance -/

/-- Since the id `first` was due the workers `crew` of the invocation have been counted in. Those of
them that do not wait for their turn have ended. -/
def Invocation.Balanced (inv : Invocation) (first : Nat) (crew : List WorkerInstance) : Prop :=
  inv.world.scheduler.Accounts first crew (inv.world.waiting.map Worker.info) inv.ended

namespace Invocation.Balanced

variable {inv : Invocation} {first : Nat} {crew : List WorkerInstance}

/-- Taking a worker back leaves it at work or puts it among those that have ended. -/
theorem takeBack {world : World} {w : Worker}
    (h : world.scheduler.Accounts first crew ((w :: world.waiting).map Worker.info) inv.ended) :
    (inv.takeBack world w).Balanced first crew := by
  unfold Invocation.takeBack
  split
  · have hdone := h.complete (w := w.info) List.mem_cons_self w.progress.outcome
    rw [List.map_cons, List.erase_cons_head] at hdone
    unfold Balanced
    dsimp only
    split
    · exact hdone
    · exact hdone
  · exact h

/-- **A turn keeps the balance**, and the crew grows by the workers of what it calls. -/
theorem turn (h : inv.Balanced first crew) (env : Environment) {before after : List Worker}
    {w : Worker} (hw : inv.world.waiting = before ++ w :: after) :
    ∃ joining : List WorkerInstance,
      (inv.takeBack (env.step { inv.world with waiting := before ++ after } w).1
        (env.step { inv.world with waiting := before ++ after } w).2).Balanced first
          (crew ++ joining) ∧
      joining.map WorkerInstance.post
        = (env.deed { inv.world with waiting := before ++ after } w).filled := by
  obtain ⟨started, he, hs⟩ := env.step_enlists { inv.world with waiting := before ++ after } w
  have hinfo := env.step_info { inv.world with waiting := before ++ after } w
  generalize env.step { inv.world with waiting := before ++ after } w = r at hinfo he ⊢
  refine ⟨started.map Worker.info, takeBack ?_, by rw [List.map_map]; exact hs⟩
  have hperm : (inv.world.waiting.map Worker.info).Perm
      (w.info :: (before ++ after).map Worker.info) := by
    rw [hw, ← List.map_cons]
    exact List.perm_middle.map _
  have hnow : (r.2 :: r.1.waiting).map Worker.info
      = w.info :: (before ++ after).map Worker.info ++ started.map Worker.info := by
    rw [List.map_cons, hinfo, he.waiting, List.map_append, List.cons_append]
  rw [hnow]
  exact he.books (h.perm hperm)

/-- A whole course keeps it. -/
theorem course {env : Environment} {deeds : List Deed} {inv' : Invocation}
    (hc : env.Course inv deeds inv') (h : inv.Balanced first crew) :
    ∃ joining : List WorkerInstance, inv'.Balanced first (crew ++ joining) ∧
      joining.map WorkerInstance.post = deeds.flatMap Deed.filled := by
  induction hc with
  | start => exact ⟨[], by rwa [List.append_nil], rfl⟩
  | turn _ hw ih =>
    obtain ⟨joining, hb, hj⟩ := ih
    obtain ⟨last, hb, hl⟩ := hb.turn env hw
    refine ⟨joining ++ last, by rwa [← List.append_assoc], ?_⟩
    rw [List.map_append, List.flatMap_append, List.flatMap_singleton, hj, hl]

/-- When nobody waits any more, the whole crew has ended. -/
theorem ends {env : Environment} {deeds : List Deed} {inv' : Invocation}
    (hc : env.Course inv deeds inv') (h : inv.Balanced first crew)
    (hend : inv'.world.waiting = []) :
    ∃ joining : List WorkerInstance,
      inv'.world.scheduler.Accounts first (crew ++ joining) [] inv'.ended ∧
      joining.map WorkerInstance.post = deeds.flatMap Deed.filled := by
  obtain ⟨joining, hb, hj⟩ := h.course hc
  unfold Balanced at hb
  rw [hend] at hb
  exact ⟨joining, hb, hj⟩

/-- Waiting comes to an end when no worker is left, and not before. -/
theorem join?_eq_some_iff (h : inv.Balanced first crew) :
    (∃ joined, inv.world.scheduler.join? = some joined) ↔ inv.world.waiting = [] := by
  have hlength : inv.world.scheduler.inFlight = inv.world.scheduler.live.length := by
    rw [h.inFlight, h.live.length_eq]
  have hlive : inv.world.scheduler.live = [] ↔ inv.world.waiting = [] := by
    rw [← List.length_eq_zero_iff, h.live.length_eq, List.length_eq_zero_iff,
      List.map_eq_nil_iff]
  rw [← hlive]
  constructor
  · rintro ⟨joined, hj⟩
    exact ((Scheduler.join?_eq_some_iff hlength joined).mp hj).1
  · intro hl
    exact ⟨_, (Scheduler.join?_eq_some_iff hlength _).mpr ⟨hl, rfl⟩⟩

end Invocation.Balanced

/-! ## Setting up -/

namespace World

variable {world world' : World} {id : FunctionId} {info : FunctionInfo} {args : List (Bank × Value)}

/-- Starting the named workers fails with what is wrong for one of them. -/
theorem bind_of_spawn_error {e : ExecutionError} (h : world.spawn id info args = .error e) :
    ∃ w ∈ info.workers, (Frame.start id w).bind world.store.heap args = .error e := by
  have hframes : Meets (fun _ => True)
      (fun e => ∃ w ∈ info.workers, (Frame.start id w).bind world.store.heap args = .error e)
      (info.workers.mapM fun w => (Frame.start id w).bind world.store.heap args) :=
    (Meets.mapM (P := fun _ => True) fun w hw =>
      .intro (fun _ _ => trivial) fun e he => ⟨w, hw, he⟩).mono (fun _ _ => trivial) fun _ he => he
  have hspawn : Meets (fun _ => True)
      (fun e => ∃ w ∈ info.workers, (Frame.start id w).bind world.store.heap args = .error e)
      (world.spawn id info args) := hframes.bind fun _ _ => trivial
  exact hspawn.of_error h

/-- Where it succeeds, it has for every one of them. -/
theorem bind_of_spawn_ok (h : world.spawn id info args = .ok world') :
    ∀ w ∈ info.workers, ∃ frame, (Frame.start id w).bind world.store.heap args = .ok frame := by
  obtain ⟨frames, hall, -⟩ := spawn_eq_ok h
  intro w hw
  obtain ⟨i, hi, rfl⟩ := List.mem_iff_getElem.mp hw
  exact ⟨_, hall.get hi (hall.length_eq ▸ hi)⟩

/-- An invocation that could be set up is balanced, and its main worker was counted in first. -/
theorem launch_balanced {inv : Invocation} (hw : world.AtRest)
    (h : world.launch id info args = .ok inv) :
    inv.ended = [] ∧ inv.main = world.scheduler.nextId ∧
      ∃ crew, inv.Balanced world.scheduler.nextId crew ∧
        crew.map WorkerInstance.post = info.lead id :: info.named id := by
  obtain ⟨frame, scheduler, me, world', -, hreg, hs, rfl⟩ := launch_eq_ok h
  have hme := (Scheduler.Accounts.start hw.live hw.inFlight hw.failures).register id info.name
    info.defaultWorker.name
  have hpost : me.post = info.lead id := by
    cases hreg
    rfl
  have hid : me.id = world.scheduler.nextId := by
    cases hreg
    rfl
  rw [hreg] at hme
  obtain ⟨started, he, hp⟩ := World.spawn_enlists hs
  have hwaiting : world'.waiting = started := by
    rw [he.waiting]
    show world.waiting ++ started = started
    rw [hw.waiting, List.nil_append]
  refine ⟨rfl, hid, [me] ++ started.map Worker.info, ?_, ?_⟩
  · show world'.scheduler.Accounts _ _ (me :: world'.waiting.map Worker.info) []
    rw [hwaiting]
    exact he.books hme
  · rw [List.map_append, List.map_map, List.map_singleton, hpost]
    exact congrArg (info.lead id :: ·) hp

/-- It could be set up only if all workers of the function can take the arguments. -/
theorem bind_of_launch_ok {inv : Invocation} (h : world.launch id info args = .ok inv) :
    ∀ w ∈ info.defaultWorker :: info.workers,
      ∃ frame, (Frame.start id w).bind world.store.heap args = .ok frame := by
  obtain ⟨frame, scheduler, me, world', hb, -, hs, -⟩ := launch_eq_ok h
  intro w hw
  rcases List.mem_cons.mp hw with rfl | hw
  · exact ⟨frame, hb⟩
  · exact bind_of_spawn_ok hs w hw

end World

/-! ## Whole runs -/

namespace Environment

/-- A run of a function, whatever turns its workers take: what has been done in it, which workers have
ended and how, the world it leaves, and its result. -/
inductive Invokes (env : Environment) (world : World) (id : FunctionId) (info : FunctionInfo)
    (args : List (Bank × Value)) :
    List Deed → List (WorkerInstance × Outcome) → World → Except RunError (List Value) → Prop
  /-- The default worker cannot take the arguments. -/
  | unbound {e : ExecutionError}
      (hb : (Frame.start id info.defaultWorker).bind world.store.heap args = .error e) :
      Invokes env world id info args [] [] world (.error (.faulted ⟨e, []⟩))
  /-- It can, and has been counted in, but one of the named workers cannot. -/
  | unspawned {e : ExecutionError} {frame : Frame} {scheduler : Scheduler} {me : WorkerInstance}
      (hb : (Frame.start id info.defaultWorker).bind world.store.heap args = .ok frame)
      (hr : world.scheduler.register id info.name info.defaultWorker.name = (scheduler, me))
      (hs : ({ world with scheduler } : World).spawn id info args = .error e) :
      Invokes env world id info args [] [(me, .error ⟨e, []⟩)]
        (({ world with scheduler } : World).complete me (.error ⟨e, []⟩))
        (.error (.faulted ⟨e, []⟩))
  /-- The default worker has ended, and waiting for the others has. Which values are held on to after
  that is the business of whoever started the run. -/
  | ran {inv inv' : Invocation} {deeds : List Deed} {me : WorkerInstance} {outcome : Outcome}
      {joined : Except (List WorkerFailure) Unit} {kept : List Value}
      (hl : world.launch id info args = .ok inv)
      (hc : env.Course inv deeds inv') (hme : me.id = inv.main) (ho : (me, outcome) ∈ inv'.ended)
      (hj : inv'.world.scheduler.join? = some joined) :
      Invokes env world id info args deeds inv'.ended { inv'.world with kept }
        (conclude outcome joined)

/-- What is run of a function is one of its runs. -/
theorem runFunction_invokes {σ ω : Type} {env : Environment} {obs : Observer σ ω} {limit : Nat}
    {run run' : Run σ} {id : FunctionId} {info : FunctionInfo} {args : List (Bank × Value)}
    {result : Except RunError (List Value)} (hw : run.world.AtRest)
    (h : env.runFunction obs limit run id info args = some (run', result)) :
    ∃ deeds ended, env.Invokes run.world id info args deeds ended run'.world result := by
  cases hl : run.world.launch id info args with
  | ok inv =>
    rcases runFunction_plays ⟨hw.waiting, hw.failures⟩ h with
      ⟨e, he, -⟩ | ⟨inv, inv', me, outcome, joined, hl, hplays, -, hme, ho, hj, hworld, rfl⟩
    · rw [hl] at he
      cases he
    · obtain ⟨deeds, hc⟩ := hplays.course
      rw [hworld]
      exact ⟨deeds, inv'.ended, .ran hl hc hme.symm ho hj⟩
  | error e =>
    unfold runFunction at h
    unfold World.launch at hl
    dsimp only at h
    cases hb : (Frame.start id info.defaultWorker).bind run.world.store.heap args with
    | error e =>
      rw [hb] at h
      cases h
      exact ⟨[], [], .unbound hb⟩
    | ok frame =>
      rw [hb] at h hl
      dsimp only [bind, Except.bind] at h hl
      generalize hr : run.world.scheduler.register id info.name info.defaultWorker.name = reg at h hl
      obtain ⟨scheduler, me⟩ := reg
      dsimp only at h hl
      cases hs : World.spawn { run.world with scheduler } id info args with
      | error e =>
        rw [hs] at h
        cases h
        exact ⟨[], _, .unspawned hb hr hs⟩
      | ok world =>
        rw [hs] at hl
        cases hl

/-- The result of a run that could be set up, given how its default worker ended and who failed. -/
def resultOf (outcome : Outcome) (failures : List WorkerFailure) : Except RunError (List Value) :=
  match outcome, failures with
  | .error fault, _ => .error (.faulted fault)
  | .ok values, [] => .ok values
  | .ok _, failures => .error (.workersFailed failures)

theorem conclude_eq (outcome : Outcome) (failures : List WorkerFailure) :
    conclude outcome (if failures = [] then .ok () else .error failures)
      = resultOf outcome failures := by
  cases outcome with
  | error fault => rfl
  | ok values =>
    cases failures with
    | nil => rfl
    | cons failure rest => rfl

/-- **Every run of a function is drained, and every fault is reported once.** What is run is one of the
runs of the function. After any of them nobody is at work, and every worker that has been counted in
has ended, once. If one of the function's own workers cannot take the arguments, nothing has been run,
no named worker has been counted in, and the result is what was wrong, as a fault of the default
worker. Otherwise the workers are those of the function and the named ones of every function that
has been called, and the result is the fault of the default worker, or else the failures, one for each
of the workers that failed, or else the values of the default worker. -/
theorem runs_drained (env : Environment) {world : World} (hw : world.AtRest) (id : FunctionId)
    (info : FunctionInfo) (args : List (Bank × Value)) :
    (∀ {σ ω : Type} (obs : Observer σ ω) (limit : Nat) (run run' : Run σ)
      (result : Except RunError (List Value)), run.world = world →
      env.runFunction obs limit run id info args = some (run', result) →
      ∃ deeds ended, env.Invokes world id info args deeds ended run'.world result) ∧
    ∀ deeds ended world' result, env.Invokes world id info args deeds ended world' result →
      world'.waiting = [] ∧ world'.scheduler.live = [] ∧ world'.scheduler.inFlight = 0 ∧
      (ended.map fun x => x.1.id).Perm (List.range' world.scheduler.nextId
        (world'.scheduler.nextId - world.scheduler.nextId)) ∧
      ((∃ w ∈ info.defaultWorker :: info.workers,
          ∀ frame, (Frame.start id w).bind world.store.heap args ≠ .ok frame) →
        deeds = [] ∧ (∀ x ∈ ended, x.1.post = info.lead id) ∧
          ∃ w ∈ info.defaultWorker :: info.workers, ∃ e,
            (Frame.start id w).bind world.store.heap args = .error e ∧
              result = .error (.faulted ⟨e, []⟩)) ∧
      ((∀ w ∈ info.defaultWorker :: info.workers,
          ∃ frame, (Frame.start id w).bind world.store.heap args = .ok frame) →
        (ended.map fun x => x.1.post).Perm
          (info.lead id :: info.named id ++ deeds.flatMap Deed.filled) ∧
        ∃ me outcome, me.id = world.scheduler.nextId ∧ me.post = info.lead id ∧
          (me, outcome) ∈ ended ∧
          result = resultOf outcome (ended.filterMap fun x => x.2.failure? x.1)) := by
  refine ⟨fun obs limit run run' result hrun h => ?_, fun deeds ended world' result h => ?_⟩
  · subst hrun
    exact runFunction_invokes hw h
  cases h with
  | @unbound e hb =>
    refine ⟨hw.waiting, hw.live, hw.inFlight, ?_, fun _ => ⟨rfl, by simp, ?_⟩, fun hall => ?_⟩
    · rw [Nat.sub_self]
      exact List.Perm.refl _
    · exact ⟨_, List.mem_cons_self, e, hb, rfl⟩
    · obtain ⟨frame, hf⟩ := hall _ List.mem_cons_self
      rw [hb] at hf
      cases hf
  | @unspawned e frame scheduler me hb hr hs =>
    have hbooks := Scheduler.Accounts.alone hw.live hw.inFlight hw.failures hr (.error ⟨e, []⟩)
    obtain ⟨hlive, hfree, hids⟩ := hbooks.settled
    obtain ⟨w, hmem, hbind⟩ := World.bind_of_spawn_error hs
    refine ⟨hw.waiting, hlive, hfree, hids, fun _ => ⟨rfl, ?_, ?_⟩, fun hall => ?_⟩
    · intro x hx
      cases hr
      rw [List.mem_singleton.mp hx]
      rfl
    · exact ⟨w, List.mem_cons_of_mem _ hmem, e, hbind, rfl⟩
    · obtain ⟨frame, hf⟩ := hall w (List.mem_cons_of_mem _ hmem)
      rw [hbind] at hf
      cases hf
  | @ran inv inv' deeds me outcome joined kept hl hc hme ho hj =>
    obtain ⟨hended, hmain, crew, hb, hposts⟩ := World.launch_balanced hw hl
    have hwaiting : inv'.world.waiting = [] := by
      obtain ⟨joining, hb', -⟩ := hb.course hc
      exact hb'.join?_eq_some_iff.mp ⟨joined, hj⟩
    obtain ⟨joining, hbooks, hjoining⟩ := hb.ends hc hwaiting
    obtain ⟨hlive, hfree, hids⟩ := hbooks.settled
    refine ⟨hwaiting, hlive, hfree, hids, fun hnot => ?_, fun _ => ⟨?_, ?_⟩⟩
    · obtain ⟨w, hmem, hnone⟩ := hnot
      obtain ⟨frame, hf⟩ := World.bind_of_launch_ok hl w hmem
      exact absurd hf (hnone frame)
    · have hp := hbooks.everyone.map WorkerInstance.post
      rw [List.nil_append, List.map_append, hposts, hjoining, List.map_map] at hp
      exact hp
    · refine ⟨me, outcome, hme.trans hmain, ?_, ho, ?_⟩
      · -- the first of the crew is the default worker, and ids are given once
        obtain ⟨c, rest, rfl, hlead, -⟩ := List.map_eq_cons_iff.mp hposts
        rw [hbooks.eq_head ho (hme.trans hmain), hlead]
      · have hlength : inv'.world.scheduler.inFlight = inv'.world.scheduler.live.length := by
          rw [hfree, hlive]
          rfl
        obtain ⟨-, hjoined⟩ := (Scheduler.join?_eq_some_iff hlength joined).mp hj
        rw [hjoined, ← hbooks.failures]
        exact conclude_eq outcome _

/-- Two workers come up while 21 is doubled, and each of them ends. -/
theorem doubling_drained :
    ∃ run', Environment.doubling.runFunction .idle 5 ⟨(), .start .empty []⟩ ⟨0⟩ Program.mainInfo
        [(.value .int, .int 21)] = some (run', .ok [.int 42]) ∧
      run'.world.waiting = [] ∧ run'.world.scheduler.live = [] ∧
      run'.world.scheduler.inFlight = 0 ∧
      ∃ deeds ended, Environment.doubling.Invokes (.start .empty []) ⟨0⟩ Program.mainInfo
          [(.value .int, .int 21)] deeds ended run'.world (.ok [.int 42]) ∧
        (ended.map fun x => x.1.id).Perm [1, 2] := by
  have hrun : ∃ run', Environment.doubling.runFunction .idle 5 ⟨(), .start .empty []⟩ ⟨0⟩
      Program.mainInfo [(.value .int, .int 21)] = some (run', .ok [.int 42]) ∧
      run'.world.scheduler.nextId = 3 := ⟨_, rfl, rfl⟩
  obtain ⟨run', hrun, hnext⟩ := hrun
  have hrest : (World.start .empty []).AtRest := ⟨rfl, rfl, rfl, rfl⟩
  have h := runs_drained .doubling hrest ⟨0⟩ Program.mainInfo [(.value .int, .int 21)]
  obtain ⟨deeds, ended, hruns⟩ := h.1 .idle 5 ⟨(), .start .empty []⟩ run' _ rfl hrun
  obtain ⟨hwaiting, hlive, hfree, hids, -⟩ := h.2 _ _ _ _ hruns
  rw [hnext] at hids
  exact ⟨run', hrun, hwaiting, hlive, hfree, deeds, ended, hruns, hids⟩

end Environment

end RegisterMachine
