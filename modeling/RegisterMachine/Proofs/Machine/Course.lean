import RegisterMachine.Proofs.Machine.Bookkeeping
import RegisterMachine.Proofs.Machine.Interleaving

/-!
# The course of an invocation

`Environment.Plays` says where turns lead and forgets them. Here they are kept: `Environment.Course`
is a run of turns with a `Deed` for each, which is all of a turn that anyone but its worker notices:
whose it was, the function it called, and the lines it printed.

Workers are counted in at calls, so the deeds are also the record of who should have been. The books
of the scheduler are kept one entry at a time; `Scheduler.Accounts` says what they come to for a whole
invocation, and `Environment.step_enlists` that a step counts in the named workers of the function it
calls and nobody else. A call that fails, because a named worker cannot take the arguments or for any
other reason, has called nothing.
-/

namespace RegisterMachine

/-! ## Who there should be -/

/-- A worker as its program knows it: the function it belongs to and its name there. -/
structure Post where
  function : FunctionId
  functionName : String
  workerName : String
  deriving DecidableEq, Repr

def WorkerInstance.post (w : WorkerInstance) : Post := ⟨w.function, w.functionName, w.workerName⟩

namespace FunctionInfo

/-- The post of the worker that runs in the caller's stead. -/
def lead (info : FunctionInfo) (id : FunctionId) : Post := ⟨id, info.name, info.defaultWorker.name⟩

/-- The posts of the workers that are started beside it. -/
def named (info : FunctionInfo) (id : FunctionId) : List Post :=
  info.workers.map fun w => ⟨id, info.name, w.name⟩

end FunctionInfo

/-- What a turn comes to for everyone but its worker. -/
structure Deed where
  who : WorkerInstance
  called : Option (FunctionId × FunctionInfo)
  printed : List String

/-- The posts that are filled on account of a deed. -/
def Deed.filled (d : Deed) : List Post := d.called.elim [] fun c => c.2.named c.1

namespace Environment

variable (env : Environment) (world : World) (w : Worker)

/-- The function that a worker is about to call. -/
def calling? : Option FunctionId :=
  match w.progress, w.stack with
  | .running, f :: _ =>
      match env.program.instruction? f.ip with
      | some (.call id _ _) => some id
      | _ => none
  | _, _ => none

/-- The function that its step enters: the call has gone through. -/
def called? : Option (FunctionId × FunctionInfo) :=
  if (env.step world w).2.progress.isFinal then none
  else (env.calling? w).bind fun id => (env.program.function? id).map (id, ·)

def deed : Deed where
  who := w.info
  called := env.called? world w
  printed := (env.step world w).1.store.output.toList.drop world.store.output.size

/-- A number of turns, with what has been done in each. -/
inductive Course (env : Environment) (inv : Invocation) : List Deed → Invocation → Prop
  | start : Course env inv [] inv
  | turn {deeds : List Deed} {inv' : Invocation} {before after : List Worker} {w : Worker}
      (h : Course env inv deeds inv') (hw : inv'.world.waiting = before ++ w :: after) :
      Course env inv (deeds ++ [env.deed { inv'.world with waiting := before ++ after } w])
        (inv'.takeBack (env.step { inv'.world with waiting := before ++ after } w).1
          (env.step { inv'.world with waiting := before ++ after } w).2)

variable {env} {inv inv' : Invocation}

theorem Course.plays {deeds : List Deed} (h : env.Course inv deeds inv') : env.Plays inv inv' := by
  induction h with
  | start => exact .refl
  | turn _ hw ih => exact ih.tail ⟨_, _, _, hw, rfl⟩

theorem Plays.course (h : env.Plays inv inv') : ∃ deeds, env.Course inv deeds inv' := by
  induction h with
  | refl => exact ⟨[], .start⟩
  | tail _ hturn ih =>
    obtain ⟨deeds, hc⟩ := ih
    obtain ⟨before, w, after, hw, rfl⟩ := hturn
    exact ⟨_, hc.turn hw⟩

end Environment

/-! ## The books of an invocation -/

namespace Scheduler

/-- Since the id `first` was due, `crew` have been counted in, in this order. Of these `active` are at
work and `ended` have ended, and nothing else is in the books. -/
structure Accounts (s : Scheduler) (first : Nat) (crew active : List WorkerInstance)
    (ended : List (WorkerInstance × Outcome)) : Prop where
  nextId : s.nextId = first + crew.length
  ids : crew.map WorkerInstance.id = List.range' first crew.length
  everyone : (active ++ ended.map Prod.fst).Perm crew
  live : s.live.Perm active
  inFlight : s.inFlight = active.length
  failures : s.failures = ended.filterMap fun x => x.2.failure? x.1

namespace Accounts

variable {s : Scheduler} {first : Nat} {crew active active' : List WorkerInstance}
  {ended : List (WorkerInstance × Outcome)}

theorem nodup_crew (h : s.Accounts first crew active ended) :
    (crew.map WorkerInstance.id).Nodup := by
  rw [h.ids]
  exact List.nodup_range'

theorem nodup_live (h : s.Accounts first crew active ended) :
    (s.live.map WorkerInstance.id).Nodup := by
  have hall := (h.everyone.map WorkerInstance.id).nodup_iff.mpr h.nodup_crew
  rw [List.map_append] at hall
  exact (h.live.map _).nodup_iff.mpr (hall.sublist (List.sublist_append_left _ _))

theorem perm (h : s.Accounts first crew active ended) (hp : active.Perm active') :
    s.Accounts first crew active' ended where
  nextId := h.nextId
  ids := h.ids
  everyone := (hp.symm.append_right _).trans h.everyone
  live := h.live.trans hp
  inFlight := h.inFlight.trans hp.length_eq
  failures := h.failures

theorem register (h : s.Accounts first crew active ended) (function : FunctionId)
    (name worker : String) :
    (s.register function name worker).1.Accounts first
      (crew ++ [(s.register function name worker).2])
      (active ++ [(s.register function name worker).2]) ended where
  nextId := by
    show s.nextId + 1 = _
    rw [List.length_append, h.nextId]
    rfl
  ids := by
    rw [List.map_append, List.length_append, h.ids, List.length_singleton, List.range'_1_concat,
      ← h.nextId]
    rfl
  everyone := by
    -- the new worker stands between those at work and those that have ended
    refine List.Perm.trans ?_ (h.everyone.append_right _)
    rw [List.append_assoc, List.append_assoc]
    exact List.perm_append_comm.append_left _
  live := h.live.append_right _
  inFlight := by
    show s.inFlight + 1 = (active ++ [_]).length
    rw [h.inFlight, List.length_append, List.length_singleton]
  failures := h.failures

theorem complete (h : s.Accounts first crew active ended) {w : WorkerInstance} (hw : w ∈ active)
    (outcome : Outcome) :
    (s.complete w.id outcome).Accounts first crew (active.erase w) (ended ++ [(w, outcome)]) := by
  rw [complete_of_mem h.nodup_live (h.live.mem_iff.mpr hw) outcome]
  refine ⟨h.nextId, h.ids, ?_, h.live.erase w, ?_, ?_⟩
  · refine List.Perm.trans ?_ h.everyone
    rw [List.map_append, List.map_singleton, ← List.append_assoc]
    refine List.perm_append_comm.trans ?_
    exact (List.perm_cons_erase hw).symm.append_right _
  · show s.inFlight - 1 = (active.erase w).length
    rw [h.inFlight, List.length_erase_of_mem hw]
  · show s.failures ++ (outcome.failure? w).toList = _
    rw [List.filterMap_append, h.failures]
    cases outcome with
    | ok values => rfl
    | error fault => rfl

theorem id_lt {w : WorkerInstance} (h : s.Accounts first crew active ended) (hw : w ∈ active) :
    w.id < s.nextId := by
  have hmem := List.mem_map_of_mem (f := WorkerInstance.id)
    (h.everyone.mem_iff.mp (List.mem_append_left _ hw))
  rw [h.ids, List.mem_range'_1, ← h.nextId] at hmem
  exact hmem.2

/-- Whoever else is at work or has ended has another id. -/
theorem id_ne {v w : WorkerInstance} (h : s.Accounts first crew (w :: active) ended)
    (hv : v ∈ active ∨ v ∈ ended.map Prod.fst) : v.id ≠ w.id := by
  have hnodup := (h.everyone.map WorkerInstance.id).nodup_iff.mpr h.nodup_crew
  rw [List.cons_append, List.map_cons, List.nodup_cons] at hnodup
  intro he
  exact hnodup.1 (he ▸ List.mem_map_of_mem (List.mem_append.mpr hv))

theorem id_head {c : WorkerInstance} {rest : List WorkerInstance}
    (h : s.Accounts first (c :: rest) active ended) : c.id = first := by
  have hids := h.ids
  rw [List.map_cons, List.length_cons, List.range'_succ, List.cons.injEq] at hids
  exact hids.1

/-- The worker with the first id is the first of the crew. -/
theorem eq_head {w c : WorkerInstance} {rest : List WorkerInstance} {outcome : Outcome}
    (h : s.Accounts first (c :: rest) active ended) (hw : (w, outcome) ∈ ended)
    (hid : w.id = first) : w = c := by
  have hmem : w ∈ c :: rest := h.everyone.mem_iff.mp
    (List.mem_append_right _ (List.mem_map_of_mem hw))
  exact List.inj_on_of_nodup_map h.nodup_crew hmem List.mem_cons_self (hid.trans h.id_head.symm)

/-- Before the first worker of an invocation is counted in. -/
theorem start (hl : s.live = []) (hi : s.inFlight = 0) (hf : s.failures = []) :
    s.Accounts s.nextId [] [] [] :=
  ⟨rfl, rfl, List.Perm.refl _, by rw [hl], hi, hf⟩

/-- After the first worker has been counted in and out again. -/
theorem alone {s' : Scheduler} {me : WorkerInstance} {function : FunctionId} {name worker : String}
    (hl : s.live = []) (hi : s.inFlight = 0) (hf : s.failures = [])
    (hr : s.register function name worker = (s', me)) (outcome : Outcome) :
    (s'.complete me.id outcome).Accounts s.nextId [me] [] [(me, outcome)] := by
  have hme := (start hl hi hf).register function name worker
  rw [hr, List.nil_append] at hme
  have hdone := hme.complete List.mem_cons_self outcome
  rwa [List.nil_append, List.erase_cons_head] at hdone

/-- After the last one has been counted out. -/
theorem settled (h : s.Accounts first crew [] ended) :
    s.live = [] ∧ s.inFlight = 0 ∧
      (ended.map fun x => x.1.id).Perm (List.range' first (s.nextId - first)) := by
  refine ⟨List.perm_nil.mp h.live, h.inFlight, ?_⟩
  have hids := h.everyone.map WorkerInstance.id
  rw [h.ids, List.nil_append, List.map_map] at hids
  rw [h.nextId, Nat.add_sub_cancel_left]
  exact hids

end Accounts

end Scheduler

namespace World

/-- In `world'` the workers `started` are counted in, whatever was in the books before, and wait behind
those of `world`. -/
structure Enlists (world : World) (started : List Worker) (world' : World) : Prop where
  waiting : world'.waiting = world.waiting ++ started
  books {first : Nat} {crew active : List WorkerInstance} {ended : List (WorkerInstance × Outcome)}
    (h : world.scheduler.Accounts first crew active ended) :
    world'.scheduler.Accounts first (crew ++ started.map Worker.info)
      (active ++ started.map Worker.info) ended

namespace Enlists

variable {world world' world'' : World} {started started' : List Worker}

theorem nobody (hw : world'.waiting = world.waiting) (hs : world'.scheduler = world.scheduler) :
    world.Enlists [] world' where
  waiting := by rw [hw, List.append_nil]
  books h := by
    rw [hs, List.map_nil, List.append_nil, List.append_nil]
    exact h

theorem trans (h : world.Enlists started world') (h' : world'.Enlists started' world'') :
    world.Enlists (started ++ started') world'' where
  waiting := by rw [h'.waiting, h.waiting, List.append_assoc]
  books hb := by
    rw [List.map_append, ← List.append_assoc, ← List.append_assoc]
    exact h'.books (h.books hb)

theorem enqueue (world : World) (name : String) (frame : Frame) :
    ∃ s, world.Enlists [s] (world.enqueue name frame) ∧
      s.info.post = ⟨frame.function, name, frame.worker⟩ := by
  refine ⟨.start (world.scheduler.register frame.function name frame.worker).2 frame, ⟨rfl, ?_⟩, rfl⟩
  intro first crew active ended h
  exact h.register frame.function name frame.worker

theorem foldl_enqueue (name : String) (frames : List Frame) (world : World) :
    ∃ started, world.Enlists started (frames.foldl (fun w f => w.enqueue name f) world) ∧
      started.map (fun s => s.info.post) = frames.map fun f => ⟨f.function, name, f.worker⟩ := by
  induction frames generalizing world with
  | nil => exact ⟨[], nobody rfl rfl, rfl⟩
  | cons f rest ih =>
    obtain ⟨s, hs, hp⟩ := enqueue world name f
    obtain ⟨started, hr, hps⟩ := ih (world.enqueue name f)
    refine ⟨s :: started, hs.trans hr, ?_⟩
    rw [List.map_cons, List.map_cons, hp, hps]

end Enlists

end World

/-- A frame that takes arguments stays the frame of its worker. -/
theorem Frame.bind_post {h : Heap} {id : FunctionId} {w : WorkerInfo} {args : List (Bank × Value)}
    {frame : Frame} (hb : (Frame.start id w).bind h args = .ok frame) :
    frame.function = id ∧ frame.worker = w.name := by
  obtain ⟨⟨ps, hps⟩, -⟩ := (Frame.bind_meets h (Frame.Shaped.start id w) args).of_ok hb
  rw [hps.rest]
  exact ⟨rfl, rfl⟩

/-- Starting the named workers of a function counts in all of them. -/
theorem World.spawn_enlists {world world' : World} {id : FunctionId} {info : FunctionInfo}
    {args : List (Bank × Value)} (h : world.spawn id info args = .ok world') :
    ∃ started, world.Enlists started world' ∧
      started.map (fun s => s.info.post) = info.named id := by
  obtain ⟨frames, hframes, rfl⟩ := spawn_eq_ok h
  obtain ⟨started, he, hp⟩ := Enlists.foldl_enqueue info.name frames world
  refine ⟨started, he, hp.trans ?_⟩
  -- the frames are made in the order of the workers
  have hposts := hframes.imp fun w f hb =>
    show (⟨id, info.name, w.name⟩ : Post) = ⟨f.function, info.name, f.worker⟩ by
      obtain ⟨hfun, hname⟩ := Frame.bind_post hb
      rw [hfun, hname]
  rw [FunctionInfo.named, ← List.forall₂_eq_eq_eq, List.forall₂_map_left_iff,
    List.forall₂_map_right_iff]
  exact hposts.flip.imp fun f w h => h.symm

namespace Environment

variable {env : Environment} (world : World)

theorem ret_world (stack : CallStack) (regs : List AnyReg) :
    (ret world stack regs).world = world := by
  unfold ret
  cases stack with
  | nil => rfl
  | cons callee below =>
    dsimp only
    cases callee.readAll regs with
    | error e => rfl
    | ok values =>
      cases callee.returnTo with
      | none => rfl
      | some ip =>
        cases below with
        | nil => rfl
        | cons caller rest =>
          dsimp only
          split <;> rfl

theorem nativeCall_store (info : WorkerInstance) (stack : CallStack) (name : String)
    (args rets : List AnyReg) :
    ∃ store, (env.nativeCall world info stack name args rets).world = { world with store } := by
  unfold nativeCall
  cases env.natives.lookup name with
  | none => exact ⟨_, rfl⟩
  | some native =>
    cases stack with
    | nil => exact ⟨_, rfl⟩
    | cons frame below =>
      dsimp only
      cases frame.readAll args with
      | error e => exact ⟨_, rfl⟩
      | ok values =>
        dsimp only
        cases (native info world.store values).2 with
        | error e => exact ⟨_, rfl⟩
        | ok results =>
          refine ⟨(native info world.store values).1, ?_⟩
          dsimp only
          split <;> rfl

/-- Nothing but a call reaches further than the store. -/
theorem execute_store (info : WorkerInstance) (stack : CallStack) {i : Instruction}
    (hi : ∀ id args rets, i ≠ .call id args rets) :
    ∃ store, (env.execute world info stack i).world = { world with store } := by
  cases i with
  | call id args rets => exact absurd rfl (hi id args rets)
  | ret regs => exact ⟨world.store, ret_world world stack regs⟩
  | nativeCall name args rets => exact env.nativeCall_store world info stack name args rets
  | _ =>
    cases stack with
    | nil => exact ⟨_, rfl⟩
    | cons frame below =>
      simp only [execute]
      split <;> exact ⟨_, rfl⟩

/-- A call that goes through has started the named workers of its function. -/
theorem call_spawns (stack : CallStack) (id : FunctionId) (args rets : List AnyReg) :
    Meets
      (fun r => ∃ info handed, env.program.function? id = some info ∧
        world.spawn id info handed = .ok r.1)
      (fun _ => True) (env.call world stack id args rets) := by
  have anyhow : ∀ {α : Type} (x : Except ExecutionError α),
      Meets (fun a => x = .ok a) (fun _ => True) x := fun x =>
    .intro (fun _ h => h) fun _ _ => trivial
  unfold call
  cases hf : env.program.function? id with
  | none => exact trivial
  | some info =>
    dsimp only
    split
    · exact trivial
    · cases stack with
      | nil => exact trivial
      | cons caller below =>
        refine (anyhow _).bind fun values _ => ?_
        refine (anyhow _).bind fun callee _ => ?_
        exact (anyhow _).bind fun world' hs => ⟨info, _, rfl, hs⟩

theorem calling?_of_running {w : Worker} {f : Frame} {below : CallStack}
    (hp : w.progress = .running) (hs : w.stack = f :: below) :
    env.calling? w = match env.program.instruction? f.ip with
      | some (.call id _ _) => some id
      | _ => none := by
  unfold calling?
  rw [hp, hs]

/-- A worker that is not about to call anything calls nothing. -/
theorem called?_of_calling? {w : Worker} (h : env.calling? w = none) :
    env.called? world w = none := by
  unfold called?
  rw [h]
  exact ite_self _

theorem called?_of_call {w : Worker} {f : Frame} {below : CallStack} {id : FunctionId}
    {args rets : List AnyReg} {r : World × CallStack} {info : FunctionInfo}
    (hp : w.progress = .running) (hs : w.stack = f :: below)
    (hi : env.program.instruction? f.ip = some (.call id args rets))
    (hr : env.call world (f.past :: below) id args rets = .ok r)
    (hf : env.program.function? id = some info) : env.called? world w = some (id, info) := by
  have hstep : (env.step world w).2.progress = .running := by
    simp only [step, hp, hs, advance, hi, execute, hr]
  have hcalling : env.calling? w = some id := by
    rw [calling?_of_running hp hs, hi]
  unfold called?
  rw [hstep, hcalling, Option.bind_some, hf]
  rfl

/-- What a worker that calls something is at. -/
theorem calling?_of_called? {world : World} {w : Worker} {id : FunctionId} {info : FunctionInfo}
    (h : env.called? world w = some (id, info)) :
    env.program.function? id = some info ∧
      ∃ f below args rets, w.stack = f :: below ∧
        env.program.instruction? f.ip = some (.call id args rets) := by
  unfold called? at h
  split at h
  · cases h
  · obtain ⟨id', hcalling, h⟩ := Option.bind_eq_some_iff.mp h
    obtain ⟨info', hinfo, h⟩ := Option.map_eq_some_iff.mp h
    cases h
    refine ⟨hinfo, ?_⟩
    unfold calling? at hcalling
    split at hcalling
    · rename_i f below _ hstack
      split at hcalling
      · rename_i id args rets hi
        cases hcalling
        exact ⟨f, below, args, rets, hstack, hi⟩
      · cases hcalling
    · cases hcalling

theorem step_world {w : Worker} (hp : w.progress = .running) :
    (env.step world w).1 = (env.advance world w.info w.stack).world := by
  unfold step
  rw [hp]
  dsimp only
  split <;> rfl

/-- A call goes through, and then named workers have been started, or it has changed nothing. -/
theorem step_call {w : Worker} {f : Frame} {below : CallStack} {id : FunctionId}
    {args rets : List AnyReg} (hp : w.progress = .running) (hs : w.stack = f :: below)
    (hi : env.program.instruction? f.ip = some (.call id args rets)) :
    (∃ info handed, env.called? world w = some (id, info) ∧
      world.spawn id info handed = .ok (env.step world w).1) ∨
    (env.called? world w = none ∧ (env.step world w).1 = world) := by
  have hm := env.call_spawns world (f.past :: below) id args rets
  rw [step_world world hp, hs]
  simp only [advance, hi, execute]
  cases hr : env.call world (f.past :: below) id args rets with
  | ok r =>
    obtain ⟨info, handed, hf, hspawn⟩ := hm.of_ok hr
    exact Or.inl ⟨info, handed, env.called?_of_call world hp hs hi hr hf, hspawn⟩
  | error e =>
    refine Or.inr ⟨?_, rfl⟩
    simp only [called?, step, hp, hs, advance, hi, execute, hr, Progress.isFinal, if_true]

/-- A step calls a function and starts its named workers, or it reaches no further than the store. -/
theorem step_cases (env : Environment) (world : World) (w : Worker) :
    (∃ id info handed, env.called? world w = some (id, info) ∧
      world.spawn id info handed = .ok (env.step world w).1) ∨
    (env.called? world w = none ∧ ∃ store, (env.step world w).1 = { world with store }) := by
  by_cases hp : w.progress = .running
  case neg =>
    refine Or.inr ⟨env.called?_of_calling? world ?_, world.store, ?_⟩
    · unfold calling?
      cases hw : w.progress with
      | running => exact absurd hw hp
      | returned values => rfl
      | faulted fault => rfl
    · rw [env.step_of_not_running world hp]
  cases hs : w.stack with
  | nil =>
    refine Or.inr ⟨env.called?_of_calling? world ?_, world.store, ?_⟩
    · unfold calling?
      rw [hp, hs]
    · rw [step_world world hp, hs]
      rfl
  | cons f below =>
    have hcalling : env.calling? w = _ := calling?_of_running hp hs
    have hworld : (env.step world w).1 = _ := step_world world hp
    rw [hs] at hworld
    unfold advance at hworld
    dsimp only at hworld
    cases hi : env.program.instruction? f.ip with
    | none =>
      rw [hi] at hcalling hworld
      exact Or.inr ⟨env.called?_of_calling? world hcalling, world.store, hworld⟩
    | some i =>
      rw [hi] at hcalling hworld
      by_cases hc : ∃ id args rets, i = .call id args rets
      · obtain ⟨id, args, rets, rfl⟩ := hc
        rcases step_call world hp hs hi with ⟨info, handed, hcalled, hspawn⟩ | ⟨hnone, hsame⟩
        · exact Or.inl ⟨id, info, handed, hcalled, hspawn⟩
        · exact Or.inr ⟨hnone, world.store, hsame⟩
      · have hother : ∀ id args rets, i ≠ .call id args rets := fun id args rets he =>
          hc ⟨id, args, rets, he⟩
        obtain ⟨store, hstore⟩ := env.execute_store world w.info (f.past :: below) hother
        refine Or.inr ⟨env.called?_of_calling? world ?_, store, hworld.trans hstore⟩
        rw [hcalling]
        cases i with
        | call id args rets => exact absurd rfl (hother id args rets)
        | _ => rfl

theorem step_enlists (env : Environment) (world : World) (w : Worker) :
    ∃ started, world.Enlists started (env.step world w).1 ∧
      started.map (fun s => s.info.post) = (env.deed world w).filled := by
  show ∃ started, _ ∧ _ = (env.called? world w).elim [] fun c => c.2.named c.1
  rcases env.step_cases world w with ⟨id, info, handed, hc, hs⟩ | ⟨hc, store, hs⟩
  · rw [hc]
    exact World.spawn_enlists hs
  · rw [hc, hs]
    exact ⟨[], .nobody rfl rfl, rfl⟩

end Environment

end RegisterMachine
