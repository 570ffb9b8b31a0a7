import RegisterMachine.Machine.Run
import RegisterMachine.Proofs.Machine.Reach

/-!
# Workers taking turns

The workers of an invocation run side by side, and nothing says whose turn it is. `Invocation` is such
a run as it stands, and `Environment.Turn` lets any worker that has not ended take its next step in
the world that the others have left: what holds of every invocation that turns lead to holds under
every schedule.

`Environment.runFunction` keeps to one schedule, the default worker first and then the others in the
order they were started. **`Environment.runFunction_plays`** says that it is one: whatever it comes to,
turns lead there.
-/

namespace RegisterMachine

/-- An invocation of a function under way. -/
structure Invocation where
  /-- All workers that have not ended wait in it. -/
  world : World
  /-- The id of the worker whose values are the result. -/
  main : Nat
  /-- How those that have ended did, in that order. -/
  ended : List (WorkerInstance × Outcome)

/-- Takes a worker back that has had its turn. One that has ended is counted out, and what the
main one has returned is held. -/
def Invocation.takeBack (inv : Invocation) (world : World) (w : Worker) : Invocation :=
  if w.progress.isFinal then
    let outcome := w.progress.outcome
    let world := world.complete w.info outcome
    { main := inv.main
      world := if w.info.id = inv.main then world.hold outcome.values else world
      ended := inv.ended ++ [(w.info, outcome)] }
  else
    { main := inv.main
      world := { world with waiting := w :: world.waiting }
      ended := inv.ended }

/-- Sets up an invocation: its default worker and the named workers of the function are about to
run, on the same arguments. -/
def World.launch (world : World) (id : FunctionId) (info : FunctionInfo)
    (args : List (Bank × Value)) : Except ExecutionError Invocation := do
  let frame ← (Frame.start id info.defaultWorker).bind world.store.heap args
  let (scheduler, me) := world.scheduler.register id info.name info.defaultWorker.name
  let world ← { world with scheduler }.spawn id info args
  let world := world.hold (args.map Prod.snd)
  .ok { world := { world with waiting := .start me frame :: world.waiting }
        main := me.id
        ended := [] }

/-- What setting up an invocation comes to: nothing waits in it but fresh workers of the function. -/
theorem World.launch_meets (world : World) (id : FunctionId) (info : FunctionInfo)
    (args : List (Bank × Value)) :
    Meets
      (fun inv => inv.ended = [] ∧ inv.world.scheduler.failures = world.scheduler.failures ∧
        ∀ s ∈ inv.world.waiting, s ∈ world.waiting ∨
          ∃ w ∈ info.defaultWorker :: info.workers, s.FreshOf id w)
      (fun e => e.isFatal = true →
        ∃ w ∈ info.defaultWorker :: info.workers, ¬ w.registers.Takes (args.map Prod.fst))
      (world.launch id info args) := by
  unfold launch
  have hdefault := Frame.bind_meets world.store.heap
    (Frame.Shaped.start id info.defaultWorker) args
  refine (hdefault.with_eq.mono (fun _ h => h) fun e he hfatal => ?_).bind fun frame hframe => ?_
  · exact ⟨_, List.mem_cons_self, (he hfatal).2⟩
  have hnamed := World.spawn_meets
    { world with
      scheduler := (world.scheduler.register id info.name info.defaultWorker.name).1 } id info args
  refine (hnamed.mono (fun _ h => h) fun e he hfatal => ?_).bind fun world' hw => ?_
  · obtain ⟨-, w, hw, ht⟩ := he hfatal
    exact ⟨w, List.mem_cons_of_mem _ hw, ht⟩
  obtain ⟨started, hstarts, hfresh⟩ := hw
  refine ⟨rfl, hstarts.failures, ?_⟩
  intro s hs
  rcases List.mem_cons.mp hs with rfl | hs
  · exact Or.inr ⟨_, List.mem_cons_self, world.store.heap, args, frame, hframe.1, rfl⟩
  · have hs' : s ∈ world'.waiting := hs
    rw [hstarts.waiting] at hs'
    rcases List.mem_append.mp hs' with hs' | hs'
    · exact Or.inl hs'
    · obtain ⟨w, hw, hf⟩ := hfresh s hs'
      exact Or.inr ⟨w, List.mem_cons_of_mem _ hw, hf⟩

/-- An invocation that could be set up: each of the parts could. -/
theorem World.launch_eq_ok {world : World} {id : FunctionId} {info : FunctionInfo}
    {args : List (Bank × Value)} {inv : Invocation} (h : world.launch id info args = .ok inv) :
    ∃ frame scheduler me world',
      (Frame.start id info.defaultWorker).bind world.store.heap args = .ok frame ∧
      world.scheduler.register id info.name info.defaultWorker.name = (scheduler, me) ∧
      ({ world with scheduler } : World).spawn id info args = .ok world' ∧
      inv = ⟨{ world'.hold (args.map Prod.snd) with waiting := .start me frame :: world'.waiting },
        me.id, []⟩ := by
  unfold launch at h
  cases hb : (Frame.start id info.defaultWorker).bind world.store.heap args with
  | error e =>
    rw [hb] at h
    cases h
  | ok frame =>
    rw [hb] at h
    dsimp only [bind, Except.bind] at h
    generalize world.scheduler.register id info.name info.defaultWorker.name = reg at h
    obtain ⟨scheduler, me⟩ := reg
    cases hs : World.spawn { world with scheduler } id info args with
    | error e =>
      rw [hs] at h
      cases h
    | ok world' =>
      rw [hs] at h
      cases h
      exact ⟨frame, scheduler, me, world', rfl, rfl, hs, rfl⟩

/-- Nothing is at work in the world, and nothing that was has failed. -/
def World.Idle (world : World) : Prop := world.waiting = [] ∧ world.scheduler.failures = []

namespace Environment

/-- One of the workers takes a step. -/
def Turn (env : Environment) (inv inv' : Invocation) : Prop :=
  ∃ before w after, inv.world.waiting = before ++ w :: after ∧
    inv' = inv.takeBack (env.step { inv.world with waiting := before ++ after } w).1
      (env.step { inv.world with waiting := before ++ after } w).2

/-- Some turns. -/
abbrev Plays (env : Environment) : Invocation → Invocation → Prop := Relation.ReflTransGen env.Turn

end Environment

namespace Invocation

variable {inv : Invocation} {world : World} {w : Worker}

theorem takeBack_of_running (h : w.progress.isFinal = false) :
    inv.takeBack world w =
      { inv with world := { world with waiting := w :: world.waiting } } := by
  unfold takeBack
  rw [h]
  rfl

/-- Whoever takes a worker back only knows which worker is the main one and how others ended. -/
theorem takeBack_congr {inv' : Invocation} (hm : inv'.main = inv.main)
    (he : inv'.ended = inv.ended) : inv'.takeBack world w = inv.takeBack world w := by
  unfold takeBack
  rw [hm, he]

theorem takeBack_main (h : w.progress.isFinal = true) (hm : w.info.id = inv.main) :
    inv.takeBack world w =
      { main := inv.main
        world := (world.complete w.info w.progress.outcome).hold w.progress.outcome.values
        ended := inv.ended ++ [(w.info, w.progress.outcome)] } := by
  unfold takeBack
  rw [h, hm]
  simp

theorem takeBack_other (h : w.progress.isFinal = true) (hm : w.info.id ≠ inv.main) :
    inv.takeBack world w =
      { main := inv.main
        world := world.complete w.info w.progress.outcome
        ended := inv.ended ++ [(w.info, w.progress.outcome)] } := by
  unfold takeBack
  rw [h]
  simp [hm]

end Invocation

/-! ## Worker ids -/

theorem Scheduler.nextId_complete (s : Scheduler) (id : Nat) (outcome : Outcome) :
    (s.complete id outcome).nextId = s.nextId := by
  unfold complete
  split <;> rfl

/-- None of the workers that wait, and none that is yet to come, has the id. -/
def World.Past (id : Nat) (world : World) : Prop :=
  id < world.scheduler.nextId ∧ ∀ w ∈ world.waiting, w.info.id ≠ id

namespace World.Past

variable {id : Nat} {world world' : World}

theorem of_starts {started : List Worker} (h : world.Past id) (hs : world.Starts started world') :
    world'.Past id := by
  obtain ⟨hlt, hne⟩ := h
  constructor
  · rw [hs.nextId]
    exact Nat.lt_add_right _ hlt
  · intro w hw
    rw [hs.waiting] at hw
    rcases List.mem_append.mp hw with hw | hw
    · exact hne w hw
    · have := (hs.ids w hw).1
      omega

theorem of_adds {p : Program} (h : world.Past id) (ha : World.Adds p world world') :
    world'.Past id := by
  obtain ⟨started, hs, -⟩ := ha
  exact h.of_starts hs

/-- The id of a worker is not given again. -/
theorem register (h : world.waiting = []) (function : FunctionId) (name worker : String) :
    ({ world with scheduler := (world.scheduler.register function name worker).1 } : World).Past
      (world.scheduler.register function name worker).2.id :=
  ⟨Nat.lt_succ_self _, fun _ hm => absurd (h ▸ hm) List.not_mem_nil⟩

theorem complete {info : WorkerInstance} {outcome : Outcome} (h : world.Past id) :
    (world.complete info outcome).Past id := by
  refine ⟨?_, h.2⟩
  show id < (world.scheduler.complete info.id outcome).nextId
  rw [Scheduler.nextId_complete]
  exact h.1

end World.Past

/-! ## One schedule -/

namespace Environment

variable {env : Environment} {σ ω : Type} {obs : Observer σ ω} {limit : Nat} {run run' : Run σ}

/-- A worker keeps its id for life. -/
theorem step_info (env : Environment) (world : World) (w : Worker) :
    (env.step world w).2.info = w.info := by
  unfold step
  split
  · dsimp only
    split <;> rfl
  · rfl

/-- Running a worker to its end is a number of turns, all of them its own. -/
theorem runWorker_plays {o : ω} {w : Worker} {outcome : Outcome}
    (h : env.runWorker obs limit run o w = some (run', outcome)) (inv : Invocation)
    (hinv : inv.world = { run.world with waiting := w :: run.world.waiting }) :
    (∃ w', env.Plays inv (inv.takeBack run'.world w') ∧ w'.info = w.info ∧
      w'.progress.isFinal = true ∧ w'.progress.outcome = outcome) ∧
    ∀ id, run.world.Past id → run'.world.Past id := by
  -- after each step the worker is handed back in front, which is where the next turn finds it
  induction limit generalizing run o w inv with
  | zero => exact absurd h (by simp [runWorker])
  | succ limit ih =>
    unfold runWorker at h
    cases ho : obs.observe run.seen o run.world w with
    | none =>
      rw [ho] at h
      exact absurd h (by simp)
    | some known =>
      rw [ho] at h
      dsimp only at h
      have hturn : env.Turn inv
          (inv.takeBack (env.step run.world w).1 (env.step run.world w).2) := by
        refine ⟨[], w, run.world.waiting, ?_, ?_⟩
        · rw [hinv]
          rfl
        · rw [hinv]
          rfl
      have hadds := env.step_adds run.world w
      have hinfo := env.step_info run.world w
      generalize env.step run.world w = r at h hturn hadds hinfo
      by_cases hf : r.2.progress.isFinal = true
      · rw [if_pos hf, Option.some.injEq, Prod.mk.injEq] at h
        obtain ⟨rfl, rfl⟩ := h
        exact ⟨⟨r.2, .single hturn, hinfo, hf, rfl⟩, fun id hid => hid.of_adds hadds⟩
      · rw [if_neg hf] at h
        rw [Invocation.takeBack_of_running (by simpa using hf)] at hturn
        obtain ⟨⟨w', hplay, hw', hf', ho'⟩, hpast⟩ :=
          ih h { inv with world := { r.1 with waiting := r.2 :: r.1.waiting } } rfl
        rw [Invocation.takeBack_congr rfl rfl] at hplay
        exact ⟨⟨w', hplay.head hturn, hw'.trans hinfo, hf', ho'⟩,
          fun id hid => hpast id (hid.of_adds hadds)⟩

/-- Running what waits, in its order, after the main worker has ended. -/
theorem runWaiting_plays {workers : Nat}
    (h : env.runWaiting obs limit workers run = some run') (inv : Invocation)
    (hinv : inv.world = run.world) (hpast : run.world.Past inv.main) :
    ∃ ended, env.Plays inv ⟨run'.world, inv.main, inv.ended ++ ended⟩ ∧
      run'.world.waiting = [] := by
  induction workers generalizing run inv with
  | zero => exact absurd h (by simp [runWaiting])
  | succ workers ih =>
    unfold runWaiting at h
    cases hw : run.world.waiting with
    | nil =>
      simp only [hw, Option.some.injEq] at h
      subst h
      refine ⟨[], ?_, hw⟩
      rw [← hinv, List.append_nil]
    | cons w waiting =>
      simp only [hw] at h
      have hne : w.info.id ≠ inv.main := hpast.2 w (by rw [hw]; exact List.mem_cons_self)
      have hpast' : ({ run.world with waiting } : World).Past inv.main :=
        ⟨hpast.1, fun v hv => hpast.2 v (by rw [hw]; exact List.mem_cons_of_mem _ hv)⟩
      cases hr : env.runWorker obs limit ⟨run.seen, { run.world with waiting }⟩ obs.fresh w with
      | none =>
        rw [hr] at h
        exact absurd h (by simp)
      | some r =>
        rw [hr] at h
        dsimp only at h
        have hinv' : inv.world = { run.world with waiting := w :: waiting } := by
          rw [hinv, ← hw]
        obtain ⟨⟨w', hplay, hinfo, hfin, hout⟩, hp⟩ := runWorker_plays hr inv hinv'
        rw [Invocation.takeBack_other hfin (by rw [hinfo]; exact hne), hinfo, hout] at hplay
        obtain ⟨ended, hrest, hnil⟩ := ih h
          ⟨r.1.world.complete w.info r.2, inv.main, inv.ended ++ [(w.info, r.2)]⟩ rfl
          (hp _ hpast').complete
        refine ⟨(w.info, r.2) :: ended, hplay.trans ?_, hnil⟩
        rw [List.append_assoc] at hrest
        exact hrest

/-- **A run of a function is one of its schedules.** It could not be set up, or turns of its
workers have led from its start to where none was left. -/
theorem runFunction_plays {id : FunctionId} {info : FunctionInfo} {args : List (Bank × Value)}
    {result : Except RunError (List Value)} (hw : run.world.Idle)
    (h : env.runFunction obs limit run id info args = some (run', result)) :
    (∃ e, run.world.launch id info args = .error e ∧ result = .error (.faulted ⟨e, []⟩)) ∨
      ∃ inv inv' me outcome joined, run.world.launch id info args = .ok inv ∧
        env.Plays inv inv' ∧ inv'.world.waiting = [] ∧ inv.main = me.id ∧
        (me, outcome) ∈ inv'.ended ∧ inv'.world.scheduler.join? = some joined ∧
        run'.world = { inv'.world with kept := run'.world.kept } ∧
        result = conclude outcome joined := by
  unfold runFunction at h
  unfold World.launch
  dsimp only at h
  cases hb : (Frame.start id info.defaultWorker).bind run.world.store.heap args with
  | error e =>
    rw [hb] at h
    cases h
    exact Or.inl ⟨e, rfl, rfl⟩
  | ok frame =>
    rw [hb] at h
    dsimp only [bind, Except.bind] at h ⊢
    have hme := World.Past.register hw.1 id info.name info.defaultWorker.name
    generalize run.world.scheduler.register id info.name info.defaultWorker.name = reg at h hme ⊢
    obtain ⟨scheduler, me⟩ := reg
    dsimp only at h hme ⊢
    have hspawn := World.spawn_meets { run.world with scheduler } id info args
    cases hs : World.spawn { run.world with scheduler } id info args with
    | error e =>
      rw [hs] at h
      cases h
      exact Or.inl ⟨e, rfl, rfl⟩
    | ok world =>
      obtain ⟨started, hstarts, -⟩ := hspawn.of_ok hs
      have hpast : world.Past me.id := hme.of_starts hstarts
      rw [hs] at h
      dsimp only at h
      obtain ⟨⟨run₁, outcome⟩, hrun, h⟩ := Option.bind_eq_some_iff.mp h
      obtain ⟨run₂, hwait, h⟩ := Option.bind_eq_some_iff.mp h
      obtain ⟨joined, hjoin, h⟩ := Option.bind_eq_some_iff.mp h
      cases h
      obtain ⟨⟨w', hplay, hinfo, hfin, hout⟩, hp⟩ := runWorker_plays hrun
        ⟨{ world.hold (args.map Prod.snd) with waiting := .start me frame :: world.waiting }, me.id,
          []⟩ rfl
      rw [Invocation.takeBack_main hfin (by rw [hinfo]; rfl), hinfo, hout] at hplay
      obtain ⟨ended, hrest, hnil⟩ := runWaiting_plays hwait
        ⟨(run₁.world.complete me outcome).hold outcome.values, me.id, [(me, outcome)]⟩ rfl
        (hp me.id hpast).complete
      exact Or.inr ⟨_, _, me, outcome, joined, rfl, hplay.trans hrest, hnil, rfl,
        List.mem_cons_self, hjoin, rfl, rfl⟩

end Environment

end RegisterMachine
