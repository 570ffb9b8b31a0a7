import RegisterMachine.Machine.Run

/-!
# Watching a run

An observer can hold a run up and do nothing else to it. So what a run comes to under an observer falls
into two parts. One is the run itself, with all the boundaries that it comes to between two instructions:
they are what an observer sees that writes everything down (`Observer.trail`). The other is what the
observer makes of being shown these boundaries (`Observer.follow`). `Environment.runPackages_follows` says
that the two together are the run under the observer.
-/

namespace RegisterMachine

/-- A worker that is about to take a step. -/
structure Boundary where
  /-- Whether it is the first of this worker. -/
  first : Bool
  world : World
  worker : Worker

variable {σ ω α β : Type}

namespace Observer

/-- An observer that writes down what it is shown. -/
def trail : Observer (List Boundary) Bool :=
  ⟨true, fun seen first world worker => some (seen ++ [⟨first, world, worker⟩], false)⟩

/-- What an observer comes to know when it is shown some boundaries, if it lets them all pass. -/
def follow (obs : Observer σ ω) : σ → ω → List Boundary → Option (σ × ω)
  | s, o, [] => some (s, o)
  | s, o, b :: rest =>
      match obs.observe s (if b.first then obs.fresh else o) b.world b.worker with
      | none => none
      | some (s, o) => obs.follow s o rest

variable {obs : Observer σ ω}

theorem follow_append (s : σ) (o : ω) (bs bs' : List Boundary) :
    obs.follow s o (bs ++ bs') = (obs.follow s o bs).bind fun k => obs.follow k.1 k.2 bs' := by
  induction bs generalizing s o with
  | nil => rfl
  | cons b rest ih =>
    simp only [List.cons_append, follow]
    cases obs.observe s (if b.first then obs.fresh else o) b.world b.worker with
    | none => rfl
    | some k => exact ih k.1 k.2

/-- An observer that does not look lets everything pass. -/
theorem follow_idle (bs : List Boundary) : idle.follow () () bs = some ((), ()) := by
  induction bs with
  | nil => rfl
  | cons b rest ih => exact ih

/-- `x` is what comes under an observer of what `y` is, which has written everything down. -/
def Follows (obs : Observer σ ω) (s : σ) (o : ω) (seen : List Boundary)
    (x : Option (Run σ × α)) (y : Option (Run (List Boundary) × α)) : Prop :=
  match y with
  | none => x = none
  | some (run, a) => ∃ bs, run.seen = seen ++ bs ∧
      x = (obs.follow s o bs).map fun k => (⟨k.1, run.world⟩, a)

namespace Follows

variable {s : σ} {o : ω} {seen : List Boundary}

/-- Nothing has been shown. -/
theorem done (world : World) (a : α) :
    obs.Follows s o seen (some (⟨s, world⟩, a)) (some (⟨seen, world⟩, a)) :=
  ⟨[], (List.append_nil _).symm, rfl⟩

theorem none : obs.Follows s o seen (none : Option (Run σ × α)) none := rfl

/-- What comes first is shown first. -/
theorem bind {x : Option (Run σ × α)} {y : Option (Run (List Boundary) × α)}
    {f : Run σ × α → Option (Run σ × β)}
    {g : Run (List Boundary) × α → Option (Run (List Boundary) × β)}
    (h : obs.Follows s o seen x y)
    (hfg : ∀ s o seen world a, obs.Follows s o seen (f (⟨s, world⟩, a)) (g (⟨seen, world⟩, a))) :
    obs.Follows s o seen (x.bind f) (y.bind g) := by
  cases y with
  | none =>
    have hx : x = Option.none := h
    rw [hx]
    exact rfl
  | some r =>
    obtain ⟨⟨seen', world⟩, a⟩ := r
    obtain ⟨bs, hseen, hx⟩ := h
    dsimp only at hseen hx
    subst hseen hx
    show obs.Follows s o seen _ (g (⟨seen ++ bs, world⟩, a))
    cases hk : obs.follow s o bs with
    | none =>
      cases hg : g (⟨seen ++ bs, world⟩, a) with
      | none => rfl
      | some r =>
        -- it was held up before, wherever the rest would have led
        have hrest := hfg s o (seen ++ bs) world a
        rw [hg] at hrest
        obtain ⟨bs', hseen', -⟩ := hrest
        refine ⟨bs ++ bs', by rw [hseen', List.append_assoc], ?_⟩
        rw [follow_append, hk]
        rfl
    | some k =>
      have hrest := hfg k.1 k.2 (seen ++ bs) world a
      generalize g (⟨seen ++ bs, world⟩, a) = z at hrest ⊢
      cases z with
      | none => exact hrest
      | some r =>
        obtain ⟨bs', hseen', hf⟩ := hrest
        refine ⟨bs ++ bs', by rw [hseen', List.append_assoc], ?_⟩
        rw [follow_append, hk]
        exact hf

theorem bind_run {x : Option (Run σ)} {y : Option (Run (List Boundary))}
    {f : Run σ → Option (Run σ × β)} {g : Run (List Boundary) → Option (Run (List Boundary) × β)}
    (h : obs.Follows s o seen (x.map fun run => (run, ())) (y.map fun run => (run, ())))
    (hfg : ∀ s o seen world, obs.Follows s o seen (f ⟨s, world⟩) (g ⟨seen, world⟩)) :
    obs.Follows s o seen (x.bind f) (y.bind g) := by
  have hb := h.bind (f := fun r => f r.1) (g := fun r => g r.1)
    fun s o seen world _ => hfg s o seen world
  rwa [Option.bind_map, Option.bind_map] at hb

/-- A boundary is shown first. -/
theorem shown {b : Boundary} {x : σ → ω → Option (Run σ × α)}
    {y : Option (Run (List Boundary) × α)}
    (h : ∀ s o, obs.Follows s o (seen ++ [b]) (x s o) y) :
    obs.Follows s o seen
      (match obs.observe s (if b.first then obs.fresh else o) b.world b.worker with
        | Option.none => Option.none
        | some (s, o) => x s o) y := by
  cases hk : obs.observe s (if b.first then obs.fresh else o) b.world b.worker with
  | none =>
    cases y with
    | none => exact rfl
    | some r =>
      -- it is held up here, wherever the rest would have led
      obtain ⟨bs, hseen, -⟩ := h s o
      refine ⟨b :: bs, by rw [hseen, List.append_assoc]; rfl, ?_⟩
      rw [follow, hk]
      rfl
  | some k =>
    have hrest := h k.1 k.2
    cases y with
    | none => exact hrest
    | some r =>
      obtain ⟨bs, hseen, hx⟩ := hrest
      refine ⟨b :: bs, by rw [hseen, List.append_assoc]; rfl, ?_⟩
      rw [follow, hk]
      exact hx

/-- Without an observer a run is what has been written down of it, less the boundaries. -/
theorem idle_eq {x : Option (Run Unit × α)} {y : Option (Run (List Boundary) × α)}
    (h : idle.Follows () () seen x y) : x = y.map fun r => (⟨(), r.1.world⟩, r.2) := by
  cases y with
  | none => exact h
  | some r =>
    obtain ⟨bs, -, hx⟩ := h
    rw [hx, follow_idle]
    rfl

end Follows

end Observer

namespace Environment

open Observer (trail Follows)

variable {env : Environment} {obs : Observer σ ω} {limit : Nat} {s : σ} {o : ω}
  {seen : List Boundary} {world : World}

/-- A worker: what it is shown first at its first boundary, and goes on with, is the observer's. -/
theorem runWorker_follows (first : Bool) (w : Worker) :
    obs.Follows s o seen
      (env.runWorker obs limit ⟨s, world⟩ (if first then obs.fresh else o) w)
      (env.runWorker trail limit ⟨seen, world⟩ first w) := by
  induction limit generalizing s o seen world first w with
  | zero => exact .none
  | succ limit ih =>
    unfold runWorker
    refine Follows.shown (b := ⟨first, world, w⟩) fun s o => ?_
    dsimp only
    split
    · exact .done _ _
    · exact ih false _

theorem runWaiting_cons {workers : Nat} {run : Run σ} {w : Worker} {waiting : List Worker}
    (hw : run.world.waiting = w :: waiting) :
    env.runWaiting obs limit (workers + 1) run =
      (env.runWorker obs limit ⟨run.seen, { run.world with waiting }⟩ obs.fresh w).bind fun r =>
        env.runWaiting obs limit workers ⟨r.1.seen, r.1.world.complete w.info r.2⟩ := by
  rw [runWaiting, hw]
  dsimp only
  cases env.runWorker obs limit ⟨run.seen, { run.world with waiting }⟩ obs.fresh w <;> rfl

/-- Workers that wait: each comes to a first boundary of its own. -/
theorem runWaiting_follows (workers : Nat) :
    obs.Follows s o seen
      ((env.runWaiting obs limit workers ⟨s, world⟩).map fun run => (run, ()))
      ((env.runWaiting trail limit workers ⟨seen, world⟩).map fun run => (run, ())) := by
  induction workers generalizing s o seen world with
  | zero => exact .none
  | succ workers ih =>
    cases hw : world.waiting with
    | nil =>
      simp only [runWaiting, hw]
      exact .done _ _
    | cons w waiting =>
      rw [runWaiting_cons hw, runWaiting_cons hw, Option.map_bind, Option.map_bind]
      exact (runWorker_follows true w).bind fun s o seen world outcome => ih

/-- A function with all its workers. -/
theorem runFunction_follows (id : FunctionId) (info : FunctionInfo) (args : List (Bank × Value)) :
    obs.Follows s o seen (env.runFunction obs limit ⟨s, world⟩ id info args)
      (env.runFunction trail limit ⟨seen, world⟩ id info args) := by
  unfold runFunction
  dsimp only
  cases (Frame.start id info.defaultWorker).bind world.store.heap args with
  | error e => exact .done _ _
  | ok frame =>
    dsimp only
    generalize world.scheduler.register id info.name info.defaultWorker.name = reg
    cases World.spawn { world with scheduler := reg.1 } id info args with
    | error e => exact .done _ _
    | ok world =>
      refine (runWorker_follows true _).bind fun s o seen world outcome => ?_
      refine (runWaiting_follows limit).bind_run fun s o seen world => ?_
      cases world.scheduler.join? with
      | none => exact .none
      | some joined => exact .done _ _

theorem runInits_cons {run : Run σ} {package : PackageInfo} {rest : List PackageInfo}
    {id : FunctionId} {info : FunctionInfo} (hi : package.initFunction = some id)
    (hf : env.program.function? id = some info) :
    env.runInits obs limit run (package :: rest) =
      (env.runFunction obs limit run id info []).bind fun r =>
        match r.2 with
        | .error e => some (r.1, .error e)
        | .ok _ => env.runInits obs limit r.1 rest := by
  rw [runInits, hi]
  dsimp only
  rw [hf]
  dsimp only
  cases env.runFunction obs limit run id info [] with
  | none => rfl
  | some r =>
    obtain ⟨run', result⟩ := r
    cases result <;> rfl

/-- Init functions. -/
theorem runInits_follows (packages : List PackageInfo) :
    obs.Follows s o seen (env.runInits obs limit ⟨s, world⟩ packages)
      (env.runInits trail limit ⟨seen, world⟩ packages) := by
  induction packages generalizing s o seen world with
  | nil => exact .done _ _
  | cons package rest ih =>
    cases hi : package.initFunction with
    | none =>
      rw [runInits, runInits, hi]
      exact ih
    | some id =>
      cases hf : env.program.function? id with
      | none =>
        simp only [runInits, hi, hf]
        exact .done _ _
      | some info =>
        rw [runInits_cons hi hf, runInits_cons hi hf]
        refine (runFunction_follows id info []).bind fun s o seen world result => ?_
        cases result with
        | error e => exact .done _ _
        | ok values => exact ih

/-- **The whole program.** -/
theorem runPackages_follows (id : FunctionId) (info : FunctionInfo) (args : List String) :
    obs.Follows s o seen (env.runPackages obs limit ⟨s, world⟩ id info args)
      (env.runPackages trail limit ⟨seen, world⟩ id info args) := by
  unfold runPackages
  refine (runInits_follows env.program.packages).bind fun s o seen world inits => ?_
  cases inits with
  | error e => exact .done _ _
  | ok _ =>
    dsimp only
    split
    · exact runFunction_follows id info []
    · cases ArrayObject.ofStrings args with
      | error e => exact .done _ _
      | ok array => exact runFunction_follows id info _

/-- The boundaries of a run of the program, the store that it leaves and its result. -/
def visits (env : Environment) (limit : Nat) (store : Store) (args : List String) :
    Option (List Boundary × Store × Except RunError (List Value)) :=
  match env.program.mainFunction? with
  | none => some ([], store, .error (.mainNotFound env.program.entryPackage))
  | some (id, info) =>
      (env.runPackages trail limit ⟨[], .start store []⟩ id info args).map fun r =>
        (r.1.seen, r.1.world.store, r.2)

theorem runMain_eq_visits (limit : Nat) (store : Store) (args : List String) :
    env.runMain limit store args = (env.visits limit store args).map Prod.snd := by
  unfold runMain visits
  cases env.program.mainFunction? with
  | none => rfl
  | some main =>
    obtain ⟨id, info⟩ := main
    have hwatched : Observer.idle.Follows () () []
        (env.runPackages .idle limit ⟨(), .start store []⟩ id info args)
        (env.runPackages trail limit ⟨[], .start store []⟩ id info args) :=
      runPackages_follows id info args
    dsimp only
    rw [hwatched.idle_eq]
    cases env.runPackages trail limit ⟨[], .start store []⟩ id info args <;> rfl

end Environment

end RegisterMachine
