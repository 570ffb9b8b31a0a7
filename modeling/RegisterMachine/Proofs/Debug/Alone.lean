import RegisterMachine.Proofs.Debug.Stages
import RegisterMachine.Proofs.Machine.Watching

/-!
# Programs without named workers

In a program none of whose functions has named workers there is never more than one worker, so nothing is
left open about a run but what the session and the client do, and that has no part in it. Every move of
the program is the next one of the run without a session: `Remains` says at each point of a debugged run
what is left to do of the other, and every move of a debugged run does the next piece of it.

Runs without a session have a limit on their steps, and the pieces are compared at all limits that are
large enough for what has been done.
-/

namespace RegisterMachine

/-- No function of the program has named workers. -/
def Program.Solitary (p : Program) : Prop := ∀ info ∈ p.functions, info.workers = []

namespace Program.Solitary

variable {p : Program} {id : FunctionId} {info : FunctionInfo}

theorem of_function? (h : p.Solitary) (hf : p.function? id = some info) : info.workers = [] :=
  h info (Array.mem_of_getElem? hf)

theorem of_mainFunction? (h : p.Solitary) (hm : p.mainFunction? = some (id, info)) :
    info.workers = [] := by
  unfold mainFunction? find? at hm
  obtain ⟨i, -, hm⟩ := Option.bind_eq_some_iff.mp hm
  obtain ⟨f, hf, hm⟩ := Option.bind_eq_some_iff.mp hm
  cases hm
  exact h info (Array.mem_of_getElem? hf)

end Program.Solitary

theorem World.spawn_nobody (world : World) (id : FunctionId) {info : FunctionInfo}
    (args : List (Bank × Value)) (h : info.workers = []) :
    world.spawn id info args = .ok world := by
  unfold spawn
  rw [h]
  rfl

namespace Environment

variable {env : Environment}

/-- A step of a worker that is alone reaches no further than the store. -/
theorem step_alone (hp : env.program.Solitary) (world : World) (w : Worker) :
    ∃ store, (env.step world w).1 = { world with store } := by
  rcases env.step_cases world w with ⟨id, info, handed, hc, hs⟩ | ⟨-, hs⟩
  · obtain ⟨hf, -⟩ := calling?_of_called? hc
    rw [World.spawn_nobody world id handed (hp.of_function? hf)] at hs
    injection hs with hs
    exact ⟨world.store, hs.symm⟩
  · exact hs

theorem runWorker_idle (env : Environment) (n : Nat) (world : World) (w : Worker) :
    env.runWorker .idle (n + 1) ⟨(), world⟩ () w =
      if (env.step world w).2.progress.isFinal then
        some (⟨(), (env.step world w).1⟩, (env.step world w).2.progress.outcome)
      else env.runWorker .idle n ⟨(), (env.step world w).1⟩ () (env.step world w).2 := rfl

/-! ## What is left to do -/

/-- What is left of a function when its default worker has ended. -/
def settle (env : Environment) (limit : Nat) (world : World) (outcome : Outcome) :
    Option (World × Except RunError (List Value)) :=
  (env.runWaiting .idle limit limit ⟨(), world⟩).bind fun waited =>
    waited.world.scheduler.join?.bind fun joined =>
      some ({ waited.world with kept := [] }, conclude outcome joined)

/-- What is left of the program when the init functions of these packages are to be run, and then
main. -/
def remainder (env : Environment) (args : List String) (limit : Nat) (world : World)
    (todo : List PackageInfo) : Option (Store × Except RunError (List Value)) :=
  (env.runInits .idle limit ⟨(), world⟩ todo).bind fun r =>
    match r.2 with
    | .error e => some (r.1.world.store, .error e)
    | .ok _ =>
        env.program.mainFunction?.bind fun main =>
          match r.1.world.handMain main.2 args with
          | .error e => some (r.1.world.store, .error (.faulted ⟨e, []⟩))
          | .ok (world, handed) =>
              (env.runFunction .idle limit ⟨(), world⟩ main.1 main.2 handed).map fun r =>
                (r.1.world.store, r.2)

/-- What is left of the program when a function has come to its end. -/
def goOn (env : Environment) (args : List String) (limit : Nat)
    (after : Option (List PackageInfo)) (world : World) (result : Except RunError (List Value)) :
    Option (Store × Except RunError (List Value)) :=
  match after, result with
  | none, result => some (world.store, result)
  | some _, .error e => some (world.store, .error e)
  | some todo, .ok _ => env.remainder args limit world todo

theorem settle_of_nobody {limit : Nat} {world : World} {outcome : Outcome}
    (h : world.waiting = []) :
    env.settle (limit + 1) world outcome =
      world.scheduler.join?.bind fun joined =>
        some ({ world with kept := [] }, conclude outcome joined) := by
  have hwaited : env.runWaiting .idle (limit + 1) (limit + 1) ⟨(), world⟩ = some ⟨(), world⟩ := by
    rw [runWaiting]
    simp only [h]
  unfold settle
  rw [hwaited]
  rfl

variable {args : List String} {limit : Nat} {world : World} {store : Store}
  {todo : List PackageInfo} {package : PackageInfo} {id : FunctionId} {info : FunctionInfo}

theorem runMain_eq_remainder (hm : env.program.mainFunction? = some (id, info)) :
    env.runMain limit store args
      = env.remainder args limit (.start store []) env.program.packages := by
  unfold runMain remainder
  rw [hm]
  dsimp only
  rw [runPackages_eq]
  cases env.runInits .idle limit ⟨(), .start store []⟩ env.program.packages with
  | none => rfl
  | some r =>
    obtain ⟨run, inits⟩ := r
    cases inits with
    | error e => rfl
    | ok _ =>
      simp only [Option.bind_eq_bind, Option.bind_some]
      cases run.world.handMain info args with
      | error e => rfl
      | ok handed =>
        dsimp only
        cases env.runFunction .idle limit ⟨run.seen, handed.1⟩ id info handed.2 <;> rfl

theorem remainder_nil (hm : env.program.mainFunction? = some (id, info)) :
    env.remainder args limit world [] =
      match world.handMain info args with
      | .error e => some (world.store, .error (.faulted ⟨e, []⟩))
      | .ok (world, handed) =>
          (env.runFunction .idle limit ⟨(), world⟩ id info handed).bind fun r =>
            env.goOn args limit none r.1.world r.2 := by
  unfold remainder
  simp only [runInits, hm, Option.bind_some]
  cases world.handMain info args with
  | error e => rfl
  | ok handed =>
    dsimp only
    cases env.runFunction .idle limit ⟨(), handed.1⟩ id info handed.2 <;> rfl

theorem remainder_skip (hi : package.initFunction = none) :
    env.remainder args limit world (package :: todo) = env.remainder args limit world todo := by
  unfold remainder
  rw [runInits, hi]

theorem remainder_missing (hi : package.initFunction = some id)
    (hf : env.program.function? id = none) :
    env.remainder args limit world (package :: todo)
      = some (world.store, .error (.functionNotFound id.render)) := by
  simp only [remainder, runInits, hi, hf]
  rfl

theorem remainder_init (hi : package.initFunction = some id)
    (hf : env.program.function? id = some info) :
    env.remainder args limit world (package :: todo) =
      (env.runFunction .idle limit ⟨(), world⟩ id info []).bind fun r =>
        env.goOn args limit (some todo) r.1.world r.2 := by
  unfold remainder
  rw [runInits_cons hi hf]
  cases env.runFunction .idle limit ⟨(), world⟩ id info [] with
  | none => rfl
  | some r =>
    obtain ⟨run, result⟩ := r
    cases result <;> rfl

end Environment

namespace Debug.Debuggee

/-- What is left of the run without a session, at all limits from some on. -/
inductive Remains (env : Environment) (args : List String) (store : Store) (inv : Invocation) :
    Control → Prop
  | opening (h : inv.world = .start store []) : Remains env args store inv .opening
  | handshake (h : inv.world = .start store []) (hm : env.program.mainFunction? ≠ none) :
      Remains env args store inv .handshake
  | refused (e : SessionError) : Remains env args store inv (.finished (.error (.session e)))
  | between {todo : List PackageInfo} {j : Nat} (hm : env.program.mainFunction? ≠ none)
      (hw : inv.world.waiting = []) (hk : inv.world.kept = [])
      (h : ∀ n, env.runMain (n + j) store args = env.remainder args (n + j) inv.world todo) :
      Remains env args store inv (.between todo)
  /-- The worker has taken some steps; it may take `i` more than `n`. -/
  | running {after : Option (List PackageInfo)} {w : Worker} {i j : Nat}
      (hm : env.program.mainFunction? ≠ none) (hw : inv.world.waiting = [w])
      (hid : w.info.id = inv.main) (he : inv.ended = [])
      (h : ∀ n, env.runMain (n + j) store args =
        (env.runWorker .idle (n + i) ⟨(), { inv.world with waiting := [] }⟩ () w).bind fun r =>
          (env.settle (n + j) ((r.1.world.complete w.info r.2).hold r.2.values) r.2).bind fun r =>
            env.goOn args (n + j) after r.1 r.2) :
      Remains env args store inv (.running after)
  | ended {after : Option (List PackageInfo)} {me : WorkerInstance} {outcome : Outcome} {j : Nat}
      (hm : env.program.mainFunction? ≠ none) (hw : inv.world.waiting = [])
      (he : inv.ended = [(me, outcome)])
      (h : ∀ n, env.runMain (n + j) store args =
        (env.settle (n + j) inv.world outcome).bind fun r => env.goOn args (n + j) after r.1 r.2) :
      Remains env args store inv (.running after)
  | closing {result : Except RunError (List Value)} {j : Nat}
      (h : ∀ n, env.runMain (n + j) store args = some (inv.world.store, result)) :
      Remains env args store inv (.closing result)
  | finished {result : Except RunError (List Value)} {j : Nat}
      (h : ∀ n, env.runMain (n + j) store args = some (inv.world.store, result)) :
      Remains env args store inv (.finished result)

namespace Remains

variable {env : Environment} {args : List String} {store : Store} {d d' : Debuggee}
  {log log' : List Happening}

/-- A function is set up. -/
theorem launch {world : World} {id : FunctionId} {info : FunctionInfo}
    {handed : List (Bank × Value)} {j : Nat} (hm : env.program.mainFunction? ≠ none)
    (hinfo : info.workers = []) (hw : world.waiting = []) (hk : world.kept = [])
    (after : Option (List PackageInfo))
    (h : ∀ n, env.runMain (n + j) store args =
      (env.runFunction .idle (n + j) ⟨(), world⟩ id info handed).bind fun r =>
        env.goOn args (n + j) after r.1.world r.2) (d : Debuggee) :
    Remains env args store (d.launch world id info handed after).inv
      (d.launch world id info handed after).control := by
  unfold Debuggee.launch
  cases hl : world.launch id info handed with
  | error e =>
    refine .closing (j := j) fun n => ?_
    rw [h n, Environment.runFunction_of_launch_error hl]
    cases after <;> rfl
  | ok inv =>
    obtain ⟨frame, scheduler, me, world', -, -, hs, hinv⟩ := World.launch_eq_ok hl
    rw [World.spawn_nobody _ _ _ hinfo] at hs
    cases hs
    have hwaiting : inv.world.waiting = [.start me frame] := by
      rw [hinv, hw]
    refine .running (i := j) (j := j) hm hwaiting ?_ ?_ fun n => ?_
    · rw [hinv]
      rfl
    · rw [hinv]
    · rw [h n, Environment.runFunction_of_launch hl hwaiting, Option.bind_assoc]
      refine Option.bind_congr fun r _ => ?_
      unfold Environment.settle
      rw [hk]
      simp only [Option.bind_assoc, Option.bind_some]

/-- The worker takes a step. -/
theorem step (hp : env.program.Solitary) {before after : List Worker} {w : Worker}
    (h : Remains env args store d.inv d.control)
    (hstage : Stage env.program store log d.inv d.control)
    (hw : d.inv.world.waiting = before ++ w :: after) :
    Remains env args store
      (d.inv.takeBack (env.step { d.inv.world with waiting := before ++ after } w).1
        (env.step { d.inv.world with waiting := before ++ after } w).2) d.control := by
  obtain ⟨hm, -, after', -, -, hc, -⟩ := hstage.running_of_waiting (w := w) (by simp [hw])
  rw [hc] at h ⊢
  cases h with
  | ended hm hw' he h => simp [hw'] at hw
  | @running _ v i j hm hw' hid he h =>
    obtain ⟨rfl, rfl, rfl⟩ : before = [] ∧ v = w ∧ after = [] := by
      rw [hw', eq_comm, List.append_eq_singleton_iff] at hw
      simpa [eq_comm] using hw
    -- it may take at least one step more
    obtain ⟨i, j, h⟩ : ∃ i j, ∀ n, env.runMain (n + j) store args =
        (env.runWorker .idle (n + i + 1) ⟨(), { d.inv.world with waiting := [] }⟩ () v).bind
          fun r => (env.settle (n + j)
            ((r.1.world.complete v.info r.2).hold r.2.values) r.2).bind fun r =>
              env.goOn args (n + j) after' r.1 r.2 := by
      cases i with
      | zero =>
        refine ⟨0, j + 1, fun n => ?_⟩
        have hn := h (n + 1)
        rw [Nat.add_right_comm] at hn
        exact hn
      | succ i => exact ⟨i, j, h⟩
    obtain ⟨store', hstore⟩ := env.step_alone hp { d.inv.world with waiting := [] } v
    have hinfo := env.step_info { d.inv.world with waiting := [] } v
    simp only [Environment.runWorker_idle] at h
    show Remains env args store (d.inv.takeBack
      (env.step { d.inv.world with waiting := [] } v).1
      (env.step { d.inv.world with waiting := [] } v).2) _
    generalize env.step { d.inv.world with waiting := [] } v = r at h hstore hinfo ⊢
    have hnobody : r.1.waiting = [] := by rw [hstore]
    by_cases hf : r.2.progress.isFinal = true
    · simp only [hf, if_true, Option.bind_some] at h
      rw [Invocation.takeBack_main hf (by rw [hinfo, hid]), he, List.nil_append]
      refine .ended hm hnobody rfl (j := j) fun n => ?_
      rw [h n, hinfo]
    · simp only [hf] at h
      rw [Invocation.takeBack_of_running (by simpa using hf)]
      refine .running hm (w := r.2) (i := i) (j := j) ?_ ?_ he fun n => ?_
      · simp [hnobody]
      · rw [hinfo, hid]
      · have hsame : ({ r.1 with waiting := [] } : World) = r.1 := by rw [hstore]
        rw [h n, hinfo]
        dsimp only
        rw [hsame]
        rfl

/-- **Every move leaves what is left of the run without a session.** -/
theorem does (hp : env.program.Solitary) (h : Remains env args store d.inv d.control)
    (hstage : Stage env.program store log d.inv d.control) (hd : Does env args d log' d') :
    Remains env args store d'.inv d'.control := by
  cases hd with
  | attend ha =>
    obtain ⟨hinv, hcontrol⟩ := ha.apart
    rw [hinv, hcontrol]
    exact h
  | step hw hn => exact h.step hp hstage hw
  | noMain hc hm =>
    rw [hc] at h
    cases h with
    | opening h =>
      refine .finished (j := 0) fun n => ?_
      simp only [Environment.runMain, hm, h]
      rfl
  | greet hc hm hl =>
    rw [hc] at h
    cases h with
    | opening h => exact .handshake h (by simp [hm])
  | ungreeted hc hm hl => exact .refused _
  | ignore hc ht hs =>
    show Remains _ _ _ _ d.control
    exact h
  | begin hc ht =>
    rw [hc] at h
    cases h with
    | handshake h hm =>
      obtain ⟨main, hmain⟩ := Option.ne_none_iff_exists'.mp hm
      refine .between (j := 0) hm (by rw [h]; rfl) (by rw [h]; rfl) fun n => ?_
      rw [h]
      exact Environment.runMain_eq_remainder hmain
  | disconnected hc hq hs => exact .refused _
  | timeout hc => exact .refused _
  | skip hc hi =>
    rw [hc] at h
    cases h with
    | between hm hw hk h =>
      exact .between hm hw hk fun n => by rw [h n, Environment.remainder_skip hi]
  | missing hc hi hf =>
    rw [hc] at h
    cases h with
    | between hm hw hk h =>
      exact .closing fun n => by rw [h n, Environment.remainder_missing hi hf]
  | init hc hi hf =>
    rw [hc] at h
    cases h with
    | @between _ j hm hw hk h =>
      refine launch (j := j) hm (hp.of_function? hf) hw hk _ (fun n => ?_) d
      rw [h n, Environment.remainder_init hi hf]
  | overfull hc hm' hh =>
    rw [hc] at h
    cases h with
    | between hm hw hk h =>
      exact .closing fun n => by rw [h n, Environment.remainder_nil hm', hh]
  | main hc hm' hh =>
    rw [hc] at h
    cases h with
    | between hm hw hk h =>
      have hrest (n : Nat) := h n
      simp only [Environment.remainder_nil hm', hh] at hrest
      obtain ⟨store', rfl⟩ := World.handMain_store hh
      refine launch hm (hp.of_mainFunction? hm') ?_ ?_ _ hrest d
      · exact hw
      · exact hk
  | @join after me outcome joined hc hme ho hj =>
    rw [hc] at h
    cases h with
    | running hm hw hid he h =>
      rw [he] at ho
      exact absurd ho List.not_mem_nil
    | @ended _ me' outcome' j hm hw he h =>
      rw [he, List.mem_singleton, Prod.mk.injEq] at ho
      obtain ⟨rfl, rfl⟩ := ho
      have hrest (n : Nat) := h (n + 1)
      simp only [Nat.add_right_comm _ 1 j, Environment.settle_of_nobody hw, hj,
        Option.bind_some] at hrest
      cases after with
      | none => exact .closing (j := j + 1) hrest
      | some todo =>
        cases hresult : Environment.conclude outcome joined with
        | error e =>
          rw [hresult] at hrest
          exact .closing (j := j + 1) hrest
        | ok values =>
          rw [hresult] at hrest
          exact .between (j := j + 1) hm hw rfl hrest
  | exit hc =>
    rw [hc] at h
    cases h with
    | closing h => exact .finished h

theorem course (hp : env.program.Solitary) {s : Session}
    (hc : Course env args (.start s store) log d) : Remains env args store d.inv d.control := by
  induction hc with
  | start => exact .opening rfl
  | move hc hm ih => exact ih.does hp (Stage.course hc) hm

end Remains

end Debug.Debuggee

end RegisterMachine
