import RegisterMachine.Native.Strings
import RegisterMachine.Proofs.Checked.Sessions

/-!
# Runs with every check

`Environment.Runs` is a run as it stands: invocations of functions, one after another, the workers of each
taking turns in any order, and the number of instructions that have been executed. What a program does when
it is run leads to such a state (`Environment.LeadsTo.runPackages`).

Every state that a run leads to has what its next step relies on (`Environment.Runs.kept`): nothing but the
operations on arrays changes an array, an iterator is moved by an instruction, and who is at work has been
counted in. So **`Environment.runs_safe`**: whatever comes next in a run, every operation that it uses has a
result, as long as there is memory for the workers and there have been fewer than `2 ^ 63` instructions.
-/

namespace RegisterMachine

/-! ## Native functions -/

/-- The native function leaves a sound heap sound. -/
def Native.KeepsSound (native : Native) : Prop :=
  ∀ info store args, store.heap.Sound → (native info store args).1.heap.Sound

namespace Native

theorem query_keepsSound (f : Heap → List Value → Except NativeError (List Value)) :
    (query f).KeepsSound := fun _ _ _ hs => hs

theorem printLine_keepsSound : printLine.KeepsSound := fun _ _ _ hs => hs

/-- The one function that makes an object. -/
theorem findAllWithRegex_keepsSound (lib : Regex.Library) : (findAllWithRegex lib).KeepsSound := by
  intro info store args hs
  unfold findAllWithRegex
  extract_lets found
  have hfound : Meets (fun x => ∀ a, x = .ok a → a.Sound) (fun _ => True) found := by
    refine Meets.bind_any fun _ => Meets.bind_any fun s => Meets.bind_any fun pattern => ?_
    cases lib.compile pattern with
    | error message => exact fun a ha => nomatch ha
    | ok compiled =>
      dsimp only
      have hstrings := ArrayObject.ofStrings_meets (compiled.findAll s)
      cases hx : ArrayObject.ofStrings (compiled.findAll s) with
      | error e => exact trivial
      | ok a =>
        intro b hb
        cases hb
        exact hstrings.of_ok hx
  generalize found = x at hfound
  cases x with
  | error e => exact hs
  | ok x =>
    cases x with
    | error e => exact hs
    | ok a => exact hs.alloc (hfound.of_ok rfl a rfl)

end Native

theorem Natives.keepSound_of_forall {natives : Natives} (h : ∀ n ∈ natives, n.2.KeepsSound) :
    natives.KeepSound := by
  intro name native hlookup
  obtain ⟨before, after, he, -⟩ := List.lookup_eq_some_iff.mp hlookup
  refine h (name, native) ?_
  rw [he]
  exact List.mem_append_right _ List.mem_cons_self

theorem Natives.keepSound_withLibrary (lib : Regex.Library) : (withLibrary lib).KeepSound := by
  refine keepSound_of_forall ?_
  simp only [withLibrary, List.mem_cons, List.not_mem_nil, or_false, forall_eq_or_imp, forall_eq]
  exact ⟨Native.query_keepsSound _, Native.findAllWithRegex_keepsSound lib, Native.query_keepsSound _,
    Native.query_keepsSound _, Native.query_keepsSound _, Native.query_keepsSound _,
    Native.printLine_keepsSound⟩

/-! ## Runs -/

/-- A run: how many instructions have been executed, and where that has led. -/
inductive Environment.Runs (env : Environment) : Nat → Invocation → Prop
  | start {store : Store} {kept : List Value} (hs : store.heap.Sound) :
      Runs env 0 ⟨.start store kept, 0, []⟩
  /-- While nobody is at work, whoever started the run may make and change objects and hold others. -/
  | between {n : Nat} {inv : Invocation} {store : Store} {kept : List Value} (h : Runs env n inv)
      (hw : inv.world.waiting = []) (hs : inv.world.store.heap.Sound → store.heap.Sound) :
      Runs env n { inv with world := { inv.world with store, kept } }
  /-- The next function is set up. -/
  | launch {n : Nat} {inv inv' : Invocation} {id : FunctionId} {info : FunctionInfo}
      {args : List (Bank × Value)} (h : Runs env n inv) (hw : inv.world.waiting = [])
      (hl : inv.world.launch id info args = .ok inv') : Runs env n inv'
  /-- The next function cannot be set up. -/
  | unlaunched {n : Nat} {inv : Invocation} {id : FunctionId} {info : FunctionInfo}
      {args : List (Bank × Value)} {e : ExecutionError} (h : Runs env n inv)
      (hw : inv.world.waiting = []) (hl : inv.world.launch id info args = .error e) :
      Runs env n { inv with world := inv.world.unlaunched id info args e }
  /-- One of the workers takes a step. -/
  | turn {n : Nat} {inv : Invocation} {before after : List Worker} {w : Worker}
      (h : Runs env n inv) (hw : inv.world.waiting = before ++ w :: after) :
      Runs env (n + env.executes w)
        (inv.takeBack (env.step { inv.world with waiting := before ++ after } w).1
          (env.step { inv.world with waiting := before ++ after } w).2)

/-! ## Books -/

namespace World

/-- The books are those of some history. -/
def Booked (world : World) : Prop := ∃ history, world.scheduler = Scheduler.after history

namespace Booked

variable {world world' : World}

theorem enter (h : world.Booked) {e : Scheduler.Entry}
    (he : world'.scheduler = world.scheduler.enter e) : world'.Booked := by
  obtain ⟨history, hh⟩ := h
  exact ⟨history ++ [e], by rw [he, hh, Scheduler.after_concat]⟩

theorem register (h : world.Booked) (function : FunctionId) (functionName workerName : String) :
    Booked { world with
      scheduler := (world.scheduler.register function functionName workerName).1 } :=
  h.enter (e := .register function functionName workerName) rfl

theorem complete (h : world.Booked) (info : WorkerInstance) (outcome : Outcome) :
    (world.complete info outcome).Booked :=
  h.enter (e := .complete info.id outcome) rfl

theorem spawn (h : world.Booked) {id : FunctionId} {info : FunctionInfo}
    {args : List (Bank × Value)} (hs : world.spawn id info args = .ok world') : world'.Booked := by
  obtain ⟨frames, -, rfl⟩ := World.spawn_eq_ok hs
  exact List.foldlRecOn frames _ h fun w hw frame _ =>
    hw.register frame.function info.name frame.worker

theorem step (h : world.Booked) (env : Environment) (w : Worker) : (env.step world w).1.Booked := by
  rcases env.step_cases world w with ⟨id, info, handed, -, hs⟩ | ⟨-, store, hs⟩
  · exact h.spawn hs
  · rw [hs]
    exact h

theorem unlaunched (h : world.Booked) (id : FunctionId) (info : FunctionInfo)
    (args : List (Bank × Value)) (e : ExecutionError) :
    (world.unlaunched id info args e).Booked := by
  unfold World.unlaunched
  split
  · exact h
  · exact (h.register id info.name info.defaultWorker.name).complete _ _

/-- The counter counts who is at work. -/
theorem inFlight_eq (h : world.Booked) :
    world.scheduler.inFlight = world.scheduler.live.length := by
  obtain ⟨history, hh⟩ := h
  rw [hh]
  exact (Scheduler.agrees_after history).inFlight

end Booked

theorem store_unlaunched (world : World) (id : FunctionId) (info : FunctionInfo)
    (args : List (Bank × Value)) (e : ExecutionError) :
    (world.unlaunched id info args e).store = world.store := by
  unfold unlaunched
  split <;> rfl

end World

/-! ## What a run keeps -/

/-- After `n` instructions: the heap is sound, no iterator has got further than to `n`, and the books
are kept. -/
structure Invocation.Kept (n : Nat) (inv : Invocation) : Prop where
  heap : inv.world.store.heap.Sound
  workers : ∀ w ∈ inv.world.waiting, w.stack.Within n
  books : inv.world.Booked

namespace Invocation.Kept

variable {env : Environment} {inv inv' : Invocation} {n : Nat}

theorem launch {id : FunctionId} {info : FunctionInfo} {args : List (Bank × Value)}
    (h : inv.Kept n) (hw : inv.world.waiting = [])
    (hl : inv.world.launch id info args = .ok inv') : inv'.Kept n := by
  obtain ⟨frame, scheduler, me, world, -, hr, hs, rfl⟩ := World.launch_eq_ok hl
  obtain ⟨hstore, -⟩ := World.spawn_leaves hs
  have hbooks : ({ inv.world with scheduler } : World).Booked := by
    have hregister := h.books.register id info.name info.defaultWorker.name
    rwa [hr] at hregister
  have hspawned : world.Booked := hbooks.spawn hs
  refine ⟨?_, fun w hm => ?_, hspawned⟩
  · show world.store.heap.Sound
    rw [hstore]
    exact h.heap
  · -- nobody waits but workers that have not run yet
    rcases ((inv.world.launch_meets id info args).of_ok hl).2.2 w hm with hold | ⟨wi, -, hfresh⟩
    · rw [hw] at hold
      exact absurd hold List.not_mem_nil
    · exact hfresh.within

/-- **A turn keeps what turns rely on.** -/
theorem turn (hnatives : env.natives.KeepSound) {before after : List Worker} {w : Worker}
    (hn : n + env.executes w < 2 ^ 63) (h : inv.Kept n)
    (hw : inv.world.waiting = before ++ w :: after) :
    (inv.takeBack (env.step { inv.world with waiting := before ++ after } w).1
      (env.step { inv.world with waiting := before ++ after } w).2).Kept (n + env.executes w) := by
  have hworkers : ∀ v ∈ before ++ w :: after, v.stack.Within n := hw ▸ h.workers
  have hmine := hworkers w (List.mem_append_right _ List.mem_cons_self)
  have hbooked : ({ inv.world with waiting := before ++ after } : World).Booked := h.books
  obtain ⟨started, hstarts, hfresh⟩ :=
    env.step_adds { inv.world with waiting := before ++ after } w
  have hstep := @Environment.step_kept env { inv.world with waiting := before ++ after } n hnatives w
    hn h.heap hmine
  have hbooks := hbooked.step env w
  generalize env.step { inv.world with waiting := before ++ after } w = r at hstep hbooks hstarts
  obtain ⟨world, worker⟩ := r
  obtain ⟨hheap, hstack⟩ := hstep
  have hwaiting : ∀ v ∈ world.waiting, v.stack.Within (n + env.executes w) := by
    intro v hv
    rw [show world.waiting = before ++ after ++ started from hstarts.waiting] at hv
    rcases List.mem_append.mp hv with hv | hv
    · refine (hworkers v ?_).mono (Nat.le_add_right _ _)
      rcases List.mem_append.mp hv with hv | hv
      · exact List.mem_append_left _ hv
      · exact List.mem_append_right _ (List.mem_cons_of_mem _ hv)
    · obtain ⟨id, info, -, wi, -, hf⟩ := hfresh v hv
      exact hf.within
  unfold Invocation.takeBack
  split
  · have hdone := hbooks.complete worker.info worker.progress.outcome
    dsimp only
    split <;> exact ⟨hheap, hwaiting, hdone⟩
  · exact ⟨hheap, List.forall_mem_cons.mpr ⟨hstack, hwaiting⟩, hbooks⟩

end Invocation.Kept

namespace Environment

variable {env : Environment} {inv inv' : Invocation} {n : Nat}

/-- **Every state that a run leads to has what its next step relies on.** -/
theorem Runs.kept (hnatives : env.natives.KeepSound) (h : env.Runs n inv) (hn : n < 2 ^ 63) :
    inv.Kept n := by
  induction h with
  | start hs => exact ⟨hs, fun w hw => absurd hw List.not_mem_nil, [], rfl⟩
  | between h hw hs ih => exact ⟨hs (ih hn).heap, (ih hn).workers, (ih hn).books⟩
  | launch h hw hl ih => exact (ih hn).launch hw hl
  | @unlaunched n inv id info args e h hw hl ih =>
    refine ⟨?_, ?_, (ih hn).books.unlaunched id info args e⟩
    · rw [World.store_unlaunched]
      exact (ih hn).heap
    · rw [World.waiting_unlaunched]
      exact (ih hn).workers
  | turn h hw ih => exact (ih (by omega)).turn hnatives hn hw

/-- **Whatever comes next in a run, every operation that it uses has a result.** A run is that of any
program whose code fits into memory, on any arguments and with native functions that keep heaps sound, and
fewer than `2 ^ 63` instructions are executed in it. What can come next is that a worker is shown to a debug
session or takes a step, if the workers that are at work after it are fewer than `2 ^ 63`, which is a matter
of memory; that a function is set up; or that a value is written out or copied. -/
theorem runs_safe (hcode : env.program.code.size < 2 ^ 63) (hdepth : env.maxDepth < 2 ^ 64)
    (hnatives : env.natives.KeepSound) (h : env.Runs n inv) (hn : n < 2 ^ 63) :
    (∀ before w after, inv.world.waiting = before ++ w :: after →
      let world := { inv.world with waiting := before ++ after }
      (∀ client session watch, Debug.gateChecked env.program client session watch world w =
        some (Debug.gate env.program client session watch world w)) ∧
      (n + env.executes w < 2 ^ 63 → (env.step world w).1.scheduler.live.length < 2 ^ 63 →
        env.stepChecked world w = some (env.step world w))) ∧
    (∀ id info args,
      inv.world.scheduler.live.length + (info.defaultWorker :: info.workers).length < 2 ^ 63 →
      (inv.world.launchChecked id info args).run = some (inv.world.launch id info args)) ∧
    (∀ v, inv.world.store.heap.textChecked v = some (inv.world.store.heap.text v)) ∧
    ∀ v, inv.world.store.heap.copyChecked v = some (inv.world.store.heap.copy v) := by
  have hkept := h.kept hnatives hn
  refine ⟨fun before w after hw => ⟨fun client session watch => ?_, fun hnext hmemory => ?_⟩,
    fun id info args hmemory => ?_, hkept.heap.textChecked_eq, hkept.heap.copyChecked_eq⟩
  · exact Debug.gateChecked_eq env.program client session watch _ w
  · have hbooked : ({ inv.world with waiting := before ++ after } : World).Booked := hkept.books
    have hstack := hkept.workers w (hw ▸ List.mem_append_right _ List.mem_cons_self)
    refine env.stepChecked_eq hcode hdepth hnext hkept.heap hstack ?_
    rw [(hbooked.step env w).inFlight_eq]
    omega
  · refine (inv.world.launchChecked_safe id info args ?_).run_eq
    rw [hkept.books.inFlight_eq]
    omega

end Environment

/-! ## Running a program -/

/-- Main is handed an array that is sound. -/
theorem World.handMain_sound {world world' : World} {info : FunctionInfo} {args : List String}
    {handed : List (Bank × Value)} (hh : world.handMain info args = .ok (world', handed))
    (hs : world.store.heap.Sound) : world'.store.heap.Sound := by
  unfold World.handMain at hh
  split at hh
  · cases hh
    exact hs
  · have hstrings := ArrayObject.ofStrings_meets args
    cases ha : ArrayObject.ofStrings args with
    | error e =>
      rw [ha] at hh
      cases hh
    | ok array =>
      rw [ha] at hh
      cases hh
      exact hs.alloc (hstrings.of_ok ha)

namespace Environment

variable {env : Environment} {inv inv' : Invocation} {n : Nat}

/-- Turns go on with a run. -/
theorem Runs.plays (h : env.Runs n inv) (hp : env.Plays inv inv') : ∃ m, env.Runs m inv' := by
  induction hp with
  | refl => exact ⟨n, h⟩
  | tail _ hturn ih =>
    obtain ⟨m, hm⟩ := ih
    obtain ⟨before, w, after, hw, rfl⟩ := hturn
    exact ⟨_, hm.turn hw⟩

/-- Some run leads to the world. -/
def LeadsTo (env : Environment) (world : World) : Prop := ∃ n inv, env.Runs n inv ∧ inv.world = world

section

variable {σ ω : Type} {obs : Observer σ ω} {limit : Nat} {run run' : Run σ} {id : FunctionId}
  {info : FunctionInfo}

/-- While nobody is at work the store may change. -/
theorem LeadsTo.between {world : World} {store : Store} (h : env.LeadsTo world)
    (hw : world.waiting = []) (hs : world.store.heap.Sound → store.heap.Sound) :
    env.LeadsTo { world with store } := by
  obtain ⟨n, inv, h, rfl⟩ := h
  exact ⟨n, _, @Runs.between _ _ _ store inv.world.kept h hw hs, rfl⟩

/-- Running a function goes on with a run. When the function succeeds the next one can follow. -/
theorem LeadsTo.runFunction {args : List (Bank × Value)} {result : Except RunError (List Value)}
    (h : env.LeadsTo run.world) (hidle : run.world.Idle)
    (hr : env.runFunction obs limit run id info args = some (run', result)) :
    env.LeadsTo run'.world ∧ ∀ values, result = .ok values → run'.world.Idle := by
  obtain ⟨n, inv, h, hw⟩ := h
  have hwaiting : inv.world.waiting = [] := hw ▸ hidle.1
  cases hl : run.world.launch id info args with
  | error e =>
    rw [runFunction_of_launch_error hl] at hr
    cases hr
    refine ⟨⟨n, _, .unlaunched h hwaiting (hw ▸ hl), ?_⟩, fun values hv => nomatch hv⟩
    rw [hw]
  | ok inv₀ =>
    rcases runFunction_plays hidle hr with
      ⟨e, he, -⟩ | ⟨inv₁, inv₂, me, outcome, joined, hl', hplays, hdone, -, -, hj, hworld, hres⟩
    · rw [hl] at he
      cases he
    · obtain ⟨m, hm⟩ := (Runs.launch h hwaiting (hw ▸ hl')).plays hplays
      refine ⟨⟨m, _, @Runs.between _ _ _ inv₂.world.store run'.world.kept hm hdone fun hs => hs,
        hworld.symm⟩, fun values hv => ?_⟩
      -- nobody has failed, or the failures would have been the result
      have hnone : inv₂.world.scheduler.failures = [] := by
        unfold Scheduler.join? at hj
        split at hj
        · cases hj
          by_contra hsome
          rw [hv, if_neg (by simpa using hsome)] at hres
          cases outcome <;> cases hres
        · cases hj
      rw [hworld]
      exact ⟨hdone, hnone⟩

/-- So does initialising packages. -/
theorem LeadsTo.runInits {packages : List PackageInfo} {result : Except RunError Unit}
    (h : env.LeadsTo run.world) (hidle : run.world.Idle)
    (hr : env.runInits obs limit run packages = some (run', result)) :
    env.LeadsTo run'.world ∧ ∀ u, result = .ok u → run'.world.Idle := by
  induction packages generalizing run with
  | nil =>
    cases hr
    exact ⟨h, fun _ _ => hidle⟩
  | cons package rest ih =>
    unfold Environment.runInits at hr
    split at hr
    · exact ih h hidle hr
    · split at hr
      · cases hr
        exact ⟨h, fun _ hu => nomatch hu⟩
      · split at hr
        · cases hr
        · rename_i hinit
          cases hr
          exact ⟨(h.runFunction hidle hinit).1, fun _ hu => nomatch hu⟩
        · rename_i values hinit
          obtain ⟨hnext, hidle'⟩ := h.runFunction hidle hinit
          exact ih hnext (hidle' values rfl) hr

/-- **What a program does when it is run is a run.** -/
theorem LeadsTo.runPackages {args : List String} {result : Except RunError (List Value)}
    (h : env.LeadsTo run.world) (hidle : run.world.Idle)
    (hr : env.runPackages obs limit run id info args = some (run', result)) :
    env.LeadsTo run'.world := by
  rw [runPackages_eq] at hr
  cases hinits : env.runInits obs limit run env.program.packages with
  | none =>
    rw [hinits] at hr
    cases hr
  | some r =>
    obtain ⟨run₁, inits⟩ := r
    obtain ⟨hreached, hidle₁⟩ := h.runInits hidle hinits
    rw [hinits, Option.bind_some] at hr
    cases inits with
    | error e =>
      cases hr
      exact hreached
    | ok u =>
      dsimp only at hr
      cases hh : run₁.world.handMain info args with
      | error e =>
        rw [hh] at hr
        cases hr
        exact hreached
      | ok r =>
        obtain ⟨world, handed⟩ := r
        obtain ⟨store, rfl⟩ := World.handMain_store hh
        rw [hh] at hr
        have hmain : env.LeadsTo (⟨run₁.seen, { run₁.world with store }⟩ : Run σ).world :=
          hreached.between (hidle₁ u rfl).1 (World.handMain_sound hh)
        exact (hmain.runFunction (hidle₁ u rfl) hr).1

end

end Environment

/-! ## A run to look at

A main function that makes a range, an iterator over it, and takes the first element. -/

namespace Program

def countingInfo : FunctionInfo where
  name := "main"
  package := "main"
  defaultWorker := ⟨defaultWorkerName, 0, { ints := 4, refs := 1, iters := 1 }⟩
  workers := []

def counting : Program where
  entryPackage := "main"
  packages := []
  functions := #[countingInfo]
  constants := #[]
  code :=
    #[.intConst ⟨1⟩ 2, .newRange ⟨1⟩ ⟨1⟩ ⟨0⟩, .iterNew ⟨0⟩ ⟨0⟩,
      .iterNext ⟨0⟩ [⟨.int, 2⟩, ⟨.int, 3⟩], .ret [⟨.int, 2⟩, ⟨.int, 3⟩]]
  lines := []

end Program

def Environment.counting : Environment := ⟨.counting, .builtin, 4⟩

/-- Three instructions have been executed, and the fourth takes the only element of the range. -/
theorem Environment.counting_safe :
    ∃ inv w, counting.Runs 3 inv ∧ inv.world.waiting = [w] ∧
      counting.stepChecked { inv.world with waiting := [] } w =
        some (counting.step { inv.world with waiting := [] } w) ∧
      ((counting.step { inv.world with waiting := [] } w).2.stack.map fun f => f.regs.ints) =
        [#[0, 2, 0, 2]] := by
  have h0 : counting.Runs 0 _ := .launch (.start Heap.sound_empty) rfl
    (rfl : (World.start .empty []).launch ⟨0⟩ Program.countingInfo [] = .ok _)
  have h1 := @Runs.turn _ _ _ [] [] _ h0 rfl
  have h2 := @Runs.turn _ _ _ [] [] _ h1 rfl
  have h3 := @Runs.turn _ _ _ [] [] _ h2 rfl
  have hsafe := runs_safe (by decide) (by decide) (Natives.keepSound_withLibrary _) h3 (by decide)
  obtain ⟨-, hstep⟩ := hsafe.1 [] _ [] rfl
  exact ⟨_, _, h3, rfl, hstep (by decide) (by decide), rfl⟩

end RegisterMachine
