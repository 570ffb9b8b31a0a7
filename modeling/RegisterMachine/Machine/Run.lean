import RegisterMachine.Debug.Session
import RegisterMachine.Machine.Step

/-!
# Whole runs

A function is run by its default worker; the named workers that come up on the way wait until that
one has ended, and then run one after another in the order in which they were started, each to its
end. The run is over when no worker is left, and only then is its result decided.

Someone may watch: an observer is shown each worker before each of its steps. It can keep what it
likes about what it sees and can hold the run up for ever, but it can change nothing.

Code can loop, so every run has a limit on the steps of each worker and on the number of workers.
`none` means that the limit was reached, or that an observer never let a worker go on.
-/

namespace RegisterMachine

/-- What can come of a run instead of values. -/
inductive RunError
  /-- The entry package has no main function. -/
  | mainNotFound (package : String)
  | functionNotFound (name : String)
  | session (e : Debug.SessionError)
  /-- The default worker of the function failed, or could not be set up. -/
  | faulted (fault : Fault)
  /-- Only named workers failed. -/
  | workersFailed (failures : List WorkerFailure)
  deriving DecidableEq, Repr

def RunError.message : RunError → String
  | mainNotFound package => "no main function in entry package '" ++ package ++ "'"
  | functionNotFound name => "function '" ++ name ++ "' not found"
  | session e => e.message
  | faulted fault => fault.error.message
  | workersFailed failures => toString failures.length ++ " worker(s) failed"

/-- Someone who watches a run. It keeps a `σ` about the whole and an `ω` about each worker. -/
structure Observer (σ ω : Type) where
  /-- What it knows about a worker that has not run yet. -/
  fresh : ω
  /-- It is shown a worker that is about to take a step. -/
  observe : σ → ω → World → Worker → Option (σ × ω)

/-- An observer that does not look. -/
def Observer.idle : Observer Unit Unit := ⟨(), fun s o _ _ => some (s, o)⟩

/-- A run so far: what the observer knows and the state of the machine. -/
structure Run (σ : Type) where
  seen : σ
  world : World

namespace Environment

variable {σ ω : Type}

/-- Runs a worker to its end. -/
def runWorker (env : Environment) (obs : Observer σ ω) :
    (limit : Nat) → Run σ → ω → Worker → Option (Run σ × Outcome)
  | 0, _, _, _ => none
  | limit + 1, run, o, worker =>
      match obs.observe run.seen o run.world worker with
      | none => none
      | some (seen, o) =>
          let (world, worker) := env.step run.world worker
          if worker.progress.isFinal then some (⟨seen, world⟩, worker.progress.outcome)
          else env.runWorker obs limit ⟨seen, world⟩ o worker

/-- Runs the waiting workers in their order, and those they start after them. -/
def runWaiting (env : Environment) (obs : Observer σ ω) (limit : Nat) :
    (workers : Nat) → Run σ → Option (Run σ)
  | 0, _ => none
  | workers + 1, run =>
      match run.world.waiting with
      | [] => some run
      | worker :: waiting =>
          match env.runWorker obs limit ⟨run.seen, { run.world with waiting }⟩ obs.fresh worker with
          | none => none
          | some (run, outcome) =>
              env.runWaiting obs limit workers
                ⟨run.seen, run.world.complete worker.info outcome⟩

/-- What a run comes to when all its workers have ended. A fault of the default worker counts before
those of others. -/
def conclude (outcome : Outcome) (joined : Except (List WorkerFailure) Unit) :
    Except RunError (List Value) :=
  match outcome, joined with
  | .error fault, _ => .error (.faulted fault)
  | .ok _, .error failures => .error (.workersFailed failures)
  | .ok values, .ok () => .ok values

/-- Runs a function with all its workers. Its arguments are held until the end, and so is what its
default worker returns. -/
def runFunction (env : Environment) (obs : Observer σ ω) (limit : Nat) (run : Run σ)
    (id : FunctionId) (info : FunctionInfo) (args : List (Bank × Value)) :
    Option (Run σ × Except RunError (List Value)) :=
  let world := run.world
  match (Frame.start id info.defaultWorker).bind world.store.heap args with
  | .error error => some (run, .error (.faulted ⟨error, []⟩))
  | .ok frame =>
      let (scheduler, me) := world.scheduler.register id info.name info.defaultWorker.name
      let world := { world with scheduler }
      match world.spawn id info args with
      | .error error =>
          let fault : Fault := ⟨error, []⟩
          some (⟨run.seen, world.complete me (.error fault)⟩, .error (.faulted fault))
      | .ok world => do
          let kept := world.kept
          let (run, outcome) ←
            env.runWorker obs limit ⟨run.seen, world.hold (args.map Prod.snd)⟩ obs.fresh
              (.start me frame)
          let world := (run.world.complete me outcome).hold outcome.values
          let run ← env.runWaiting obs limit limit ⟨run.seen, world⟩
          let joined ← run.world.scheduler.join?
          some (⟨run.seen, { run.world with kept }⟩, conclude outcome joined)

/-- Runs a function of some name on some values, each of which goes to the bank it goes to by
nature. Packages are not initialised. -/
def invoke (env : Environment) (limit : Nat) (store : Store) (kept : List Value) (name : String)
    (args : List Value) : Option (Store × Except RunError (List Value)) :=
  match env.program.findFunction? name with
  | none => some (store, .error (.functionNotFound name))
  | some (id, info) => do
      let (run, result) ←
        env.runFunction .idle limit ⟨(), .start store kept⟩ id info (Frame.naturalArgs args)
      some (run.world.store, result)

/-- Runs the init functions of packages in order, up to the first that fails. -/
def runInits (env : Environment) (obs : Observer σ ω) (limit : Nat) (run : Run σ) :
    List PackageInfo → Option (Run σ × Except RunError Unit)
  | [] => some (run, .ok ())
  | package :: rest =>
      match package.initFunction with
      | none => env.runInits obs limit run rest
      | some id =>
          match env.program.function? id with
          | none => some (run, .error (.functionNotFound id.render))
          | some info =>
              match env.runFunction obs limit run id info [] with
              | none => none
              | some (run, .error e) => some (run, .error e)
              | some (run, .ok _) => env.runInits obs limit run rest

/-- Initialises the packages and runs the main function. It gets the arguments as an array of
strings, if it has a register for it. -/
def runPackages (env : Environment) (obs : Observer σ ω) (limit : Nat) (run : Run σ)
    (id : FunctionId) (info : FunctionInfo) (args : List String) :
    Option (Run σ × Except RunError (List Value)) := do
  let (run, inits) ← env.runInits obs limit run env.program.packages
  match inits with
  | .error e => some (run, .error e)
  | .ok () =>
      if info.defaultWorker.registers.refs = 0 then
        env.runFunction obs limit run id info []
      else
        match ArrayObject.ofStrings args with
        | .error e => some (run, .error (.faulted ⟨.array (.index e), []⟩))
        | .ok array =>
            let (store, v) := run.world.store.alloc (.array array)
            env.runFunction obs limit ⟨run.seen, { run.world with store }⟩ id info
              [(.value .ref, v)]

/-- Runs the program. -/
def runMain (env : Environment) (limit : Nat) (store : Store) (args : List String) :
    Option (Store × Except RunError (List Value)) :=
  match env.program.mainFunction? with
  | none => some (store, .error (.mainNotFound env.program.entryPackage))
  | some (id, info) => do
      let (run, result) ← env.runPackages .idle limit ⟨(), .start store []⟩ id info args
      some (run.world.store, result)

end Environment

end RegisterMachine
