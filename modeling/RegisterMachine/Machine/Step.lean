import RegisterMachine.Machine.Basic
import RegisterMachine.Machine.Local

/-!
# One step of a worker

A step fetches the instruction that the top frame is at, moves the frame past it and executes it.
What an instruction does when it fails is part of the result as well: the stack at that moment is
what the fault's trace shows.
-/

namespace RegisterMachine

/-- What an executed instruction leaves: the run goes on, or the bottom frame has returned. -/
inductive Flow
  | goOn
  | finished (values : List Value)
  deriving Repr

/-- The world and the stack after an instruction, and whether it failed. -/
structure Executed where
  world : World
  stack : CallStack
  result : Except ExecutionError Flow

namespace Environment

/-- Calls a function: its frame goes on the stack and its named workers wait for their turn. -/
def call (env : Environment) (world : World) (stack : CallStack) (id : FunctionId)
    (args rets : List AnyReg) : Except ExecutionError (World × CallStack) :=
  match env.program.function? id with
  | none => .error (.unknownFunction id)
  | some info =>
      if env.maxDepth ≤ stack.length then .error (.stackOverflow env.maxDepth)
      else
        match stack with
        | [] => .error .stackUnderflow
        | caller :: _ => do
            let values ← caller.readAll args
            let args := (args.map fun r => Bank.value r.bank).zip values
            let callee := (Frame.start id info.defaultWorker).returningTo caller.ip rets
            let callee ← callee.bind world.store.heap args
            let world ← world.spawn id info args
            .ok (world, callee :: stack)

/-- Returns from the top frame. Its caller, if there is one, takes the values. -/
def ret (world : World) (stack : CallStack) (regs : List AnyReg) : Executed :=
  match stack with
  | [] => ⟨world, stack, .error .stackUnderflow⟩
  | callee :: below =>
      match callee.readAll regs with
      | .error e => ⟨world, stack, .error e⟩
      | .ok values =>
          match callee.returnTo with
          | none => ⟨world, below, .ok (.finished values)⟩
          | some ip =>
              match below with
              | [] => ⟨world, [], .error .stackUnderflow⟩
              | caller :: rest =>
                  let caller := { caller with ip }
                  match caller.writeAll world.store.heap callee.rets values with
                  | .ok caller => ⟨world, caller :: rest, .ok .goOn⟩
                  | .error e => ⟨world, caller :: rest, .error e⟩

/-- Calls a native function with the values that its arguments have beforehand. -/
def nativeCall (env : Environment) (world : World) (info : WorkerInstance) (stack : CallStack)
    (name : String) (args rets : List AnyReg) : Executed :=
  match env.natives.lookup name with
  | none => ⟨world, stack, .error (.unknownNative name)⟩
  | some native =>
      match stack with
      | [] => ⟨world, stack, .error .stackUnderflow⟩
      | frame :: below =>
          match frame.readAll args with
          | .error e => ⟨world, stack, .error e⟩
          | .ok values =>
              let (store, result) := native info world.store values
              let world := { world with store }
              match result with
              | .error e => ⟨world, stack, .error (.native name e)⟩
              | .ok results =>
                  match frame.writeAll store.heap rets results with
                  | .ok frame => ⟨world, frame :: below, .ok .goOn⟩
                  | .error e => ⟨world, stack, .error e⟩

/-- Executes an instruction that has been fetched. -/
def execute (env : Environment) (world : World) (info : WorkerInstance) (stack : CallStack)
    (i : Instruction) : Executed :=
  match i with
  | .call id args rets =>
      match env.call world stack id args rets with
      | .ok (world, stack) => ⟨world, stack, .ok .goOn⟩
      | .error e => ⟨world, stack, .error e⟩
  | .ret regs => ret world stack regs
  | .nativeCall name args rets => env.nativeCall world info stack name args rets
  | i =>
      match stack with
      | [] => ⟨world, stack, .error .stackUnderflow⟩
      | frame :: below =>
          match frame.exec env.program (world.isHeld stack) world.store.heap i with
          | .ok (heap, frame) =>
              ⟨{ world with store := { world.store with heap } }, frame :: below, .ok .goOn⟩
          | .error e => ⟨world, stack, .error e⟩

/-- Fetches the next instruction and executes it. -/
def advance (env : Environment) (world : World) (info : WorkerInstance) (stack : CallStack) :
    Executed :=
  match stack with
  | [] => ⟨world, stack, .error .stackUnderflow⟩
  | frame :: below =>
      match env.program.instruction? frame.ip with
      | none => ⟨world, stack, .error (.invalidInstructionPointer frame.ip)⟩
      | some i => env.execute world info ({ frame with ip := frame.ip + 1 } :: below) i

/-- One step of a worker. A worker that has ended stays as it is; one that faults loses its
stack. -/
def step (env : Environment) (world : World) (worker : Worker) : World × Worker :=
  match worker.progress with
  | .running =>
      let done := env.advance world worker.info worker.stack
      match done.result with
      | .ok .goOn => (done.world, { worker with stack := done.stack })
      | .ok (.finished values) =>
          (done.world, { worker with stack := done.stack, progress := .returned values })
      | .error error =>
          let fault := { error, trace := done.stack.trace env.program }
          (done.world, { worker with stack := [], progress := .faulted fault })
  | _ => (world, worker)

end Environment

end RegisterMachine
