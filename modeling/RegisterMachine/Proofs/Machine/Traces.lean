import RegisterMachine.Proofs.Machine.Linkage

/-!
# What the trace of a fault says

A trace is made of the frames that are on the stack when an error arises, one entry for each. It is to
say where every frame was, but a frame only knows its next instruction, and a trace takes the one before
it. `Fetched` is what is meant: for each frame the offset that it has fetched last, kept beside the stack
from a worker's first step on (`Worker.Fetches`). The two agree for a frame that has called and waits, and
for the frame on top once it has fetched the instruction that fails (`Frame.Behind`), however control has
come there. When results do not fit, the callee is gone and its caller has not fetched anything since the
call.

There is one thing that a trace gets wrong. It does not go back before the instruction that the worker
starts with, and code may: a frame that has jumped there is reported where it started. The main
statement, `Worker.fault_trace_eq`, says what the entries are in either case, and
`Worker.jumpBack_misplaced` is a fault with the wrong line.
-/

namespace RegisterMachine

/-- What the frames of a stack have fetched last, innermost first: an offset, or nothing yet. -/
abbrev Fetched := List (Option Nat)

namespace Fetched

/-- The frame on top fetches the instruction at an offset. -/
def fetch (fetched : Fetched) (ip : Nat) : Fetched := some ip :: fetched.tail

/-- An instruction runs: a call brings a frame that has fetched nothing, and a return takes one away. -/
def run (fetched : Fetched) : Option Instruction → Fetched
  | some (.call ..) => none :: fetched
  | some (.ret _) => fetched.tail
  | _ => fetched

/-- A worker with this stack takes a step. -/
def step (p : Program) (stack : CallStack) (fetched : Fetched) : Fetched :=
  match stack with
  | [] => fetched
  | f :: _ => (fetched.fetch f.ip).run (p.instruction? f.ip)

theorem run_of_keepsFrame {fetched : Fetched} {i : Instruction} (h : i.keepsFrame = true) :
    fetched.run (some i) = fetched := by
  cases i with
  | call id args rets => exact absurd h (by simp)
  | ret regs => exact absurd h (by simp)
  | _ => rfl

end Fetched

/-- A worker that has run from its start, in whatever worlds, and what its frames have fetched. -/
inductive Worker.Fetches (env : Environment) (id : FunctionId) (wi : WorkerInfo) :
    Worker → Fetched → Prop
  | start {w : Worker} (h : w.FreshOf id wi) : Fetches env id wi w [none]
  | step {w w' : Worker} {fetched : Fetched} (h : Fetches env id wi w fetched)
      (hs : env.Steps w w') : Fetches env id wi w' (fetched.step env.program w.stack)

/-- The frame's next instruction is the one behind that which it has fetched last. -/
def Frame.Behind (f : Frame) (last : Option Nat) : Prop := ∃ ip, last = some ip ∧ f.ip = ip + 1

/-- The frames below the one on top wait behind what they have fetched last. The one on top may have
jumped since. -/
def Fetched.Tells : Fetched → CallStack → Prop
  | _ :: rest, _ :: below => List.Forall₂ Frame.Behind below rest
  | _, _ => False

/-- What a trace says about a frame that has fetched the instruction at `ip` last: where that is, or where
the frame's code starts if that is further on. -/
def Frame.traced (p : Program) (f : Frame) (ip : Nat) : TraceEntry where
  function := ((p.function? f.function).map FunctionInfo.name).getD f.function.render
  worker := f.worker
  position := p.position? (if f.entry ≤ ip then ip else f.entry)

theorem CallStack.entryOf_eq {p : Program} {f : Frame} {ip : Nat} (h : f.ip = ip + 1) :
    entryOf p f = f.traced p ip := by
  unfold entryOf Frame.traced
  rw [h, Nat.add_sub_cancel, Nat.max_def]
  by_cases hle : f.entry ≤ ip
  · rw [if_pos hle]
    split
    · rw [Nat.le_antisymm hle ‹_›]
    · rfl
  · rw [if_neg hle, if_pos (by omega)]

theorem CallStack.exists_offsets {stack : CallStack} {fetched : Fetched}
    (h : List.Forall₂ Frame.Behind stack fetched) :
    ∃ offsets : List Nat, fetched = offsets.map some ∧ stack.map Frame.ip = offsets.map (· + 1) := by
  induction h with
  | nil => exact ⟨[], rfl, rfl⟩
  | cons hf _ ih =>
    obtain ⟨ip, rfl, hip⟩ := hf
    obtain ⟨offsets, rfl, hips⟩ := ih
    exact ⟨ip :: offsets, rfl, by rw [List.map_cons, List.map_cons, hip, hips]⟩

/-- The trace of frames that all stand behind what they have fetched. -/
theorem CallStack.trace_eq (p : Program) {stack : CallStack} {offsets : List Nat}
    (h : stack.map Frame.ip = offsets.map (· + 1)) :
    stack.trace p = List.zipWith (Frame.traced p) stack offsets := by
  induction stack generalizing offsets with
  | nil => rfl
  | cons f below ih =>
    cases offsets with
    | nil => cases h
    | cons ip offsets =>
      obtain ⟨hip, hrest⟩ := List.cons.inj h
      rw [List.zipWith_cons_cons, ← ih hrest, ← entryOf_eq hip]
      rfl

/-- A frame with another on it waits behind the call that made that one. -/
theorem CallStack.Linked.call_below {p : Program} {stack : CallStack} (h : Linked p stack) {i : Nat}
    {f g : Frame} (hf : stack[i]? = some f) (hg : stack[i + 1]? = some g) :
    ∃ ip args, g.ip = ip + 1 ∧ p.instruction? ip = some (.call f.function args f.rets) := by
  induction stack generalizing i with
  | nil => cases hf
  | cons k below ih =>
    cases i with
    | succ i => exact ih h.tail hf hg
    | zero =>
      cases below with
      | nil => cases hg
      | cons l rest =>
        cases hf
        cases hg
        exact h.2.1

namespace Environment

variable {env : Environment} {world : World} {info : WorkerInstance} {f : Frame} {below : CallStack}

/-- Where an error leaves the stack. Either the frame on top has moved past its instruction, or it has
gone, for it was to return and its caller, if there is one, cannot take the results. -/
theorem advance_error {e : ExecutionError}
    (h : (env.advance world info (f :: below)).result = .error e)
    (hne : ∀ ip, e ≠ .invalidInstructionPointer ip) :
    (env.advance world info (f :: below)).stack = f.past :: below ∨
      ∃ ip, f.returnTo = some ip ∧ (below = [] ∨ ∃ caller rest, below = caller :: rest ∧
        (env.advance world info (f :: below)).stack = { caller with ip } :: rest) := by
  unfold advance at h ⊢
  dsimp only at h ⊢
  cases hi : env.program.instruction? f.ip with
  | none =>
    rw [hi] at h
    cases h
    exact absurd rfl (hne _)
  | some i =>
    rw [hi] at h
    dsimp only at h ⊢
    by_cases hl : i.isLocal = true
    · left
      rw [env.execute_local world info f.past below hl] at h ⊢
      cases he : f.past.exec env.program (world.isHeld (f.past :: below)) world.store.heap i with
      | ok r =>
        rw [he] at h
        cases h
      | error e' => rfl
    · cases i with
      | call id args rets =>
        left
        simp only [execute] at h ⊢
        cases hc : env.call world (f.past :: below) id args rets with
        | ok r => simp [hc] at h
        | error e' => rfl
      | nativeCall name args rets =>
        left
        simp only [execute, nativeCall] at h ⊢
        split at h
        · rfl
        · split at h
          · rfl
          · split at h
            · rfl
            · split at h
              · cases h
              · rfl
      | ret regs =>
        simp only [execute, ret] at h ⊢
        split at h
        · exact Or.inl rfl
        · split at h
          · cases h
          · rename_i ip hr
            refine Or.inr ⟨ip, hr, ?_⟩
            cases below with
            | nil => exact Or.inl rfl
            | cons caller rest =>
              dsimp only at h ⊢
              split at h
              · cases h
              · exact Or.inr ⟨caller, rest, rfl, rfl⟩
      | _ => exact absurd rfl hl

end Environment

namespace Fetched

variable {env : Environment} {fetched : Fetched} {stack stack' : CallStack}

/-- A move keeps what has been fetched beside the stack: the frames below the one on top have not moved,
and a caller is behind its call. -/
theorem Tells.move (h : fetched.Tells stack) (hm : Moves env stack stack' .running) :
    (fetched.step env.program stack).Tells stack' := by
  cases fetched with
  | nil => exact h.elim
  | cons last rest =>
    cases hm with
    | within hi hk hn hg =>
      rw [step, hi, run_of_keepsFrame hk]
      exact h
    | @call f callee below id args rets info ps hi hf hd hc hip =>
      rw [step, hi]
      exact .cons ⟨f.ip, rfl, rfl⟩ h
    | ret hi hv hr hg hip hres =>
      rw [step, hi]
      cases h with
      | cons hcaller hrest => exact hrest

end Fetched

namespace Worker

variable {env : Environment} {id : FunctionId} {wi : WorkerInfo} {w w' : Worker} {fetched : Fetched}

theorem Fetches.linked (h : w.Fetches env id wi fetched) : w.Linked env.program := by
  induction h with
  | start hf => exact hf.linked _
  | step _ hs ih => exact ih.step hs

theorem Fetches.tells (h : w.Fetches env id wi fetched) (hp : w.progress = .running) :
    fetched.Tells w.stack := by
  induction h with
  | start hf =>
    obtain ⟨heap, args, f, -, hw⟩ := hf
    rw [hw]
    exact .nil
  | step _ hs ih =>
    rcases hs.cases with ⟨hrun, hm⟩ | ⟨hend, rfl⟩
    · rw [hp] at hm
      exact (ih hrun).move hm
    · exact absurd hp hend

/-- **What the trace of a fault says.** Let a worker fault in its run, with an error that is about
an instruction. The trace has one entry for each frame that is on the stack when the error arises,
innermost first. Each names its frame's function and worker, and says where the instruction is that the
frame has fetched last, unless that is before the first of the frame's code. For a frame that is not on
top this instruction is the call of the frame above it. -/
theorem fault_trace_eq (h : w.Fetches env id wi fetched) (hp : w.progress = .running) (world : World)
    {fault : Fault} (hf : (env.step world w).2.progress = .faulted fault)
    (hne : ∀ ip, fault.error ≠ .invalidInstructionPointer ip) :
    ∃ f below, w.stack = f :: below ∧
      let stack := (env.advance world w.info w.stack).stack
      ∃ offsets : List Nat, offsets.length = stack.length ∧
        offsets.map some <:+ fetched.fetch f.ip ∧
        fault.trace = List.zipWith (Frame.traced env.program) stack offsets ∧
        ∀ (i : Nat) (g : Frame) (ip : Nat), stack[i]? = some g → offsets[i + 1]? = some ip →
          ∃ args, env.program.instruction? ip = some (.call g.function args g.rets) := by
  have htells := h.tells hp
  have hlinked := h.linked
  obtain ⟨f, below, hstack⟩ := List.exists_cons_of_ne_nil (hlinked.nonempty_iff.mp (by rw [hp]; rfl))
  refine ⟨f, below, hstack, ?_⟩
  have hl := hlinked.stack
  rw [hstack] at htells hl ⊢
  cases fetched with
  | nil => exact htells.elim
  | cons last rest =>
    -- the step has come to an error, with the trace of the stack that this leaves
    unfold Environment.step at hf
    rw [hp, hstack] at hf
    dsimp only at hf
    have herror : ∃ e, (env.advance world w.info (f :: below)).result = .error e ∧
        fault = ⟨e, (env.advance world w.info (f :: below)).stack.trace env.program⟩ := by
      cases hr : (env.advance world w.info (f :: below)).result with
      | ok flow => cases flow <;> simp [hr] at hf
      | error e =>
        rw [hr] at hf
        cases hf
        exact ⟨e, rfl, rfl⟩
    obtain ⟨e, hr, rfl⟩ := herror
    have hbehind : ∃ offsets : Fetched, offsets <:+ some f.ip :: rest ∧
        List.Forall₂ Frame.Behind (env.advance world w.info (f :: below)).stack offsets ∧
        CallStack.Linked env.program (env.advance world w.info (f :: below)).stack := by
      rcases env.advance_error hr hne with htop | ⟨ip, hreturn, hbelow⟩
      · rw [htop]
        exact ⟨_, List.suffix_rfl, .cons ⟨f.ip, rfl, rfl⟩ htells, hl.top (.past f)⟩
      · rcases hbelow with rfl | ⟨caller, under, rfl, htop⟩
        · rw [show f.returnTo = none from hl] at hreturn
          cases hreturn
        · -- the caller goes back to where it is, behind the call
          have hip : caller.ip = ip := Option.some.inj (hl.1.symm.trans hreturn)
          rw [htop, ← hip]
          exact ⟨rest, List.suffix_cons _ _, htells, hl.tail⟩
    obtain ⟨marks, hsuffix, hmarks, hleft⟩ := hbehind
    obtain ⟨offsets, rfl, hips⟩ := CallStack.exists_offsets hmarks
    refine ⟨offsets, by simpa using (congrArg List.length hips).symm, hsuffix,
      CallStack.trace_eq _ hips, fun i g ip hg hip => ?_⟩
    -- the frame below `g` has its next instruction behind what it has fetched, and behind a call
    have hnext := congrArg (fun l : List Nat => l[i + 1]?) hips
    simp only [List.getElem?_map, hip] at hnext
    obtain ⟨k, hk, hkip⟩ := Option.map_eq_some_iff.mp hnext
    obtain ⟨ip', args, hk', hcall⟩ := hleft.call_below hg hk
    rw [Nat.succ.inj (hkip.symm.trans hk')]
    exact ⟨args, hcall⟩

end Worker

/-! ## Two faults -/

/-- A function calls another, and that one throws what it has not got. -/
def Program.throwing : Program where
  entryPackage := "app"
  packages := []
  functions :=
    #[⟨"outer", "app", ⟨defaultWorkerName, 0, {}⟩, []⟩,
      ⟨"inner", "app", ⟨defaultWorkerName, 2, { refs := 1 }⟩, []⟩]
  constants := #[]
  code := #[.call ⟨1⟩ [] [], .ret [], .throw ⟨0⟩]
  lines := [⟨0, ⟨"app.bal", 4⟩⟩, ⟨2, ⟨"app.bal", 9⟩⟩]

/-- A function whose code starts behind its body. -/
def Program.jumpingBack : Program where
  entryPackage := "app"
  packages := []
  functions := #[⟨"main", "app", ⟨defaultWorkerName, 1, { ints := 1 }⟩, []⟩]
  constants := #[]
  code := #[.intOp .div ⟨0⟩ ⟨0⟩ ⟨0⟩, .goto 0]
  lines := [⟨0, ⟨"app.bal", 1⟩⟩, ⟨1, ⟨"app.bal", 2⟩⟩]

namespace Worker

/-- About to run a function that takes nothing. -/
def entering (id : FunctionId) (wi : WorkerInfo) : Worker :=
  .start ⟨1, id, "", wi.name⟩ (Frame.start id wi)

theorem entering_fetches (env : Environment) (id : FunctionId) (wi : WorkerInfo) :
    (entering id wi).Fetches env id wi [none] := .start ⟨.empty, [], _, rfl, rfl⟩

/-- The trace names the line that throws, and the line of the call that has led there. -/
theorem throwing_traced :
    let env : Environment := ⟨.throwing, [], 8⟩
    let w := (entering ⟨0⟩ ⟨defaultWorkerName, 0, {}⟩).afterSteps env 1
    let trace : List TraceEntry := [⟨"inner", defaultWorkerName, some ⟨"app.bal", 9⟩⟩,
      ⟨"outer", defaultWorkerName, some ⟨"app.bal", 4⟩⟩]
    (env.step (.start .empty []) w).2.progress = .faulted ⟨.nullReference, trace⟩ ∧
    ∃ offsets : List Nat, offsets.length = 2 ∧ offsets.map some <:+ [some 2, some 0] ∧
      trace = List.zipWith (Frame.traced env.program) (env.advance (.start .empty []) w.info w.stack).stack
        offsets := by
  intro env w trace
  have hf : (env.step (.start .empty []) w).2.progress = .faulted ⟨.nullReference, trace⟩ := rfl
  have hfetches := (entering_fetches env ⟨0⟩ ⟨defaultWorkerName, 0, {}⟩).step
    ⟨.start .empty [], rfl⟩
  obtain ⟨f, below, hstack, offsets, hlen, hsuffix, htrace, -⟩ :=
    fault_trace_eq hfetches rfl (.start .empty []) hf (by simp)
  cases hstack
  exact ⟨hf, offsets, hlen, hsuffix, htrace⟩

/-- The code jumps to before the first instruction of its worker and fails there, on line 1. The trace
names the line of that first instruction. -/
theorem jumpBack_misplaced :
    let env : Environment := ⟨.jumpingBack, [], 8⟩
    let wi : WorkerInfo := ⟨defaultWorkerName, 1, { ints := 1 }⟩
    let w := (entering ⟨0⟩ wi).afterSteps env 1
    w.Fetches env ⟨0⟩ wi [some 1] ∧ w.stack.map Frame.ip = [0] ∧
    env.program.instruction? 0 = some (.intOp .div ⟨0⟩ ⟨0⟩ ⟨0⟩) ∧
    env.program.position? 0 = some ⟨"app.bal", 1⟩ ∧
    (env.step (.start .empty []) w).2.progress =
      .faulted ⟨.divisionByZero, [⟨"main", defaultWorkerName, some ⟨"app.bal", 2⟩⟩]⟩ := by
  intro env wi w
  have hfetches := (entering_fetches env ⟨0⟩ wi).step ⟨.start .empty [], rfl⟩
  exact ⟨hfetches, rfl, rfl, by decide +kernel, rfl⟩

end Worker

end RegisterMachine
