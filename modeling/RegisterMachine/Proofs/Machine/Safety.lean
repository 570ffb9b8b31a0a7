import RegisterMachine.Proofs.Machine.Interleaving
import RegisterMachine.Proofs.Machine.Linkage
import RegisterMachine.Proofs.Program.WellFormed

/-!
# Well-formed code does not fault fatally

A fatal error says that code is malformed, and it says so rightly: in a well-formed program none of
the workers of an invocation ends in one, under any schedule (`Program.WellFormed.never_fatal`).

The invariant has two halves. How the frames of a stack hang together is that of `Linkage`, and it is
there whatever the code. The other half is that each frame is where its worker's code leads and has the
registers that the worker asks for, and that every register which is to take a result is in the frame
below (`CallStack.Sound`): results are the callee's to return but the caller's to hold, so neither
frame's own code speaks for them when the time comes. A `Flaw` contradicts one half or the other.
-/

namespace RegisterMachine

/-- The frame has the registers of a worker of the program, and is where that worker can come. -/
def Frame.Sound (p : Program) (f : Frame) : Prop :=
  ∃ w, p.HasWorker w ∧ f.Shaped w.registers ∧ p.Comes w.entry f.ip

/-- Every frame is sound, and has the registers that take the results of the frame above it. -/
def CallStack.Sound (p : Program) : CallStack → Prop
  | [] => True
  | [f] => f.Sound p
  | f :: g :: rest =>
      f.Sound p ∧ (∀ q ∈ f.rets.map AnyReg.place, g.Has q) ∧ Sound p (g :: rest)

variable {p : Program}

namespace Frame.Sound

variable {f g : Frame} {i : Instruction}

/-- A frame goes on soundly where its instruction leads, with the registers it has. -/
theorem next {ps : List Place} (h : f.Sound p) (hi : p.instruction? f.ip = some i)
    (hn : g.ip ∈ i.targets (f.ip + 1)) (hg : f.AgreesOff ps g) : g.Sound p := by
  obtain ⟨w, hw, hs, hc⟩ := h
  exact ⟨w, hw, hs.of_agreesOff hg, hc.next hi hn⟩

/-- In a well-formed program there is an instruction for a sound frame. -/
theorem instruction (hp : p.WellFormed) (h : f.Sound p) : ∃ i, p.instruction? f.ip = some i := by
  obtain ⟨w, hw, -, hc⟩ := h
  obtain ⟨i, hi, -⟩ := hp w hw f.ip hc
  exact ⟨i, hi⟩

/-- It names only registers of the frame, and calls only with arguments that fit. -/
theorem admits (hp : p.WellFormed) (h : f.Sound p) (hi : p.instruction? f.ip = some i) :
    (∀ q ∈ i.places, f.Has q) ∧ i.ArgsFit p := by
  obtain ⟨w, hw, hs, hc⟩ := h
  obtain ⟨j, hj, ha, hfit⟩ := hp w hw f.ip hc
  rw [hi, Option.some.injEq] at hj
  subst hj
  exact ⟨fun q hq => (hs.has_iff q).mpr (ha q hq), hfit⟩

end Frame.Sound

namespace CallStack.Sound

variable {f g : Frame} {below : CallStack}

theorem head (h : Sound p (f :: below)) : f.Sound p := by
  cases below with
  | nil => exact h
  | cons g rest => exact h.1

theorem tail (h : Sound p (f :: below)) : Sound p below := by
  cases below with
  | nil => exact trivial
  | cons g rest => exact h.2.2

/-- A frame in the place of the top one, which is to return to the same registers. -/
theorem top (h : Sound p (f :: below)) (hg : g.Sound p) (hr : g.rets = f.rets) :
    Sound p (g :: below) := by
  cases below with
  | nil => exact hg
  | cons k rest => exact ⟨hg, hr ▸ h.2.1, h.2.2⟩

end CallStack.Sound

/-- No fatal error has ended the worker, and none will. -/
structure Worker.Sound (p : Program) (w : Worker) : Prop where
  linked : w.Linked p
  stack : CallStack.Sound p w.stack
  fault (fault : Fault) : w.progress = .faulted fault → fault.error.isFatal = false

namespace Worker

variable {env : Environment} {w w' : Worker}

theorem FreshOf.sound {id : FunctionId} {wi : WorkerInfo} (h : w.FreshOf id wi)
    (hw : p.HasWorker wi) : w.Sound p := by
  have hl := h.linked p
  obtain ⟨heap, args, f, hf, hw'⟩ := h
  have hb := Frame.bind_meets heap (Frame.Shaped.start id wi) args
  obtain ⟨⟨ps, hps⟩, hip⟩ := hb.of_ok hf
  rw [hw'] at hl ⊢
  refine ⟨hl, ⟨wi, hw, (Frame.Shaped.start id wi).of_agreesOff hps, ?_⟩, fun _ h => ?_⟩
  · rw [hip]
    exact .entry
  · exact absurd h (by simp [start])

/-- Nothing is wrong with a sound stack in a well-formed program. -/
theorem Sound.no_flaw (hp : env.program.WellFormed) (h : w.Sound env.program)
    (hr : w.progress = .running) {e : ExecutionError} : ¬ Flaw env.program w.stack e := by
  intro hflaw
  have hu : ∀ e, Flaw env.program w.stack e → e ≠ .stackUnderflow :=
    fun e he => h.linked.no_underflow hr fun _ => he
  have hs := h.stack
  generalize w.stack = stack at hflaw hs hu
  -- an underflow is against how the frames hang together, the rest against what each of them is
  cases hflaw with
  | empty => exact hu _ .empty rfl
  | orphan hr => exact hu _ (.orphan hr) rfl
  | pointer hi =>
    obtain ⟨i, hi'⟩ := hs.head.instruction hp
    rw [hi] at hi'
    exact absurd hi' (by simp)
  | operand hi hm hh => exact hh ((hs.head.admits hp hi).1 _ hm)
  | argument hi hf hw ht => exact ht ((hs.head.admits hp hi).2 _ hf _ hw)
  | result hr hm hh => exact hh (hs.2.1 _ hm)

/-- A move of a sound, linked stack leaves a sound one. -/
theorem Sound.move {stack stack' : CallStack} {progress : Progress}
    (hp : env.program.WellFormed) (hl : CallStack.Linked env.program stack)
    (hs : CallStack.Sound env.program stack) (hm : Moves env stack stack' progress) :
    CallStack.Sound env.program stack' := by
  cases hm with
  | within hi hk hn hg => exact hs.top (hs.head.next hi hn hg) hg.rets
  | @call f callee below id args rets info ps hi hf hd hc hip =>
    have hcaller : f.past.Sound env.program := hs.head.next hi (by simp) (.past f)
    have hstart : ((Frame.start id info.defaultWorker).returningTo (f.ip + 1) rets).Shaped
        info.defaultWorker.registers := Frame.Shaped.start id info.defaultWorker
    refine ⟨⟨info.defaultWorker, .of_function? hf List.mem_cons_self, hstart.of_agreesOff hc, ?_⟩,
      ?_, hs.top hcaller rfl⟩
    · rw [hip]
      exact .entry
    · rw [hc.rets]
      intro q hq
      exact (hs.head.admits hp hi).1 q (List.mem_append_right _ hq)
  | @ret f caller g rest regs values ip hi hv hr hg hip hres =>
    -- the caller goes on where it is, which is where its code has led it
    have hback : g.ip = caller.ip := by
      have := hl.1
      rw [hr, Option.some.injEq] at this
      exact hip.trans this
    obtain ⟨w, hw, hsh, hc⟩ := hs.tail.head
    exact hs.tail.top ⟨w, hw, hsh.of_agreesOff hg, hback ▸ hc⟩ hg.rets
  | finish hi hv hr => exact hs.tail
  | fault hf => exact trivial

theorem Sound.step (hp : env.program.WellFormed) (h : w.Sound env.program)
    (hs : env.Steps w w') : w'.Sound env.program := by
  have hl := h.linked.step hs
  rcases hs.cases with ⟨hr, hm⟩ | ⟨-, rfl⟩
  · refine ⟨hl, Sound.move hp h.linked.stack h.stack hm, fun fault hf => ?_⟩
    rw [hf] at hm
    exact Bool.eq_false_iff.mpr fun hfatal => h.no_flaw hp hr (hm.of_faulted.2 hfatal)
  · exact h

end Worker

/-! ## Invocations -/

/-- Nothing in the invocation has ended in a fatal error, and nothing will. -/
structure Invocation.Sound (p : Program) (inv : Invocation) : Prop where
  waiting : ∀ w ∈ inv.world.waiting, w.Sound p
  ended : ∀ e ∈ inv.ended, ∀ fault, e.2 = .error fault → fault.error.isFatal = false
  failures : ∀ x ∈ inv.world.scheduler.failures, x.fault.error.isFatal = false

/-- Counting a worker out notes its own fault and no other. -/
theorem Scheduler.mem_failures_complete {s : Scheduler} {id : Nat} {outcome : Outcome}
    {x : WorkerFailure} (h : x ∈ (s.complete id outcome).failures) :
    x ∈ s.failures ∨ outcome = .error x.fault := by
  unfold complete at h
  split at h
  · exact Or.inl h
  · cases outcome with
    | ok values => exact Or.inl h
    | error fault =>
      rcases List.mem_append.mp h with h | h
      · exact Or.inl h
      · rw [List.mem_singleton.mp h]
        exact Or.inr rfl

theorem Progress.eq_faulted_of_outcome {progress : Progress} {fault : Fault}
    (h : progress.outcome = .error fault) : progress = .faulted fault := by
  cases progress with
  | running => exact absurd h (by simp [outcome])
  | returned values => exact absurd h (by simp [outcome])
  | faulted fault' =>
    cases h
    rfl

namespace Invocation.Sound

variable {env : Environment} {inv inv' : Invocation}

theorem takeBack {world : World} {w : Worker} (h : inv.Sound p) (hw : w.Sound p)
    (hwait : ∀ v ∈ world.waiting, v.Sound p)
    (hfail : world.scheduler.failures = inv.world.scheduler.failures) :
    (inv.takeBack world w).Sound p := by
  by_cases hf : w.progress.isFinal = true
  · have hout : ∀ fault, w.progress.outcome = .error fault → fault.error.isFatal = false :=
      fun fault ho => hw.fault fault (Progress.eq_faulted_of_outcome ho)
    have hended : ∀ e ∈ inv.ended ++ [(w.info, w.progress.outcome)], ∀ fault,
        e.2 = .error fault → fault.error.isFatal = false := by
      intro e he fault hfault
      rcases List.mem_append.mp he with he | he
      · exact h.ended e he fault hfault
      · rw [List.mem_singleton.mp he] at hfault
        exact hout fault hfault
    have hfails : ∀ x ∈ (world.complete w.info w.progress.outcome).scheduler.failures,
        x.fault.error.isFatal = false := by
      intro x hx
      rcases Scheduler.mem_failures_complete hx with hx | hx
      · exact h.failures x (hfail ▸ hx)
      · exact hout _ hx
    by_cases hm : w.info.id = inv.main
    · rw [takeBack_main hf hm]
      exact ⟨hwait, hended, hfails⟩
    · rw [takeBack_other hf hm]
      exact ⟨hwait, hended, hfails⟩
  · rw [takeBack_of_running (by simpa using hf)]
    refine ⟨?_, h.ended, fun x hx => h.failures x (hfail ▸ hx)⟩
    intro v hv
    rcases List.mem_cons.mp hv with rfl | hv
    · exact hw
    · exact hwait v hv

/-- A turn keeps an invocation sound. -/
theorem turn (hp : env.program.WellFormed) (h : inv.Sound env.program)
    (ht : env.Turn inv inv') : inv'.Sound env.program := by
  obtain ⟨before, w, after, hw, rfl⟩ := ht
  have hmem : ∀ v ∈ before ++ after, v ∈ inv.world.waiting := by
    intro v hv
    rw [hw]
    rcases List.mem_append.mp hv with hv | hv
    · exact List.mem_append_left _ hv
    · exact List.mem_append_right _ (List.mem_cons_of_mem _ hv)
  have hself : w.Sound env.program := by
    refine h.waiting w ?_
    rw [hw]
    exact List.mem_append_right _ List.mem_cons_self
  obtain ⟨started, hstarts, hfresh⟩ :=
    env.step_adds { inv.world with waiting := before ++ after } w
  refine h.takeBack (hself.step hp ⟨_, rfl⟩) ?_ hstarts.failures
  -- who waits now has waited before, or has been started by the step
  intro v hv
  rw [hstarts.waiting] at hv
  rcases List.mem_append.mp hv with hv | hv
  · exact h.waiting v (hmem v hv)
  · obtain ⟨id, info, hf, wi, hwi, hv⟩ := hfresh v hv
    exact hv.sound (.of_function? hf (List.mem_cons_of_mem _ hwi))

theorem plays (hp : env.program.WellFormed) (h : inv.Sound env.program)
    (ht : env.Plays inv inv') : inv'.Sound env.program := by
  induction ht with
  | refl => exact h
  | tail _ hturn ih => exact ih.turn hp hturn

end Invocation.Sound

/-- The faults that the error of a run is about. -/
def RunError.faults : RunError → List Fault
  | .faulted fault => [fault]
  | .workersFailed failures => failures.map WorkerFailure.fault
  | _ => []

theorem Scheduler.failures_of_join? {s : Scheduler} {failures : List WorkerFailure}
    (h : s.join? = some (.error failures)) : failures = s.failures := by
  unfold join? at h
  split at h
  · split at h
    · exact absurd h (by simp)
    · cases h
      rfl
  · exact absurd h (by simp)

/-- What is concluded from a sound invocation is not about a fatal error. -/
theorem Invocation.Sound.conclude {inv : Invocation} {me : WorkerInstance} {outcome : Outcome}
    {joined : Except (List WorkerFailure) Unit} {e : RunError} (h : inv.Sound p)
    (hm : (me, outcome) ∈ inv.ended) (hj : inv.world.scheduler.join? = some joined)
    (he : Environment.conclude outcome joined = .error e) :
    ∀ fault ∈ e.faults, fault.error.isFatal = false := by
  intro fault hfault
  cases outcome with
  | error fault' =>
    cases he
    rw [List.mem_singleton.mp hfault]
    exact h.ended _ hm fault' rfl
  | ok values =>
    cases joined with
    | ok u => exact absurd he (by simp [Environment.conclude])
    | error failures =>
      cases he
      obtain ⟨x, hx, rfl⟩ := List.mem_map.mp hfault
      exact h.failures x (Scheduler.failures_of_join? hj ▸ hx)

/-- **A fatal error means malformed code.** Let a function of a well-formed program be invoked on
arguments that its workers have registers for. Then setting it up does not fail fatally; whichever
workers take their turns, of those that it starts with and those that come up on the way, none ends
in a fatal error; and a run of it reports none. -/
theorem Program.WellFormed.never_fatal {env : Environment} (hp : env.program.WellFormed)
    {id : FunctionId} {info : FunctionInfo} (hf : env.program.function? id = some info)
    {args : List (Bank × Value)}
    (ha : ∀ w ∈ info.defaultWorker :: info.workers, w.registers.Takes (args.map Prod.fst))
    {world : World} (hw : world.Idle) :
    (∀ e, world.launch id info args = .error e → e.isFatal = false) ∧
    (∀ inv inv', world.launch id info args = .ok inv → env.Plays inv inv' →
      ∀ e ∈ inv'.ended, ∀ fault, e.2 = .error fault → fault.error.isFatal = false) ∧
    ∀ {σ ω : Type} (obs : Observer σ ω) (limit : Nat) (run run' : Run σ) (e : RunError),
      run.world = world → env.runFunction obs limit run id info args = some (run', .error e) →
      ∀ fault ∈ e.faults, fault.error.isFatal = false := by
  have hl := world.launch_meets id info args
  have herr : ∀ e, world.launch id info args = .error e → e.isFatal = false := by
    intro e he
    rw [Bool.eq_false_iff]
    intro hfatal
    obtain ⟨w, hw, ht⟩ := hl.of_error he hfatal
    exact ht (ha w hw)
  have hplays : ∀ inv inv', world.launch id info args = .ok inv → env.Plays inv inv' →
      inv'.Sound env.program := by
    intro inv inv' hok
    obtain ⟨hended, hfail, hwait⟩ := hl.of_ok hok
    refine Invocation.Sound.plays hp ⟨?_, ?_, ?_⟩
    · intro s hs
      rcases hwait s hs with hs | ⟨w, hm, hs⟩
      · rw [hw.1] at hs
        exact absurd hs List.not_mem_nil
      · exact hs.sound (.of_function? hf hm)
    · rw [hended]
      exact fun e he => absurd he List.not_mem_nil
    · rw [hfail, hw.2]
      exact fun x hx => absurd hx List.not_mem_nil
  refine ⟨herr, fun inv inv' hok ht => (hplays inv inv' hok ht).ended, ?_⟩
  intro σ ω obs limit run run' e hrun hr
  subst hrun
  rcases env.runFunction_plays hw hr with ⟨e', he', hres⟩ | hrest
  · cases hres
    intro fault hfault
    rw [List.mem_singleton.mp hfault]
    exact herr e' he'
  · obtain ⟨inv, inv', me, outcome, joined, hok, ht, -, -, hm, hj, -, hres⟩ := hrest
    exact (hplays inv inv' hok ht).conclude hm hj hres.symm

theorem Program.doubling_wellFormed : Program.doubling.WellFormed := by
  rintro w ⟨info, hi, hw⟩
  have hi' : info = mainInfo ∨ info = doubleInfo := by simpa [doubling] using hi
  rcases hi' with rfl | rfl
  · have hw' : w = mainInfo.defaultWorker := by simpa [mainInfo] using hw
    subst hw'
    exact .of_region [0, 1] (by decide) (by decide)
  · have hw' : w = doubleInfo.defaultWorker ∨ w = ⟨"echo", 3, { ints := 1 }⟩ := by
      simpa [doubleInfo] using hw
    rcases hw' with rfl | rfl
    · exact .of_region [2, 3] (by decide) (by decide)
    · exact .of_region [3] (by decide) (by decide)

/-- With a stack that has room for one frame only, doubling ends in a fault, though in no fatal one. -/
theorem Program.doubling_never_fatal :
    ∃ run' e, Environment.runFunction ⟨.doubling, [], 1⟩ .idle 4 ⟨(), .start .empty []⟩ ⟨0⟩
        mainInfo [(.value .int, .int 21)] = some (run', .error e) ∧
      ∀ fault ∈ e.faults, fault.error.isFatal = false := by
  have ha : ∀ w ∈ mainInfo.defaultWorker :: mainInfo.workers, w.registers.Takes
      ([(Bank.value .int, Value.int 21)].map Prod.fst) := by decide
  refine ⟨_, .faulted ⟨.stackOverflow 1, [⟨"main", "default", none⟩]⟩, rfl, ?_⟩
  exact (@WellFormed.never_fatal ⟨.doubling, [], 1⟩ doubling_wellFormed ⟨0⟩ mainInfo rfl _ ha _
    ⟨rfl, rfl⟩).2.2 .idle 4 ⟨(), .start .empty []⟩ _ _ rfl rfl
end RegisterMachine
