import RegisterMachine.Proofs.Frame.Execution
import RegisterMachine.Proofs.Machine.Course
import RegisterMachine.Proofs.Native.Indifferent

/-!
# One step in two worlds

A worker takes a step in a world that it has to itself, and another one that is alike takes a step in a
world that it shares. **`Environment.step_alike`**: they do the same. What they do is told in three
parts, each for both sides at once: what becomes of the heaps (`Heap.InStep`), which lines are printed,
and which workers are started.

A worker that is started gets the arguments of the call. Those without references are the same on both
sides, whatever the link is; so the new workers are alike without any link at all, and that is what
sets them apart from the one that started them. With a collection among the arguments it would be
otherwise, which is why a call that hands one to named workers is ruled out here.
-/

namespace RegisterMachine

/-- No references go together. -/
abbrev Link.none : Link := fun _ _ => False

/-- A value that refers to nothing is alike under every link. -/
theorem Value.Alike.unlink {l k : Link} {v w : Value} (h : v.Alike l w) (hw : w.ref? = none) :
    v.Alike k w := by
  cases h with
  | scalar h => exact .scalar h
  | collection h => cases hw

theorem Frame.Alike.ArgsAlike.unlink {l k : Link} {args args' : List (Bank × Value)}
    (h : ArgsAlike l args args') (hnone : ∀ a ∈ args', a.2.ref? = none) :
    ArgsAlike k args args' := by
  induction h with
  | nil => exact .nil
  | cons hx _ ih =>
    refine .cons ⟨hx.1, hx.2.unlink (hnone _ List.mem_cons_self)⟩ (ih fun a hm => ?_)
    exact hnone a (List.mem_cons_of_mem _ hm)

theorem Heap.sameTags_none (h h' : Heap) : h.SameTags Link.none h' := by
  intro v w hv
  cases hv with
  | @scalar v hv =>
    cases v with
    | collection r => cases hv
    | _ => rfl
  | collection hr => exact hr.elim

inductive Progress.Alike (l : Link) : Progress → Progress → Prop
  | running : Alike l .running .running
  | returned {vs ws : List Value} (h : List.Forall₂ (Value.Alike l) vs ws) :
      Alike l (.returned vs) (.returned ws)
  | faulted (fault : Fault) : Alike l (.faulted fault) (.faulted fault)

abbrev CallStack.Alike (l : Link) : CallStack → CallStack → Prop := List.Forall₂ (Frame.Alike l)

structure Worker.Alike (l : Link) (v w : Worker) : Prop where
  post : v.info.post = w.info.post
  stack : v.stack.Alike l w.stack
  progress : v.progress.Alike l w.progress

inductive Flow.Alike (l : Link) : Flow → Flow → Prop
  | goOn : Alike l .goOn .goOn
  | finished {vs ws : List Value} (h : List.Forall₂ (Value.Alike l) vs ws) :
      Alike l (.finished vs) (.finished ws)

theorem Progress.Alike.isFinal {l : Link} {p q : Progress} (h : p.Alike l q) :
    p.isFinal = q.isFinal := by
  cases h with
  | running => rfl
  | returned h => rfl
  | faulted fault => rfl

theorem Progress.Alike.running_iff {l : Link} {p q : Progress} (h : p.Alike l q) :
    p = .running ↔ q = .running := by
  cases h with
  | running => exact Iff.rfl
  | returned h => simp
  | faulted fault => exact Iff.rfl

theorem CallStack.Alike.mono {l k : Link} {s t : CallStack} (h : s.Alike l t)
    (hl : ∀ r s, l r s → k r s) : s.Alike k t := h.imp fun _ _ hf => hf.mono hl

theorem CallStack.Alike.held {l : Link} {s t : CallStack} (h : s.Alike l t) :
    List.Forall₂ l s.held t.held :=
  List.rel_flatMap h fun _ _ hf => hf.regs.held

/-- A stack trace says nothing about registers. -/
theorem CallStack.Alike.trace {l : Link} {s t : CallStack} (h : s.Alike l t) (p : Program) :
    s.trace p = t.trace p := by
  refine map_eq_of_forall₂ h fun f g hf => ?_
  unfold CallStack.entryOf
  rw [hf.function, hf.worker, hf.ip, hf.entry]

/-! ## Worlds in step -/

namespace World

/-- In `world'` some workers wait behind those of `world`, and nothing else is new but the books. -/
structure Queues (world : World) (started : List Worker) (world' : World) : Prop where
  waiting : world'.waiting = world.waiting ++ started
  store : world'.store = world.store
  kept : world'.kept = world.kept

theorem Queues.nobody (world : World) : world.Queues [] world :=
  ⟨(List.append_nil _).symm, rfl, rfl⟩

/-- `world` and `world'` have become `next` and `next'` by the same step in both. -/
structure InStep (l : Link) (world world' : World) (l' : Link) (next next' : World) : Prop where
  heap : Heap.InStep l world.store.heap world'.store.heap l' next.store.heap next'.store.heap
  output : ∃ lines, next.store.output = world.store.output ++ lines ∧
    next'.store.output = world'.store.output ++ lines
  waiting : ∃ started started', next.waiting = world.waiting ++ started ∧
    next'.waiting = world'.waiting ++ started' ∧
    List.Forall₂ (Worker.Alike Link.none) started started'
  kept : next.kept = world.kept
  kept' : next'.kept = world'.kept

namespace InStep

variable {l l' : Link} {world world' : World}

/-- A step that does not reach further than the store. -/
theorem store {store store' : Store} (lines : Array String)
    (hh : Heap.InStep l world.store.heap world'.store.heap l' store.heap store'.heap)
    (ho : store.output = world.store.output ++ lines)
    (ho' : store'.output = world'.store.output ++ lines) :
    InStep l world world' l' { world with store } { world' with store := store' } where
  heap := hh
  output := ⟨lines, ho, ho'⟩
  waiting := ⟨[], [], (List.append_nil _).symm, (List.append_nil _).symm, .nil⟩
  kept := rfl
  kept' := rfl

theorem heap_only {heap heap' : Heap}
    (hh : Heap.InStep l world.store.heap world'.store.heap l' heap heap') :
    InStep l world world' l' { world with store := { world.store with heap } }
      { world' with store := { world'.store with heap := heap' } } :=
  store #[] hh Array.append_empty.symm Array.append_empty.symm

theorem refl (hw : world.store.heap.Within l world'.store.heap) :
    InStep l world world' l world world' := heap_only (.refl hw)

theorem queues {next next' : World} {started started' : List Worker}
    (hw : world.store.heap.Within l world'.store.heap) (hq : world.Queues started next)
    (hq' : world'.Queues started' next')
    (hs : List.Forall₂ (Worker.Alike Link.none) started started') :
    InStep l world world' l next next' where
  heap := by
    rw [hq.store, hq'.store]
    exact .refl hw
  output := ⟨#[], by rw [hq.store, Array.append_empty], by rw [hq'.store, Array.append_empty]⟩
  waiting := ⟨started, started', hq.waiting, hq'.waiting, hs⟩
  kept := hq.kept
  kept' := hq'.kept

end InStep

/-- Alike frames, alike workers. -/
theorem foldl_enqueue_alike {l : Link} (name : String) {frames frames' : List Frame}
    (hf : List.Forall₂ (Frame.Alike l) frames frames') (world world' : World) :
    ∃ started started', world.Queues started (frames.foldl (fun w f => w.enqueue name f) world) ∧
      world'.Queues started' (frames'.foldl (fun w f => w.enqueue name f) world') ∧
      List.Forall₂ (Worker.Alike l) started started' := by
  induction hf generalizing world world' with
  | nil => exact ⟨[], [], .nobody world, .nobody world', .nil⟩
  | @cons f g frames frames' hfg _ ih =>
    obtain ⟨started, started', hq, hq', hs⟩ := ih (world.enqueue name f) (world'.enqueue name g)
    refine ⟨.start (world.scheduler.register f.function name f.worker).2 f :: started,
      .start (world'.scheduler.register g.function name g.worker).2 g :: started',
      ⟨?_, hq.store, hq.kept⟩, ⟨?_, hq'.store, hq'.kept⟩, .cons ⟨?_, .cons hfg .nil, .running⟩ hs⟩
    · rw [List.foldl_cons, hq.waiting]
      exact List.append_assoc _ _ _
    · rw [List.foldl_cons, hq'.waiting]
      exact List.append_assoc _ _ _
    · show (⟨f.function, name, f.worker⟩ : Post) = ⟨g.function, name, g.worker⟩
      rw [hfg.function, hfg.worker]

/-- Named workers that are given no collections are alike without a link. -/
theorem spawn_alike {l : Link} {world world' : World}
    (hw : world.store.heap.Within l world'.store.heap) (id : FunctionId) (info : FunctionInfo)
    {args args' : List (Bank × Value)} (ha : Frame.Alike.ArgsAlike l args args')
    (hnone : ∀ next', world'.spawn id info args' = .ok next' → info.workers ≠ [] →
      ∀ a ∈ args', a.2.ref? = none) :
    Agree (fun next next' => ∃ started started', world.Queues started next ∧
        world'.Queues started' next' ∧ List.Forall₂ (Worker.Alike Link.none) started started')
      (world.spawn id info args) (world'.spawn id info args') := by
  have hframes : Agree (List.Forall₂ (Frame.Alike l))
      (info.workers.mapM fun w => (Frame.start id w).bind world.store.heap args)
      (info.workers.mapM fun w => (Frame.start id w).bind world'.store.heap args') :=
    Agree.mapM (T := Eq) (List.forall₂_refl _) fun w _ hww =>
      hww ▸ (Frame.Alike.start l id w).bind (fun _ _ => hw.tag) ha
  unfold spawn at hnone ⊢
  generalize hl : (info.workers.mapM fun w => (Frame.start id w).bind world.store.heap args) = x
    at hframes ⊢
  generalize hr : (info.workers.mapM fun w => (Frame.start id w).bind world'.store.heap args') = y
    at hframes hnone ⊢
  cases hframes with
  | error e => exact .error e
  | @ok frames frames' hframes =>
    refine .ok (foldl_enqueue_alike info.name ?_ world world')
    by_cases hworkers : info.workers = []
    · rw [hworkers] at hl hr
      cases hl
      cases hr
      exact .nil
    · -- the same frames once more, now that the arguments are known to be the same
      have hplain : Frame.Alike.ArgsAlike Link.none args args' :=
        Frame.Alike.ArgsAlike.unlink ha (hnone _ rfl hworkers)
      have hframes : Agree (List.Forall₂ (Frame.Alike Link.none))
          (info.workers.mapM fun w => (Frame.start id w).bind world.store.heap args)
          (info.workers.mapM fun w => (Frame.start id w).bind world'.store.heap args') :=
        Agree.mapM (T := Eq) (List.forall₂_refl _) fun w _ hww =>
          hww ▸ (Frame.Alike.start Link.none id w).bind (Heap.sameTags_none _ _) hplain
      rw [hl, hr] at hframes
      cases hframes with
      | ok h => exact h

end World

/-! ## One step -/

/-- What an executed instruction leaves on both sides. -/
def Executed.InStep (l : Link) (world world' : World) (done done' : Executed) : Prop :=
  ∃ l', World.InStep l world world' l' done.world done'.world ∧ done.stack.Alike l' done'.stack ∧
    Agree (Flow.Alike l') done.result done'.result

theorem Frame.Alike.ArgsAlike.zip {l : Link} {vs ws : List Value}
    (h : List.Forall₂ (Value.Alike l) vs ws) (banks : List Bank) :
    ArgsAlike l (banks.zip vs) (banks.zip ws) := by
  induction h generalizing banks with
  | nil =>
    rw [List.zip_nil_right]
    exact .nil
  | cons hv _ ih =>
    cases banks with
    | nil => exact .nil
    | cons b banks => exact .cons ⟨rfl, hv⟩ (ih banks)

namespace Environment

variable {env : Environment} {l : Link} {world world' : World} {stack stack' : CallStack}

/-- A call that hands no collection to named workers. -/
theorem call_alike (hw : world.store.heap.Within l world'.store.heap) (hs : stack.Alike l stack')
    (id : FunctionId) (args rets : List AnyReg)
    (hnone : ∀ r info caller below values, env.call world' stack' id args rets = .ok r →
      env.program.function? id = some info → info.workers ≠ [] → stack' = caller :: below →
      caller.readAll args = .ok values → ∀ v ∈ values, v.ref? = none) :
    Agree (fun r r' => World.InStep l world world' l r.1 r'.1 ∧ r.2.Alike l r'.2)
      (env.call world stack id args rets) (env.call world' stack' id args rets) := by
  unfold call at hnone ⊢
  cases hf : env.program.function? id with
  | none => exact .error _
  | some info =>
    rw [hf] at hnone
    dsimp only at hnone ⊢
    rw [hs.length_eq]
    by_cases hd : env.maxDepth ≤ stack'.length
    · rw [if_pos hd, if_pos hd]
      exact .error _
    rw [if_neg hd] at hnone
    rw [if_neg hd, if_neg hd]
    cases hs with
    | nil => exact .error _
    | @cons caller caller' below below' hcaller hbelow =>
      dsimp only at hnone ⊢
      refine (hcaller.readAll args).with_eq.bind fun values values' hv => ?_
      obtain ⟨hv, -, hread⟩ := hv
      rw [hread] at hnone
      have hargs := Frame.Alike.ArgsAlike.zip hv (args.map fun r => Bank.value r.bank)
      have hcallee := (((Frame.Alike.start l id info.defaultWorker).returningTo caller.ip rets).bind
        (fun _ _ => hw.tag) hargs).with_eq
      rw [hcaller.ip] at hcallee ⊢
      refine hcallee.bind fun callee callee' hc => ?_
      obtain ⟨hc, -, hbind⟩ := hc
      dsimp only [Bind.bind, Except.bind] at hnone
      rw [hbind] at hnone
      refine (World.spawn_alike hw id info hargs ?_).bind fun next next' hq => ?_
      · intro next' hspawn hworkers a ha
        rw [hspawn] at hnone
        exact hnone _ info caller' below' values' rfl rfl hworkers rfl hread _ (List.of_mem_zip ha).2
      · obtain ⟨started, started', hq, hq', hstarted⟩ := hq
        exact .ok ⟨.queues hw hq hq' hstarted, .cons hc (.cons hcaller hbelow)⟩

theorem ret_alike (hw : world.store.heap.Within l world'.store.heap) (hs : stack.Alike l stack')
    (regs : List AnyReg) :
    Executed.InStep l world world' (ret world stack regs) (ret world' stack' regs) := by
  have hrefl := World.InStep.refl hw
  unfold ret
  cases hs with
  | nil => exact ⟨l, hrefl, .nil, .error _⟩
  | @cons callee callee' below below' hcallee hbelow =>
    have hread := hcallee.readAll regs
    dsimp only
    generalize callee.readAll regs = x at hread
    generalize callee'.readAll regs = y at hread
    cases hread with
    | error e => exact ⟨l, hrefl, .cons hcallee hbelow, .error _⟩
    | @ok values values' hv =>
      dsimp only
      rw [hcallee.returnTo, hcallee.rets]
      cases callee'.returnTo with
      | none => exact ⟨l, hrefl, hbelow, .ok (.finished hv)⟩
      | some ip =>
        cases hbelow with
        | nil => exact ⟨l, hrefl, .nil, .error _⟩
        | @cons caller caller' rest rest' hcaller hrest =>
          have hback := hcaller.goTo ip
          have hwrite := hback.writeAll (fun _ _ => hw.tag) callee'.rets hv
          dsimp only
          generalize Frame.writeAll world.store.heap _ _ _ = x at hwrite
          generalize Frame.writeAll world'.store.heap _ _ _ = y at hwrite
          cases hwrite with
          | ok hg => exact ⟨l, hrefl, .cons hg hrest, .ok .goOn⟩
          | error e => exact ⟨l, hrefl, .cons hback hrest, .error _⟩

theorem nativeCall_alike {name : String}
    (hn : ∀ native, env.natives.lookup name = some native → native.Indifferent)
    (hw : world.store.heap.Within l world'.store.heap) (hs : stack.Alike l stack')
    (info info' : WorkerInstance) (args rets : List AnyReg) :
    Executed.InStep l world world' (env.nativeCall world info stack name args rets)
      (env.nativeCall world' info' stack' name args rets) := by
  have hrefl := World.InStep.refl hw
  unfold nativeCall
  cases hnative : env.natives.lookup name with
  | none => exact ⟨l, hrefl, hs, .error _⟩
  | some native =>
    cases hs with
    | nil => exact ⟨l, hrefl, .nil, .error _⟩
    | @cons f f' below below' hf hbelow =>
      have hread := hf.readAll args
      dsimp only
      generalize f.readAll args = x at hread
      generalize f'.readAll args = y at hread
      cases hread with
      | error e => exact ⟨l, hrefl, .cons hf hbelow, .error _⟩
      | @ok values values' hv =>
        obtain ⟨l', lines, hheap, hout, hout', hresult⟩ :=
          hn native hnative l world.store world'.store info info' values values' hw hv
        have hstore := World.InStep.store lines hheap hout hout'
        have hstack : List.Forall₂ (Frame.Alike l') (f :: below) (f' :: below') :=
          CallStack.Alike.mono (.cons hf hbelow) fun _ _ => hheap.le
        dsimp only
        generalize (native info world.store values).2 = x at hresult
        generalize (native info' world'.store values').2 = y at hresult
        cases hresult with
        | error e => exact ⟨l', hstore, hstack, .error _⟩
        | @ok results results' hr =>
          cases hstack with
          | cons hf hbelow =>
            have hwrite := hf.writeAll (fun _ _ => hheap.within.tag) rets hr
            dsimp only
            generalize Frame.writeAll (native info world.store values).1.heap _ _ _ = x at hwrite
            generalize Frame.writeAll (native info' world'.store values').1.heap _ _ _ = y at hwrite
            cases hwrite with
            | ok hg => exact ⟨l', hstore, .cons hg hbelow, .ok .goOn⟩
            | error e => exact ⟨l', hstore, .cons hf hbelow, .error _⟩

/-- The values of the arguments of a call that the worker is about to make. -/
def handed (env : Environment) (w : Worker) : List Value :=
  match w.stack with
  | [] => []
  | f :: _ =>
      match env.program.instruction? f.ip with
      | some (.call _ args _) => ((f.readAll args).toOption).getD []
      | _ => []

/-- The native functions that the program calls are indifferent. -/
def CallsIndifferent (env : Environment) : Prop :=
  ∀ ip name args rets native, env.program.instruction? ip = some (.nativeCall name args rets) →
    env.natives.lookup name = some native → native.Indifferent

/-- The step of the worker is no call that hands a collection to named workers. -/
def HandsNone (env : Environment) (world : World) (w : Worker) : Prop :=
  ∀ id info, env.called? world w = some (id, info) → info.workers ≠ [] →
    ∀ v ∈ env.handed w, v.ref? = none

/-- Instructions that work within a frame. -/
theorem execute_local_alike {f f' : Frame} {below below' : CallStack}
    (hw : world.store.heap.Within l world'.store.heap)
    (hs : CallStack.Alike l (f :: below) (f' :: below'))
    (hheld : ∀ r s, l r s → world.isHeld (f :: below) r = world'.isHeld (f' :: below') s)
    (info info' : WorkerInstance) {i : Instruction} (hi : i.isLocal = true) :
    Executed.InStep l world world' (env.execute world info (f :: below) i)
      (env.execute world' info' (f' :: below') i) := by
  obtain ⟨hf, hbelow⟩ := List.forall₂_cons.mp hs
  have hexec := Frame.exec_alike env.program hw hheld hf i
  rw [env.execute_local world info f below hi, env.execute_local world' info' f' below' hi]
  generalize f.exec env.program _ _ i = x at hexec
  generalize f'.exec env.program _ _ i = y at hexec
  cases hexec with
  | error e => exact ⟨l, .refl hw, hs, .error _⟩
  | @ok a b hab =>
    obtain ⟨l', hheap, hg⟩ := hab
    exact ⟨l', .heap_only hheap, .cons hg (hbelow.imp fun _ _ h => h.mono fun _ _ => hheap.le),
      .ok .goOn⟩

theorem advance_alike (hn : env.CallsIndifferent)
    (hw : world.store.heap.Within l world'.store.heap) {v w : Worker} (hs : v.stack.Alike l w.stack) (hp : w.progress = .running)
    (hheld : ∀ r s, l r s → world.isHeld v.stack r = world'.isHeld w.stack s)
    (hnone : env.HandsNone world' w) :
    Executed.InStep l world world' (env.advance world v.info v.stack)
      (env.advance world' w.info w.stack) := by
  unfold HandsNone handed at hnone
  generalize hv' : v.stack = stack at hs hheld ⊢
  generalize hw' : w.stack = stack' at hs hheld hnone ⊢
  cases hs with
  | nil => exact ⟨l, .refl hw, .nil, .error _⟩
  | @cons f f' below below' hf hbelow =>
    have hpast : CallStack.Alike l (f.past :: below) (f'.past :: below') := .cons hf.past hbelow
    unfold advance
    dsimp only at hnone ⊢
    cases hi : env.program.instruction? f'.ip with
    | none =>
      rw [hf.ip, hi]
      exact ⟨l, .refl hw, .cons hf hbelow, .error _⟩
    | some i =>
      rw [show env.program.instruction? f.ip = some i by rw [hf.ip, hi]]
      rw [hi] at hnone
      -- moving past the instruction changes no register, so it changes nothing that is held
      by_cases hl : i.isLocal = true
      · exact env.execute_local_alike hw hpast hheld v.info w.info hl
      cases i with
      | ret regs => exact ret_alike hw hpast regs
      | nativeCall name args rets =>
        exact nativeCall_alike (fun native => hn _ name args rets native hi) hw hpast v.info w.info args rets
      | call id args rets =>
        have hcall := env.call_alike hw hpast id args rets ?_
        · simp only [execute]
          generalize env.call world (f.past :: below) id args rets = x at hcall
          generalize env.call world' (f'.past :: below') id args rets = y at hcall
          cases hcall with
          | ok hr => exact ⟨l, hr.1, hr.2, .ok .goOn⟩
          | error e => exact ⟨l, .refl hw, hpast, .error _⟩
        · intro r info caller below values hr hinfo hworkers hstack hread u hu
          have hcalled := env.called?_of_call world' hp hw' hi hr hinfo
          refine hnone id info hcalled hworkers u ?_
          cases hstack
          have hread' : f'.readAll args = .ok values := hread
          dsimp only
          rw [hread']
          exact hu
      | _ => exact absurd rfl hl

/-- **A step does the same in both worlds**, if the natives are indifferent and no collection is handed
to named workers. -/
theorem step_alike (hn : env.CallsIndifferent)
    (hw : world.store.heap.Within l world'.store.heap) {v w : Worker}
    (hv : v.Alike l w) (hheld : ∀ r s, l r s → world.isHeld v.stack r = world'.isHeld w.stack s)
    (hnone : env.HandsNone world' w) :
    ∃ l', World.InStep l world world' l' (env.step world v).1 (env.step world' w).1 ∧
      (env.step world v).2.Alike l' (env.step world' w).2 := by
  by_cases hp : w.progress = .running
  · have hp' := hv.progress.running_iff.mpr hp
    obtain ⟨l', hworld, hstack, hresult⟩ := env.advance_alike hn hw hv.stack hp hheld hnone
    unfold step
    rw [hp, hp']
    dsimp only
    generalize env.advance world v.info v.stack = done at hworld hstack hresult ⊢
    generalize env.advance world' w.info w.stack = done' at hworld hstack hresult ⊢
    obtain ⟨next, stack, result⟩ := done
    obtain ⟨next', stack', result'⟩ := done'
    dsimp only at hworld hstack hresult ⊢
    cases hresult with
    | error e =>
      refine ⟨l', hworld, hv.post, .nil, ?_⟩
      dsimp only
      rw [hstack.trace env.program]
      exact .faulted _
    | ok hflow =>
      cases hflow with
      | goOn => exact ⟨l', hworld, hv.post, hstack, .running⟩
      | finished hvalues => exact ⟨l', hworld, hv.post, hstack, .returned hvalues⟩
  · have hp' := fun h => hp (hv.progress.running_iff.mp h)
    rw [env.step_of_not_running world hp', env.step_of_not_running world' hp]
    exact ⟨l, .refl hw, hv⟩

end Environment

end RegisterMachine
