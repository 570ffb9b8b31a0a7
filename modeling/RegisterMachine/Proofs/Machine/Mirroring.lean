import RegisterMachine.Proofs.Machine.Draining
import RegisterMachine.Proofs.Machine.SideBySide
import RegisterMachine.Proofs.Machine.Tasks
import RegisterMachine.Proofs.Value.Ownership

/-!
# An invocation and its pool

The workers of an invocation share a world, and yet each of them might as well have one to itself as long
as nobody hands a collection to a worker that is started. `Invocation.Mirrors` ties an invocation to a
`Pool` with a task for each worker that waits and a report for each that has ended: the heap of the
invocation is in parts, and the part of each worker is, under the link of that worker, the whole heap
of its task.

A turn of the one is a step of the other (`Invocation.Mirrors.turn`), whoever's turn it is, and so a course
of the one is a run of the other (**`Invocation.Mirrors.course`**).
-/

namespace RegisterMachine

/-! ## Lines and kept values -/

/-- The lines of one worker, in the order in which it printed them. -/
def linesOf (deeds : List Deed) (who : WorkerInstance) : List String :=
  (deeds.filter fun d => d.who = who).flatMap Deed.printed

theorem linesOf_concat_self (deeds : List Deed) (d : Deed) :
    linesOf (deeds ++ [d]) d.who = linesOf deeds d.who ++ d.printed := by
  simp [linesOf]

theorem linesOf_concat_of_ne (deeds : List Deed) {d : Deed} {who : WorkerInstance}
    (h : d.who ≠ who) : linesOf (deeds ++ [d]) who = linesOf deeds who := by
  simp [linesOf, h]

theorem linesOf_eq_nil {deeds : List Deed} {who : WorkerInstance} (h : ∀ d ∈ deeds, d.who ≠ who) :
    linesOf deeds who = [] := by
  simpa [linesOf] using fun d hd he => absurd he (h d hd)

/-- What is kept is kept for the main worker. -/
def World.keptFor (world : World) (main id : Nat) : List Ref :=
  if id = main then world.kept.filterMap Value.ref? else []

theorem Progress.Alike.outcome {l : Link} {p q : Progress} (h : p.Alike l q) :
    Agree (List.Forall₂ (Value.Alike l)) p.outcome q.outcome := by
  cases h with
  | running => exact .ok .nil
  | returned h => exact .ok h
  | faulted fault => exact .error fault

/-! ## Mirroring -/

/-- A worker of an invocation and a task do the same. -/
structure Task.Mirrors (own : Ownership) (world : World) (main : Nat) (deeds : List Deed)
    (w : Worker) (t : Task) : Prop where
  heap : t.world.store.heap.Within (own w.info.id) world.store.heap
  worker : t.worker.Alike (own w.info.id) w
  alone : t.world.waiting = []
  isMain : t.main = true ↔ w.info.id = main
  kept : List.Forall₂ (own w.info.id) (t.world.kept.filterMap Value.ref?)
    (world.keptFor main w.info.id)
  output : t.world.store.output.toList = linesOf deeds w.info

/-- They have done the same. -/
structure Task.Report.Mirrors (own : Ownership) (heap : Heap) (main : Nat) (deeds : List Deed)
    (x : WorkerInstance × Outcome) (report : Task.Report) : Prop where
  heap : report.heap.Within (own x.1.id) heap
  outcome : Agree (List.Forall₂ (Value.Alike (own x.1.id))) report.outcome x.2
  isMain : report.main = true ↔ x.1.id = main
  post : report.post = x.1.post
  output : report.output.toList = linesOf deeds x.1

/-- What there is in the world is divided among workers that have been counted in. -/
structure World.Divided (own : Ownership) (world : World) (main : Nat) (deeds : List Deed) :
    Prop where
  parts : own.Parts world.store.heap
  counted {i : Nat} {r s : Ref} : own i r s → i < world.scheduler.nextId
  countedMain : main < world.scheduler.nextId
  kept {s : Ref} : s ∈ world.kept.filterMap Value.ref? → ∃ r, own main r s
  doers {d : Deed} : d ∈ deeds → d.who.id < world.scheduler.nextId

structure Invocation.Mirrors (own : Ownership) (inv : Invocation) (deeds : List Deed) (p : Pool) :
    Prop where
  divided : inv.world.Divided own inv.main deeds
  tasks : Multiset.Rel (Task.Mirrors own inv.world inv.main deeds) inv.world.waiting p.tasks
  reports : Multiset.Rel (Task.Report.Mirrors own inv.world.store.heap inv.main deeds) inv.ended
    p.reports

theorem rel_coe {α β : Type} {R : α → β → Prop} {l : List α} {m : List β}
    (h : List.Forall₂ R l m) : Multiset.Rel R l m := by
  induction h with
  | nil => exact .zero
  | cons hab _ ih => exact .cons hab ih

/-- A worker ends. -/
theorem Task.Mirrors.report {own : Ownership} {world : World} {main : Nat} {deeds : List Deed}
    {w : Worker} {t : Task} (hm : Task.Mirrors own world main deeds w t) :
    Task.Report.Mirrors own world.store.heap main deeds (w.info, w.progress.outcome) t.report where
  heap := hm.heap
  outcome := hm.worker.progress.outcome
  isMain := hm.isMain
  post := hm.worker.post
  output := hm.output

/-- Of the world only the heap and what is kept count. -/
theorem Task.Mirrors.congr {own : Ownership} {world world' : World} {main : Nat}
    {deeds : List Deed} {w : Worker} {t : Task} (hm : Task.Mirrors own world main deeds w t)
    (hh : world'.store.heap = world.store.heap)
    (hk : world'.keptFor main w.info.id = world.keptFor main w.info.id) :
    Task.Mirrors own world' main deeds w t :=
  { hm with
    heap := hh ▸ hm.heap
    kept := hk ▸ hm.kept }

/-! ## A step -/

section Step

variable {own : Ownership} {world world' : World} {main : Nat} {deeds : List Deed} {d : Deed}
  {l' : Link} {h k : Heap}

theorem World.Divided.doers_concat (hd : world.Divided own main deeds)
    (hid : d.who.id < world.scheduler.nextId) :
    ∀ e ∈ deeds ++ [d], e.who.id < world.scheduler.nextId :=
  List.forall_mem_append.mpr ⟨fun _ he => hd.doers he, List.forall_mem_singleton.mpr hid⟩

theorem World.Divided.step (hd : world.Divided own main deeds)
    (hs : Heap.InStep (own d.who.id) h world.store.heap l' k world'.store.heap)
    (hk : world'.kept = world.kept) (hid : d.who.id < world.scheduler.nextId)
    (hnext : world.scheduler.nextId ≤ world'.scheduler.nextId) :
    world'.Divided (Function.update own d.who.id l') main (deeds ++ [d]) where
  parts := hd.parts.inStep hs
  counted hr := by
    rcases Ownership.Parts.of_update hs hr with hold | ⟨rfl, -⟩
    · exact Nat.lt_of_lt_of_le (hd.counted hold) hnext
    · exact Nat.lt_of_lt_of_le hid hnext
  countedMain := Nat.lt_of_lt_of_le hd.countedMain hnext
  kept hs' := by
    rw [hk] at hs'
    obtain ⟨r, hr⟩ := hd.kept hs'
    exact ⟨r, Ownership.Parts.le_update hs hr⟩
  doers hm := Nat.lt_of_lt_of_le (hd.doers_concat hid _ hm) hnext

/-- A step of one worker is nothing to another. -/
theorem Task.Mirrors.bystander {w : Worker} {t : Task}
    (hm : Task.Mirrors own world main deeds w t) (hp : own.Parts world.store.heap)
    (hs : Heap.InStep (own d.who.id) h world.store.heap l' k world'.store.heap)
    (hk : world'.kept = world.kept) (hne : w.info.id ≠ d.who.id) :
    Task.Mirrors (Function.update own d.who.id l') world' main (deeds ++ [d]) w t where
  heap := hp.kept hs hne hm.heap
  worker := by
    rw [Function.update_of_ne hne]
    exact hm.worker
  alone := hm.alone
  isMain := hm.isMain
  kept := by
    rw [Function.update_of_ne hne, World.keptFor, hk]
    exact hm.kept
  output := by
    rw [linesOf_concat_of_ne deeds fun he => hne (congrArg WorkerInstance.id he).symm]
    exact hm.output

theorem Task.Report.Mirrors.bystander {x : WorkerInstance × Outcome} {report : Task.Report}
    (hm : Task.Report.Mirrors own world.store.heap main deeds x report)
    (hp : own.Parts world.store.heap)
    (hs : Heap.InStep (own d.who.id) h world.store.heap l' k world'.store.heap)
    (hne : x.1.id ≠ d.who.id) :
    Task.Report.Mirrors (Function.update own d.who.id l') world'.store.heap main (deeds ++ [d]) x
      report where
  heap := hp.kept hs hne hm.heap
  outcome := by
    rw [Function.update_of_ne hne]
    exact hm.outcome
  isMain := hm.isMain
  post := hm.post
  output := by
    rw [linesOf_concat_of_ne deeds fun he => hne (congrArg WorkerInstance.id he).symm]
    exact hm.output

/-- Who has just been started owns nothing, and has done nothing. -/
theorem Task.Mirrors.fresh {v w : Worker} (ha : v.Alike Link.none w)
    (hnone : ∀ r s, ¬ own w.info.id r s) (hmain : w.info.id ≠ main)
    (hdeeds : ∀ d ∈ deeds, d.who.id ≠ w.info.id) :
    Task.Mirrors own world main deeds w (.fresh v) := by
  have hown : own w.info.id = Link.none := by
    funext r s
    exact eq_false (hnone r s)
  exact {
    heap := hown ▸ .empty _
    worker := hown ▸ ha
    alone := rfl
    isMain := ⟨fun hf => absurd hf Bool.false_ne_true, fun he => absurd he hmain⟩
    kept := by
      rw [World.keptFor, if_neg hmain]
      exact .nil
    output := (linesOf_eq_nil fun d hd he => hdeeds d hd (congrArg WorkerInstance.id he)).symm }

/-- All that have been started in the step. -/
theorem Task.Mirrors.started {started started' : List Worker} (hd : world.Divided own main deeds)
    (hs : Heap.InStep (own d.who.id) h world.store.heap l' k world'.store.heap)
    (hid : d.who.id < world.scheduler.nextId)
    (ha : List.Forall₂ (Worker.Alike Link.none) started started')
    (hnew : ∀ c ∈ started', world.scheduler.nextId ≤ c.info.id) :
    Multiset.Rel (Task.Mirrors (Function.update own d.who.id l') world' main (deeds ++ [d]))
      started' (started.map Task.fresh) := by
  have hlt : ∀ c ∈ started', ∀ i, i < world.scheduler.nextId → i ≠ c.info.id :=
    fun c hc i hi he => absurd (he ▸ hi) (Nat.not_lt.mpr (hnew c hc))
  rw [← Multiset.map_coe, Multiset.rel_map_right]
  refine (rel_coe ha.flip).mono fun c hc v _ hv => Task.Mirrors.fresh hv ?_ ?_ ?_
  · intro r s hr
    rcases Ownership.Parts.of_update hs hr with hr | ⟨he, -⟩
    · exact hlt c hc _ (hd.counted hr) rfl
    · exact hlt c hc _ hid he.symm
  · exact (hlt c hc _ hd.countedMain).symm
  · exact fun e he => hlt c hc _ (hd.doers_concat hid e he)

variable {env : Environment} {w : Worker} {t : Task}

/-- The worker that takes the step, and its task. -/
theorem Task.Mirrors.step (hm : Task.Mirrors own world main deeds w t)
    (hs : World.InStep (own w.info.id) t.world world l' (env.step t.world t.worker).1
      (env.step world w).1)
    (ha : (env.step t.world t.worker).2.Alike l' (env.step world w).2) :
    Task.Mirrors (Function.update own w.info.id l') (env.step world w).1 main
      (deeds ++ [env.deed world w]) (env.step world w).2 (t.next env) := by
  have hinfo := env.step_info world w
  have hmine : Function.update own w.info.id l' (env.step world w).2.info.id = l' := by
    rw [hinfo, Function.update_self]
  -- the deed has the lines that the task has printed as well
  obtain ⟨lines, hlines, hlines'⟩ := hs.output
  have hprinted : (env.deed world w).printed = lines.toList := by
    show (env.step world w).1.store.output.toList.drop world.store.output.size = _
    rw [hlines', Array.toList_append, ← Array.length_toList, List.drop_left]
  exact {
    heap := by
      rw [hmine]
      exact hs.heap.within
    worker := by
      rw [hmine]
      exact ha
    alone := rfl
    isMain := hinfo ▸ hm.isMain
    kept := by
      rw [hmine, hinfo, World.keptFor, hs.kept']
      show List.Forall₂ l' ((env.step t.world t.worker).1.kept.filterMap _) _
      rw [hs.kept]
      exact hm.kept.imp fun _ _ => hs.heap.le
    output := by
      rw [hinfo, show w.info = (env.deed world w).who from rfl, linesOf_concat_self, hprinted]
      show (env.step t.world t.worker).1.store.output.toList = _
      rw [hlines, Array.toList_append, hm.output]
      rfl }

/-- Both sides hold on to the same objects: others hold none that this worker could ask about. -/
theorem Task.Mirrors.isHeld {rest : Multiset Task} (hm : Task.Mirrors own world main deeds w t)
    (hd : world.Divided own main deeds)
    (hrest : Multiset.Rel (Task.Mirrors own world main deeds) world.waiting rest)
    (hne : ∀ v ∈ world.waiting, v.info.id ≠ w.info.id) {r s : Ref} (hr : own w.info.id r s) :
    t.world.isHeld t.worker.stack r = world.isHeld w.stack s := by
  refine hd.parts.isHeld hm.heap (fun r s hr => ?_) hr
  have hothers : s ∉ world.waiting.flatMap fun v => v.stack.held := by
    intro hs
    obtain ⟨v, hv, hs⟩ := List.mem_flatMap.mp hs
    obtain ⟨u, -, hu⟩ := Multiset.exists_mem_of_rel_of_mem hrest (Multiset.mem_coe.mpr hv)
    obtain ⟨r', -, hr'⟩ := exists_of_forall₂_right hu.worker.stack.held hs
    exact hne v hv (hd.parts.disjoint hr' hr)
  have hkept : r ∈ t.world.kept.filterMap Value.ref? ↔ s ∈ world.kept.filterMap Value.ref? := by
    have hk := hm.kept
    unfold World.keptFor at hk
    by_cases hmain : w.info.id = main
    · rw [if_pos hmain] at hk
      exact hm.heap.mem_iff hk hr
    · rw [if_neg hmain, List.forall₂_nil_right_iff] at hk
      rw [hk]
      refine ⟨fun hm => absurd hm List.not_mem_nil, fun hs => ?_⟩
      obtain ⟨r', hr'⟩ := hd.kept hs
      exact absurd (hd.parts.disjoint hr hr') hmain
  unfold World.roots
  rw [hm.alone, List.mem_append, List.mem_append, List.mem_append, List.mem_append, hkept,
    hm.heap.mem_iff hm.worker.stack.held hr]
  simp only [List.flatMap_nil, List.not_mem_nil, or_false, hothers]

end Step

/-! ## A turn -/

theorem World.Divided.congr {own : Ownership} {world world' : World} {main : Nat}
    {deeds : List Deed} (hd : world.Divided own main deeds)
    (hh : world'.store.heap = world.store.heap)
    (hn : world'.scheduler.nextId = world.scheduler.nextId)
    (hk : ∀ s ∈ world'.kept.filterMap Value.ref?, ∃ r, own main r s) :
    world'.Divided own main deeds where
  parts := hh ▸ hd.parts
  counted hr := hn ▸ hd.counted hr
  countedMain := hn ▸ hd.countedMain
  kept hs := hk _ hs
  doers hm := hn ▸ hd.doers hm

/-- Nobody ever hands a collection to a function with named workers, whatever turns are taken. -/
def Environment.KeepsApart (env : Environment) (inv : Invocation) : Prop :=
  ∀ inv' before w after, env.Plays inv inv' → inv'.world.waiting = before ++ w :: after →
    env.HandsNone { inv'.world with waiting := before ++ after } w

namespace Invocation

variable {own : Ownership} {inv : Invocation} {world : World} {w : Worker} {deeds : List Deed}
  {t : Task} {rest : Multiset Task} {reports : Multiset Task.Report}

/-- The worker goes on or has ended, and so does its task. -/
theorem mirrors_takeBack (hd : world.Divided own inv.main deeds)
    (ht : Task.Mirrors own world inv.main deeds w t)
    (hrest : Multiset.Rel (Task.Mirrors own world inv.main deeds) world.waiting rest)
    (hreports : Multiset.Rel (Task.Report.Mirrors own world.store.heap inv.main deeds) inv.ended
      reports)
    (hne : ∀ v ∈ world.waiting, v.info.id ≠ w.info.id) :
    (inv.takeBack world w).Mirrors own deeds
      ⟨(if t.worker.progress.isFinal then 0 else {t}) + rest,
        (if t.worker.progress.isFinal then {t.report} else 0) + reports⟩ := by
  rw [ht.worker.progress.isFinal]
  cases hf : w.progress.isFinal with
  | false =>
    rw [takeBack_of_running hf, if_neg Bool.false_ne_true, if_neg Bool.false_ne_true,
      Multiset.zero_add]
    refine ⟨hd.congr rfl rfl fun s hs => hd.kept hs, ?_, hreports⟩
    show Multiset.Rel (Task.Mirrors own _ _ deeds) (w ::ₘ world.waiting) (t ::ₘ rest)
    exact .cons (ht.congr rfl rfl) (hrest.mono fun v _ u _ hu => hu.congr rfl rfl)
  | true =>
    rw [if_pos rfl, if_pos rfl, Multiset.zero_add]
    have hended : Multiset.Rel (Task.Report.Mirrors own world.store.heap inv.main deeds)
        (inv.ended ++ [(w.info, w.progress.outcome)] : List _) ({t.report} + reports) := by
      rw [← Multiset.coe_add, Multiset.add_comm]
      exact .add (.cons ht.report .zero) hreports
    by_cases hm : w.info.id = inv.main
    · rw [takeBack_main hf hm]
      refine ⟨hd.congr rfl (Scheduler.nextId_complete _ _ _) fun s hs => ?_,
        hrest.mono fun v hv u _ hu => hu.congr rfl ?_, hended⟩
      · -- what the main worker has returned is its own
        rcases List.mem_append.mp (List.filterMap_append ▸ hs) with hs | hs
        · have hvalues : List.Forall₂ (Value.Alike (own inv.main)) t.worker.progress.outcome.values
              w.progress.outcome.values := by
            have ha := ht.worker.progress.outcome
            rw [hm] at ha
            generalize t.worker.progress.outcome = x at ha ⊢
            generalize w.progress.outcome = y at ha ⊢
            cases ha with
            | ok h => exact h
            | error e => exact .nil
          obtain ⟨r, -, hr⟩ := exists_of_forall₂_right (forall₂_filterMap_ref? hvalues) hs
          exact ⟨r, hr⟩
        · exact hd.kept hs
      · have hother : v.info.id ≠ inv.main := hm ▸ hne v hv
        unfold World.keptFor
        rw [if_neg hother, if_neg hother]
    · rw [takeBack_other hf hm]
      exact ⟨hd.congr rfl (Scheduler.nextId_complete _ _ _) fun s hs => hd.kept hs,
        hrest.mono fun v _ u _ hu => hu.congr rfl rfl, hended⟩

namespace Mirrors

variable {env : Environment} {p : Pool} {first : Nat} {crew : List WorkerInstance}

/-- A worker is handed the world for its turn. -/
theorem hand (hm : inv.Mirrors own deeds p) {before after : List Worker}
    (hw : inv.world.waiting = before ++ w :: after) {shared : World}
    (hs : shared = { inv.world with waiting := before ++ after }) :
    ∃ t rest, p.tasks = t ::ₘ rest ∧ shared.Divided own inv.main deeds ∧
      Task.Mirrors own shared inv.main deeds w t ∧
      Multiset.Rel (Task.Mirrors own shared inv.main deeds) shared.waiting rest ∧
      Multiset.Rel (Task.Report.Mirrors own shared.store.heap inv.main deeds) inv.ended
        p.reports := by
  subst hs
  have hperm : (before ++ w :: after).Perm (w :: (before ++ after)) := List.perm_middle
  have htasks := hm.tasks
  rw [hw, Multiset.coe_eq_coe.mpr hperm, ← Multiset.cons_coe, Multiset.rel_cons_left] at htasks
  obtain ⟨t, rest, ht, hrest, hp⟩ := htasks
  exact ⟨t, rest, hp, hm.divided.congr rfl rfl fun s hs => hm.divided.kept hs, ht.congr rfl rfl,
    hrest.mono fun v _ u _ hu => hu.congr rfl rfl, hm.reports⟩

/-- **A turn in the invocation is a step in the pool.** -/
theorem turn (hm : inv.Mirrors own deeds p) (hn : env.CallsIndifferent)
    (hb : inv.Balanced first crew) {before after : List Worker}
    (hw : inv.world.waiting = before ++ w :: after) {shared : World}
    (hshared : shared = { inv.world with waiting := before ++ after })
    (hnone : env.HandsNone shared w) :
    ∃ own' q, Pool.Step env p q ∧
      (inv.takeBack (env.step shared w).1 (env.step shared w).2).Mirrors own'
        (deeds ++ [env.deed shared w]) q := by
  obtain ⟨t, rest, hp, hd, ht, hrest, hreports⟩ := hm.hand hw hshared
  have hbooks : shared.scheduler.Accounts first crew (w.info :: shared.waiting.map Worker.info)
      inv.ended := by
    subst hshared
    refine Scheduler.Accounts.perm hb ?_
    rw [hw, ← List.map_cons]
    exact List.perm_middle.map _
  have hid : w.info.id < shared.scheduler.nextId := hbooks.id_lt List.mem_cons_self
  have hothers : ∀ v ∈ shared.waiting, v.info.id ≠ w.info.id := fun v hv =>
    hbooks.id_ne (.inl (List.mem_map_of_mem hv))
  -- the step, on both sides
  obtain ⟨l', hworld, hworker⟩ := env.step_alike hn ht.heap ht.worker
    (fun r s hr => ht.isHeld hd hrest hothers hr) hnone
  obtain ⟨started, started', hfresh, hfresh', halike⟩ := hworld.waiting
  obtain ⟨added, hstarts, -⟩ := env.step_adds shared w
  obtain rfl : started' = added := List.append_cancel_left (hfresh'.symm.trans hstarts.waiting)
  have hnew : ∀ c ∈ started', shared.scheduler.nextId ≤ c.info.id := fun c hc =>
    (hstarts.ids c hc).1
  have htasks : t.started env = started.map Task.fresh := by
    unfold Task.started
    rw [hfresh, ht.alone, List.nil_append]
  -- and what it leaves
  refine ⟨Function.update own w.info.id l', _, ⟨t, rest, hp, rfl⟩, ?_⟩
  unfold Task.left Task.done
  rw [Multiset.add_assoc]
  refine mirrors_takeBack
    (hd.step (d := env.deed shared w) hworld.heap hworld.kept' hid
      (hstarts.nextId ▸ Nat.le_add_right _ _))
    (ht.step hworld hworker) ?_ ?_ fun v hv => ?_
  · rw [hfresh', ← Multiset.coe_add, Multiset.add_comm, htasks]
    exact .add (Task.Mirrors.started hd (d := env.deed shared w) hworld.heap hid halike hnew)
      (hrest.mono fun v hv u _ hu =>
        hu.bystander (d := env.deed shared w) hd.parts hworld.heap hworld.kept' (hothers v hv))
  · exact hreports.mono fun x hx r _ hr =>
      hr.bystander (d := env.deed shared w) hd.parts hworld.heap
        (hbooks.id_ne (.inr (List.mem_map_of_mem hx)))
  · rw [env.step_info]
    rw [hfresh'] at hv
    rcases List.mem_append.mp hv with hv | hv
    · exact hothers v hv
    · exact fun he => absurd (he ▸ hid) (Nat.not_lt.mpr (hnew v hv))

/-- **A course of the invocation is a run of the pool.** -/
theorem course {inv' : Invocation} (hm : inv.Mirrors own [] p) (hn : env.CallsIndifferent)
    (hb : inv.Balanced first crew) (hapart : env.KeepsApart inv) (hc : env.Course inv deeds inv') :
    ∃ own' q, Relation.ReflTransGen (Pool.Step env) p q ∧ inv'.Mirrors own' deeds q := by
  induction hc with
  | start => exact ⟨own, p, .refl, hm⟩
  | turn hc hw ih =>
    obtain ⟨own', q, hpq, hm'⟩ := ih
    obtain ⟨joining, hb', -⟩ := hb.course hc
    obtain ⟨own'', q', hstep, hm''⟩ := hm'.turn hn hb' hw rfl (hapart _ _ _ _ hc.plays hw)
    exact ⟨own'', q', hpq.tail hstep, hm''⟩

end Mirrors

end Invocation

end RegisterMachine
