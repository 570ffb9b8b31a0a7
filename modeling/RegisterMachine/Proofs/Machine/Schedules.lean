import RegisterMachine.Proofs.Machine.Mirroring
import RegisterMachine.Proofs.Value.Sameness

/-!
# Whose turn it is makes no difference

Workers of an invocation have one heap, so which of them goes first decides where in it their objects
are. It decides nothing else, provided that no collection is ever handed to a worker that is started:
**`Environment.schedules_agree`**. Two courses that leave nobody at work have had the same workers, and
those have come to the same outcomes and printed the same lines.

Each course is a run of a pool, from the same one (`World.launch_mirrors`), and a pool has one end.

That no collection is handed over is a property of runs, `Environment.KeepsApart`. Code can be looked
at instead: `Program.SharesNothing` is enough, and it can be computed.
-/

namespace RegisterMachine

/-! ## Setting up -/

/-- Arguments that refer to nothing that is not there are alike to themselves. -/
theorem Heap.argsAlike_self {h : Heap} {args : List (Bank × Value)}
    (hcovers : ∀ a ∈ args, h.Covers a.2) : Frame.Alike.ArgsAlike h.itself args args :=
  List.forall₂_same.mpr fun a ha => ⟨rfl, (hcovers a ha).alike⟩

theorem Heap.Sealed.bind_alike {h : Heap} (hs : h.Sealed) {args : List (Bank × Value)}
    (hcovers : ∀ a ∈ args, h.Covers a.2) {id : FunctionId} {w : WorkerInfo} {frame : Frame}
    (hb : (Frame.start id w).bind h args = .ok frame) : frame.Alike h.itself frame := by
  have hframe := (Frame.Alike.start h.itself id w).bind (fun _ _ => hs.within.tag)
    (argsAlike_self hcovers)
  rw [hb] at hframe
  cases hframe with
  | ok hframe => exact hframe

/-- Workers that have been given no collection refer to nothing. -/
theorem World.spawn_unlinked (world : World) {world' : World} {id : FunctionId} {info : FunctionInfo}
    {args : List (Bank × Value)} (hs : world.store.heap.Sealed)
    (hcovers : ∀ a ∈ args, world.store.heap.Covers a.2)
    (hnone : info.workers ≠ [] → ∀ a ∈ args, a.2.ref? = none)
    (h : world.spawn id info args = .ok world') :
    ∃ started, world.Starts started world' ∧ world.Queues started world' ∧
      ∀ c ∈ started, c.Alike Link.none c := by
  obtain ⟨started, hstarts, -⟩ := (world.spawn_meets id info args).of_ok h
  have halike := spawn_alike hs.within id info (Heap.argsAlike_self hcovers) fun _ _ => hnone
  rw [h] at halike
  cases halike with
  | ok halike =>
    obtain ⟨left, right, hleft, hright, hfresh⟩ := halike
    -- it is one list, however it is obtained
    obtain rfl := List.append_cancel_left (hleft.waiting.symm.trans hstarts.waiting)
    obtain rfl := List.append_cancel_left (hright.waiting.symm.trans hstarts.waiting)
    exact ⟨_, hstarts, hright, List.forall₂_same.mp hfresh⟩

/-- The main worker of an invocation, in the world in which it starts. -/
def Task.opening (world : World) (w : Worker) : Task where
  main := true
  world := { world with store := { world.store with output := #[] }, waiting := [] }
  worker := w

theorem Task.Mirrors.opening {l : Link} {world : World} {w : Worker}
    (hw : world.store.heap.Within l world.store.heap) (ha : w.Alike l w)
    (hkept : List.Forall₂ l (world.kept.filterMap Value.ref?) (world.kept.filterMap Value.ref?)) :
    Task.Mirrors (.sole w.info.id l) world w.info.id [] w (.opening world w) := by
  refine ⟨?_, ?_, rfl, ⟨fun _ => rfl, fun _ => rfl⟩, ?_, rfl⟩
  · rw [Ownership.sole_self]
    exact hw
  · rw [Ownership.sole_self]
    exact ha
  · rw [Ownership.sole_self, World.keptFor, if_pos rfl]
    exact hkept

/-- An invocation starts with a pool of as many tasks as it has workers, and all that there is belongs
to the main one. -/
theorem World.launch_mirrors {world : World} {id : FunctionId} {info : FunctionInfo}
    {args : List (Bank × Value)} {inv : Invocation} (hw : world.AtRest)
    (hsealed : world.store.heap.Sealed)
    (hcovers : ∀ v ∈ args.map Prod.snd ++ world.kept, world.store.heap.Covers v)
    (hnone : info.workers ≠ [] → ∀ a ∈ args, a.2.ref? = none)
    (h : world.launch id info args = .ok inv) : ∃ own p, inv.Mirrors own [] p := by
  obtain ⟨frame, scheduler, me, world', hb, hreg, hs, rfl⟩ := launch_eq_ok h
  have hargs : ∀ a ∈ args, world.store.heap.Covers a.2 := fun a ha =>
    hcovers _ (List.mem_append_left _ (List.mem_map_of_mem ha))
  obtain ⟨started, hstarts, hqueues, hunlinked⟩ :=
    spawn_unlinked { world with scheduler } hsealed hargs hnone hs
  have hwaiting : world'.waiting = started := by
    rw [hqueues.waiting]
    show world.waiting ++ started = started
    rw [hw.waiting, List.nil_append]
  -- the main worker was counted in before the others
  have hid : me.id < scheduler.nextId := by
    cases hreg
    exact Nat.lt_succ_self _
  have hnew : ∀ c ∈ started, c.info.id ≠ me.id := fun c hc =>
    (Nat.lt_of_lt_of_le hid (hstarts.ids c hc).1).ne'
  have hcounted : me.id < world'.scheduler.nextId :=
    Nat.lt_of_lt_of_le hid (hstarts.nextId ▸ Nat.le_add_right _ _)
  -- and the world is as it was, but for what is kept
  have hheap : world'.store.heap = world.store.heap := congrArg Store.heap hqueues.store
  have hrefs : List.Forall₂ world.store.heap.itself
      ((args.map Prod.snd ++ world'.kept).filterMap Value.ref?)
      ((args.map Prod.snd ++ world'.kept).filterMap Value.ref?) := by
    rw [hqueues.kept]
    exact forall₂_filterMap_ref? (List.forall₂_same.mpr fun v hv => (hcovers v hv).alike)
  have hself : (Worker.start me frame).Alike world.store.heap.itself (.start me frame) :=
    ⟨rfl, .cons (hsealed.bind_alike hargs hb) .nil, .running⟩
  have hwithin : (world'.hold (args.map Prod.snd)).store.heap.Within world.store.heap.itself
      (world'.hold (args.map Prod.snd)).store.heap := by
    show Heap.Within _ world'.store.heap world'.store.heap
    rw [hheap]
    exact hsealed.within
  have hopening := Task.Mirrors.opening hwithin hself hrefs
  refine ⟨.sole me.id world.store.heap.itself,
    ⟨.opening (world'.hold (args.map Prod.snd)) (.start me frame) ::ₘ started.map Task.fresh, 0⟩,
    { divided := ?divided, tasks := ?tasks, reports := .zero }⟩
  case divided =>
    refine ⟨?_, ?_, hcounted, ?_, fun hd => absurd hd List.not_mem_nil⟩
    · show Ownership.Parts _ world'.store.heap
      rw [hheap]
      exact Ownership.Parts.sole hsealed.within me.id fun s hs => ⟨s, rfl, hs⟩
    · rintro i r s ⟨rfl, -⟩
      exact hcounted
    · intro s hs
      obtain ⟨r, -, hr⟩ := exists_of_forall₂_right hrefs hs
      exact ⟨r, rfl, hr⟩
  case tasks =>
    rw [← Multiset.cons_coe, hwaiting]
    dsimp only
    refine .cons (hopening.congr rfl rfl) ?_
    rw [← Multiset.map_coe, Multiset.rel_map_right]
    refine Multiset.rel_refl_of_refl_on fun c hc => ?_
    refine Task.Mirrors.fresh (hunlinked c hc) ?_ (hnew c hc) fun d hd => absurd hd List.not_mem_nil
    exact fun r s hr => hnew c hc hr.1

/-! ## Reports -/

/-- Two workers have ended in the same way: with values that are the same but for the identity of
collections, or in the same fault. -/
def Outcome.Same (h h' : Heap) : Outcome → Outcome → Prop :=
  Agree fun vs ws => ∃ φ, h.IsoAll vs φ h' ws

/-- What has become of a worker in one course of an invocation, and of one in another. -/
structure Partners (h h' : Heap) (deeds deeds' : List Deed) (x y : WorkerInstance × Outcome) :
    Prop where
  post : x.1.post = y.1.post
  outcome : Outcome.Same h h' x.2 y.2
  lines : linesOf deeds x.1 = linesOf deeds' y.1

namespace Task.Report.Mirrors

variable {own own' : Ownership} {h h' : Heap} {main : Nat} {deeds deeds' : List Deed}
  {x y : WorkerInstance × Outcome} {report : Task.Report}

theorem same (hx : Task.Report.Mirrors own h main deeds x report)
    (hy : Task.Report.Mirrors own' h' main deeds' y report) : Outcome.Same h h' x.2 y.2 := by
  have ho := hx.outcome
  have ho' := hy.outcome
  unfold Outcome.Same
  generalize report.outcome = o at ho ho'
  generalize x.2 = p at ho ⊢
  generalize y.2 = q at ho' ⊢
  cases ho with
  | error e =>
    cases ho' with
    | error e => exact .error e
  | ok hv =>
    cases ho' with
    | ok hv' => exact .ok (hx.heap.isoAll hy.heap hv hv')

/-- Workers with one report are partners, and both are main workers or neither is. -/
theorem partners (hx : Task.Report.Mirrors own h main deeds x report)
    (hy : Task.Report.Mirrors own' h' main deeds' y report) :
    Partners h h' deeds deeds' x y ∧ (x.1.id = main ↔ y.1.id = main) where
  left := ⟨hx.post.symm.trans hy.post, hx.same hy, hx.output.symm.trans hy.output⟩
  right := hx.isMain.symm.trans hy.isMain

end Task.Report.Mirrors

theorem rel_comp {α β γ : Type} {R : α → β → Prop} {S : γ → β → Prop} {s : Multiset α}
    {t : Multiset γ} {u : Multiset β} (h : Multiset.Rel R s u) (h' : Multiset.Rel S t u) :
    Multiset.Rel (fun a c => ∃ b, R a b ∧ S c b) s t := by
  induction h generalizing t with
  | zero =>
    rw [Multiset.rel_zero_right] at h'
    rw [h']
    exact .zero
  | cons hab _ ih =>
    obtain ⟨c, t', hc, ht, rfl⟩ := Multiset.rel_cons_right.mp h'
    exact .cons ⟨_, hab, hc⟩ (ih ht)

/-! ## Schedules -/

namespace Environment

/-- What the program calls of the native functions are those that every program can, with whatever library
of regular expressions. -/
def CallsBuiltin (env : Environment) : Prop :=
  ∃ lib, ∀ ip name args rets, env.program.instruction? ip = some (.nativeCall name args rets) →
    env.natives.lookup name = (Natives.withLibrary lib).lookup name

theorem CallsBuiltin.indifferent {env : Environment} (h : env.CallsBuiltin) :
    env.CallsIndifferent := by
  intro ip name args rets native hi hnative
  obtain ⟨lib, h⟩ := h
  rw [h ip name args rets hi] at hnative
  exact Natives.indifferent_withLibrary hnative

/-- Which worker is the main one is settled at the start. -/
theorem Course.main_eq {env : Environment} {inv inv' : Invocation} {deeds : List Deed}
    (hc : env.Course inv deeds inv') : inv'.main = inv.main := by
  induction hc with
  | start => rfl
  | turn _ _ ih =>
    rw [← ih]
    unfold Invocation.takeBack
    split <;> rfl

/-- **The order of turns decides nothing.** Take a program that calls no native functions but those
that every program can call, and an invocation in which no collection is ever handed to a function
with named workers. It starts where nobody is at work and no reference leads nowhere. If two courses
of it have left nobody at work, its default worker has ended in the same way in both; and their workers
correspond to each other, one for one, such that each and its partner were at the same post, ended in
the same way, and printed the same lines. -/
theorem schedules_agree {env : Environment} (hbuiltin : env.CallsBuiltin) {world : World}
    (hrest : world.AtRest) (hsealed : world.store.heap.Sealed) {id : FunctionId}
    {info : FunctionInfo} {args : List (Bank × Value)}
    (hcovers : ∀ v ∈ args.map Prod.snd ++ world.kept, world.store.heap.Covers v)
    (hnone : info.workers ≠ [] → ∀ a ∈ args, a.2.ref? = none) {inv : Invocation}
    (hlaunch : world.launch id info args = .ok inv) (hapart : env.KeepsApart inv)
    {deeds₁ deeds₂ : List Deed} {inv₁ inv₂ : Invocation} (hc₁ : env.Course inv deeds₁ inv₁)
    (hc₂ : env.Course inv deeds₂ inv₂) (hend₁ : inv₁.world.waiting = [])
    (hend₂ : inv₂.world.waiting = []) :
    (∃ me outcome₁ outcome₂, me.id = inv.main ∧ me.post = info.lead id ∧
      (me, outcome₁) ∈ inv₁.ended ∧ (me, outcome₂) ∈ inv₂.ended ∧
      Outcome.Same inv₁.world.store.heap inv₂.world.store.heap outcome₁ outcome₂) ∧
    Multiset.Rel (Partners inv₁.world.store.heap inv₂.world.store.heap deeds₁ deeds₂) inv₁.ended
      inv₂.ended := by
  obtain ⟨own, p, hm⟩ := World.launch_mirrors hrest hsealed hcovers hnone hlaunch
  obtain ⟨-, hmain, crew, hb, hposts⟩ := World.launch_balanced hrest hlaunch
  have hn := hbuiltin.indifferent
  obtain ⟨own₁, q₁, hrun₁, hm₁⟩ := hm.course hn hb hapart hc₁
  obtain ⟨own₂, q₂, hrun₂, hm₂⟩ := hm.course hn hb hapart hc₂
  have htasks₁ := hm₁.tasks
  have htasks₂ := hm₂.tasks
  rw [hend₁, Multiset.coe_nil, Multiset.rel_zero_left] at htasks₁
  rw [hend₂, Multiset.coe_nil, Multiset.rel_zero_left] at htasks₂
  have hreports := Pool.reports_unique hrun₁ hrun₂ htasks₁ htasks₂
  have hpartners := rel_comp hm₁.reports (hreports ▸ hm₂.reports)
  rw [hc₁.main_eq, hc₂.main_eq] at hpartners
  refine ⟨?_, hpartners.mono fun x _ y _ ⟨report, hx, hy⟩ => (hx.partners hy).1⟩
  -- the first of the crew is the default worker, in both
  obtain ⟨me, crew, rfl, hpost, -⟩ := List.map_eq_cons_iff.mp hposts
  obtain ⟨joining₁, hb₁, -⟩ := hb.ends hc₁ hend₁
  obtain ⟨joining₂, hb₂, -⟩ := hb.ends hc₂ hend₂
  have hid : me.id = inv.main := hmain ▸ hb₁.id_head
  have hme : me ∈ inv₁.ended.map Prod.fst := hb₁.everyone.mem_iff.mpr List.mem_cons_self
  obtain ⟨⟨_, outcome₁⟩, hx, rfl⟩ := List.mem_map.mp hme
  obtain ⟨⟨me', outcome₂⟩, hy, report, hx', hy'⟩ :=
    Multiset.exists_mem_of_rel_of_mem hpartners (Multiset.mem_coe.mpr hx)
  obtain ⟨hsame, hiff⟩ := hx'.partners hy'
  obtain rfl := hb₂.eq_head hy ((hiff.mp hid).trans hmain)
  exact ⟨_, outcome₁, outcome₂, hid, hpost, hx, hy, hsame.outcome⟩

end Environment

/-! ## Code that keeps its workers apart -/

/-- A call of a function with named workers has no arguments from the registers for collections. -/
def Instruction.SharesNothing (p : Program) : Instruction → Prop
  | .call id args _ => ∀ info ∈ p.function? id, info.workers ≠ [] → ∀ a ∈ args, a.bank ≠ .ref
  | _ => True

def Program.SharesNothing (p : Program) : Prop := ∀ i ∈ p.code, i.SharesNothing p

instance (p : Program) : (i : Instruction) → Decidable (i.SharesNothing p)
  | .call id args _ => inferInstanceAs
      (Decidable (∀ info ∈ p.function? id, info.workers ≠ [] → ∀ a ∈ args, a.bank ≠ .ref))
  | .nop | .intConst .. | .floatConst .. | .boolConst .. | .strConst .. | .null .. | .move ..
  | .intOp .. | .floatOp .. | .intCompare .. | .floatLess .. | .strEqual .. | .concat .. | .not ..
  | .goto .. | .branch .. | .newArray .. | .arrayLoad .. | .arrayStore .. | .length .. | .newMap ..
  | .mapStore .. | .mapLoad .. | .newRecord .. | .fieldStore .. | .fieldLoad .. | .newRange ..
  | .iterNew .. | .iterHasNext .. | .iterNext .. | .newError .. | .throw .. | .nativeCall ..
  | .ret .. => instDecidableTrue

instance (p : Program) : Decidable p.SharesNothing :=
  inferInstanceAs (Decidable (∀ i ∈ p.code, i.SharesNothing p))

/-- Only the registers for collections can have one. -/
theorem ValueBank.ref?_toValue {b : ValueBank} (hb : b ≠ .ref) (x : b.Slot) :
    (b.toValue x).ref? = none := by
  cases b with
  | ref => exact absurd rfl hb
  | _ => rfl

theorem Frame.ref?_of_read {f : Frame} {r : AnyReg} {v : Value} (hr : r.bank ≠ .ref)
    (h : f.read r = .ok v) : v.ref? = none := by
  unfold read at h
  cases hx : f.get r.reg with
  | error e =>
    rw [hx] at h
    cases h
  | ok x =>
    rw [hx] at h
    cases h
    exact ValueBank.ref?_toValue hr x

namespace Environment

variable {env : Environment}

/-- **To keep its workers apart, it is enough that a program has no call that could do otherwise.** -/
theorem keepsApart_of_sharesNothing (h : env.program.SharesNothing) (inv : Invocation) :
    env.KeepsApart inv := by
  intro inv' before w after _ _ id info hcalled hworkers v hv
  obtain ⟨hinfo, f, below, args, rets, hstack, hi⟩ := calling?_of_called? hcalled
  have hargs : ∀ a ∈ args, a.bank ≠ .ref :=
    h _ (Array.mem_of_getElem? hi) info hinfo hworkers
  unfold handed at hv
  rw [hstack] at hv
  dsimp only at hv
  rw [hi] at hv
  dsimp only at hv
  cases hread : f.readAll args with
  | error e =>
    rw [hread] at hv
    exact absurd hv List.not_mem_nil
  | ok values =>
    rw [hread] at hv
    obtain ⟨a, ha, hav⟩ := exists_of_forall₂_right (forall₂_of_mapM_eq_ok hread) hv
    exact Frame.ref?_of_read (hargs a ha) hav

/-! ## Two schedules -/

/-- The invocation after some turns, each told by the place in which its worker waits. -/
def play (env : Environment) : Invocation → List Nat → Invocation
  | inv, [] => inv
  | inv, n :: turns =>
      match inv.world.waiting[n]? with
      | none => inv
      | some w =>
          let shared := { inv.world with
            waiting := inv.world.waiting.take n ++ inv.world.waiting.drop (n + 1) }
          env.play (inv.takeBack (env.step shared w).1 (env.step shared w).2) turns

theorem play_course {inv inv' : Invocation} {deeds : List Deed} (hc : env.Course inv deeds inv')
    (turns : List Nat) : ∃ deeds', env.Course inv deeds' (env.play inv' turns) := by
  induction turns generalizing inv' deeds with
  | nil => exact ⟨deeds, hc⟩
  | cons n turns ih =>
    unfold play
    cases hn : inv'.world.waiting[n]? with
    | none => exact ⟨deeds, hc⟩
    | some w =>
      obtain ⟨hlt, hw⟩ := List.getElem?_eq_some_iff.mp hn
      refine ih (hc.turn ?_)
      rw [← hw, ← List.drop_eq_getElem_cons hlt, List.take_append_drop]

/-- A default worker and a named one that run the same code. -/
def mappingInfo : FunctionInfo where
  name := "main"
  package := "main"
  defaultWorker := ⟨defaultWorkerName, 0, { refs := 1 }⟩
  workers := [⟨"other", 0, { refs := 1 }⟩]

/-- The code makes a map and hands it back. -/
def mapping : Environment where
  program :=
    { entryPackage := "main"
      packages := []
      functions := #[mappingInfo]
      constants := #[]
      code := #[.newMap ⟨0⟩, .ret [⟨.ref, 0⟩]]
      lines := [] }
  natives := .builtin
  maxDepth := 4

/-- Whoever goes first has its map in front, and that is all the difference. -/
theorem mapping_agrees :
    ∃ inv deeds₁ deeds₂ inv₁ inv₂,
      (World.start .empty []).launch ⟨0⟩ mappingInfo [] = .ok inv ∧
      mapping.Course inv deeds₁ inv₁ ∧ mapping.Course inv deeds₂ inv₂ ∧
      inv₁.world.waiting = [] ∧ inv₂.world.waiting = [] ∧
      (inv₁.ended.map fun x => (x.1.workerName, x.2.values.filterMap Value.ref?)) =
        [(defaultWorkerName, [⟨0⟩]), ("other", [⟨1⟩])] ∧
      (inv₂.ended.map fun x => (x.1.workerName, x.2.values.filterMap Value.ref?)) =
        [("other", [⟨0⟩]), (defaultWorkerName, [⟨1⟩])] ∧
      Multiset.Rel (Partners inv₁.world.store.heap inv₂.world.store.heap deeds₁ deeds₂) inv₁.ended
        inv₂.ended := by
  obtain ⟨inv, hlaunch, hnil₁, hnil₂, hended₁, hended₂⟩ :
      ∃ inv, (World.start .empty []).launch ⟨0⟩ mappingInfo [] = .ok inv ∧
        (mapping.play inv [0, 0, 0, 0]).world.waiting = [] ∧
        (mapping.play inv [1, 0, 0, 0]).world.waiting = [] ∧
        ((mapping.play inv [0, 0, 0, 0]).ended.map fun x =>
          (x.1.workerName, x.2.values.filterMap Value.ref?)) =
            [(defaultWorkerName, [⟨0⟩]), ("other", [⟨1⟩])] ∧
        ((mapping.play inv [1, 0, 0, 0]).ended.map fun x =>
          (x.1.workerName, x.2.values.filterMap Value.ref?)) =
            [("other", [⟨0⟩]), (defaultWorkerName, [⟨1⟩])] :=
    ⟨_, rfl, rfl, rfl, rfl, rfl⟩
  have hstart : mapping.Course inv [] inv := .start
  obtain ⟨deeds₁, hc₁⟩ := play_course hstart [0, 0, 0, 0]
  obtain ⟨deeds₂, hc₂⟩ := play_course hstart [1, 0, 0, 0]
  have hbuiltin : mapping.CallsBuiltin := ⟨.unbounded, fun _ _ _ _ _ => rfl⟩
  obtain ⟨-, hpartners⟩ := schedules_agree hbuiltin ⟨rfl, rfl, rfl, rfl⟩ Heap.sealed_empty
    (fun _ hv => absurd hv List.not_mem_nil) (fun _ _ ha => absurd ha List.not_mem_nil) hlaunch
    (keepsApart_of_sharesNothing (by decide) inv) hc₁ hc₂ hnil₁ hnil₂
  exact ⟨inv, deeds₁, deeds₂, _, _, hlaunch, hc₁, hc₂, hnil₁, hnil₂, hended₁, hended₂, hpartners⟩

end Environment

end RegisterMachine
