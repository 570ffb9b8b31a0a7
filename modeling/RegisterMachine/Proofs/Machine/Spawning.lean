import RegisterMachine.Machine.Step
import RegisterMachine.Proofs.Frame.Arguments

/-!
# Starting workers

A worker starts with one frame: at the start of its code, with its arguments bound and no caller
(`Worker.FreshOf`). The machine makes workers in one place, `World.spawn`, and what is needed about
it is said once here: those it adds to the waiting ones are fresh and have ids that no worker had
before, those that waited before still wait in front of them, and where it fails nothing has been
added.

`World.Adds` is what of it every step of a worker keeps.
-/

namespace RegisterMachine

/-- The worker is about to run its first instruction, on some arguments. -/
def Worker.FreshOf (id : FunctionId) (w : WorkerInfo) (worker : Worker) : Prop :=
  ∃ heap args frame, (Frame.start id w).bind heap args = .ok frame ∧
    worker = .start worker.info frame

namespace World

/-- In `world'` the workers `started` are counted in and wait behind those of `world`. -/
structure Starts (world : World) (started : List Worker) (world' : World) : Prop where
  waiting : world'.waiting = world.waiting ++ started
  failures : world'.scheduler.failures = world.scheduler.failures
  nextId : world'.scheduler.nextId = world.scheduler.nextId + started.length
  ids : ∀ s ∈ started, world.scheduler.nextId ≤ s.info.id ∧ s.info.id < world'.scheduler.nextId

namespace Starts

variable {world world' world'' : World} {started started' : List Worker}

theorem none (hw : world'.waiting = world.waiting) (hs : world'.scheduler = world.scheduler) :
    world.Starts [] world' :=
  ⟨by simp [hw], by rw [hs], by rw [hs]; rfl, fun s hm => absurd hm (by simp)⟩

theorem trans (h : world.Starts started world') (h' : world'.Starts started' world'') :
    world.Starts (started ++ started') world'' where
  waiting := by rw [h'.waiting, h.waiting, List.append_assoc]
  failures := h'.failures.trans h.failures
  nextId := by rw [h'.nextId, h.nextId, List.length_append, Nat.add_assoc]
  ids s hm := by
    have hn := h.nextId
    have hn' := h'.nextId
    rcases List.mem_append.mp hm with hm | hm
    · have := h.ids s hm
      omega
    · have := h'.ids s hm
      omega

end Starts

theorem enqueue_starts (world : World) (name : String) (frame : Frame) :
    ∃ info, world.Starts [.start info frame] (world.enqueue name frame) := by
  refine ⟨⟨world.scheduler.nextId, frame.function, name, frame.worker⟩, rfl, rfl, rfl, ?_⟩
  intro s hm
  rw [List.mem_singleton.mp hm]
  exact ⟨Nat.le_refl _, Nat.lt_succ_self _⟩

theorem foldl_enqueue_starts (name : String) (frames : List Frame) (world : World) :
    ∃ started, world.Starts started (frames.foldl (fun w f => w.enqueue name f) world) ∧
      ∀ s ∈ started, ∃ f ∈ frames, s = .start s.info f := by
  induction frames generalizing world with
  | nil => exact ⟨[], .none rfl rfl, by simp⟩
  | cons f rest ih =>
    obtain ⟨info, hf⟩ := world.enqueue_starts name f
    obtain ⟨started, hw, hs⟩ := ih (world.enqueue name f)
    refine ⟨.start info f :: started, hf.trans hw, ?_⟩
    intro s hm
    rcases List.mem_cons.mp hm with rfl | hm
    · exact ⟨f, List.mem_cons_self, rfl⟩
    · obtain ⟨g, hg, he⟩ := hs s hm
      exact ⟨g, List.mem_cons_of_mem _ hg, he⟩

/-- What starting the named workers of a function comes to. -/
theorem spawn_meets (world : World) (id : FunctionId) (info : FunctionInfo)
    (args : List (Bank × Value)) :
    Meets
      (fun world' => ∃ started, world.Starts started world' ∧
        ∀ s ∈ started, ∃ w ∈ info.workers, s.FreshOf id w)
      (fun e => e.isFatal = true → (∃ b i, e = .invalidRegister b i) ∧
        ∃ w ∈ info.workers, ¬ w.registers.Takes (args.map Prod.fst))
      (world.spawn id info args) := by
  have hframes : Meets
      (fun frames => frames.length = info.workers.length ∧ ∀ f ∈ frames,
        ∃ w ∈ info.workers, (Frame.start id w).bind world.store.heap args = .ok f)
      (fun e => e.isFatal = true → (∃ b i, e = .invalidRegister b i) ∧
        ∃ w ∈ info.workers, ¬ w.registers.Takes (args.map Prod.fst))
      (info.workers.mapM fun w => (Frame.start id w).bind world.store.heap args) := by
    refine Meets.mapM fun w hw => .intro (fun f hf => ⟨w, hw, hf⟩) fun e he hfatal => ?_
    have hb := Frame.bind_meets world.store.heap (Frame.Shaped.start id w) args
    obtain ⟨hr, ht⟩ := hb.of_error he hfatal
    exact ⟨hr, w, hw, ht⟩
  refine hframes.bind fun frames hf => ?_
  obtain ⟨started, hw, hs⟩ := foldl_enqueue_starts info.name frames world
  refine ⟨started, hw, ?_⟩
  intro s hm
  obtain ⟨f, hmf, he⟩ := hs s hm
  obtain ⟨w, hww, hb⟩ := hf.2 f hmf
  exact ⟨w, hww, world.store.heap, args, f, hb, he⟩

/-- Where it succeeds there is a frame for each of the workers, and the frames have been counted in. -/
theorem spawn_eq_ok {world world' : World} {id : FunctionId} {info : FunctionInfo}
    {args : List (Bank × Value)} (h : world.spawn id info args = .ok world') :
    ∃ frames, List.Forall₂ (fun w f => (Frame.start id w).bind world.store.heap args = .ok f)
        info.workers frames ∧
      world' = frames.foldl (fun w f => w.enqueue info.name f) world := by
  unfold spawn at h
  cases hf : info.workers.mapM (fun w => (Frame.start id w).bind world.store.heap args) with
  | error e =>
    rw [hf] at h
    cases h
  | ok frames =>
    rw [hf] at h
    cases h
    exact ⟨frames, forall₂_of_mapM_eq_ok hf, rfl⟩

/-- It reaches no further than the books and those that wait. -/
theorem spawn_leaves {world world' : World} {id : FunctionId} {info : FunctionInfo}
    {args : List (Bank × Value)} (h : world.spawn id info args = .ok world') :
    world'.store = world.store ∧ world'.kept = world.kept := by
  obtain ⟨frames, -, rfl⟩ := spawn_eq_ok h
  clear h
  induction frames generalizing world with
  | nil => exact ⟨rfl, rfl⟩
  | cons f rest ih => exact @ih (world.enqueue info.name f)

/-- What has been started from `world` to `world'` are fresh workers, each a named worker of a
function of the program. -/
def Adds (p : Program) (world world' : World) : Prop :=
  ∃ started, world.Starts started world' ∧
    ∀ s ∈ started, ∃ id info, p.function? id = some info ∧ ∃ w ∈ info.workers, s.FreshOf id w

theorem Adds.none {p : Program} {world world' : World} (hw : world'.waiting = world.waiting)
    (hs : world'.scheduler = world.scheduler) : Adds p world world' :=
  ⟨[], .none hw hs, by simp⟩

end World

end RegisterMachine
