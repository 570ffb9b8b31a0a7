import RegisterMachine.Proofs.Debug.Gate
import RegisterMachine.Proofs.Machine.Reach

/-!
# Where a worker stops

A session remembers positions by the depth of the stack. What it is after is something else: the last
position at which each *activation* of a function was seen, so that coming back from a call to the line
of the call is nothing new while entering the same function again is. The two agree because an
activation cannot make room for another at its depth without a boundary in between at which the stack is
lower, and there the session forgets.

`History` is what the session is after, told without any depth: activations are numbered as they
begin, with a call, and end with a return. `Watch.Remembers` says that the memory of a session is what a
history tells, and the two are kept in step by every boundary and by everything that can happen to a
stack. Mode, breakpoints and what the other workers do are left open from one boundary to the next
(`Debug.Tracked`). The main statement is `Debug.stops_exactly`.
-/

namespace RegisterMachine

/-- A move that does not end a worker leaves it a frame. -/
theorem Moves.exists_frame {env : Environment} {stack stack' : CallStack}
    (h : Moves env stack stack' .running) : ∃ f below, stack' = f :: below := by
  cases h with
  | within => exact ⟨_, _, rfl⟩
  | call => exact ⟨_, _, rfl⟩
  | ret => exact ⟨_, _, rfl⟩

/-- The instruction that a worker is about to run. -/
def Worker.instruction? (p : Program) (w : Worker) : Option Instruction :=
  w.stack.head?.bind fun f => p.instruction? f.ip

namespace Debug

/-- What a worker has been through between its instructions. -/
structure History where
  /-- The activations whose frames are on the stack, innermost first. -/
  activations : List Nat
  /-- How many activations have begun. -/
  begun : Nat
  /-- The boundaries so far, the last first: which activation was on top, and the source position of
  the instruction that it was about to run, where that is known. -/
  sightings : List (Nat × Option SourcePos)

namespace History

/-- A worker that has not come to a boundary. -/
def start : History := ⟨[0], 1, []⟩

/-- The last known position at which an activation was seen. -/
def lastKnown (hist : History) (a : Nat) : Option SourcePos :=
  hist.sightings.findSome? fun (b, pos) => if b = a then pos else none

/-- The last known position at which the activation on top was seen. -/
def lastKnownOnTop (hist : History) : Option SourcePos := hist.activations.head?.bind hist.lastKnown

/-- Comes to a boundary. -/
def sight (hist : History) (pos : Option SourcePos) : History :=
  { hist with sightings := (hist.activations.head?.map fun a => (a, pos)).toList ++ hist.sightings }

/-- Runs an instruction: an activation begins with a call and ends with a return. -/
def run (hist : History) : Option Instruction → History
  | some (.call ..) =>
      { hist with activations := hist.begun :: hist.activations, begun := hist.begun + 1 }
  | some (.ret _) => { hist with activations := hist.activations.tail }
  | _ => hist

variable {hist : History} {a b : Nat} {pos : Option SourcePos}

@[simp] theorem activations_sight : (hist.sight pos).activations = hist.activations := rfl

@[simp] theorem begun_sight : (hist.sight pos).begun = hist.begun := rfl

theorem run_of_keepsFrame {i : Instruction} (h : i.keepsFrame = true) :
    hist.run (some i) = hist := by
  cases i with
  | call id args rets => exact absurd h (by simp)
  | ret regs => exact absurd h (by simp)
  | _ => rfl

/-- An activation that was never on top has never been seen. -/
theorem lastKnown_of_unseen (h : ∀ x ∈ hist.sightings, x.1 ≠ a) : hist.lastKnown a = none := by
  unfold lastKnown
  rw [List.findSome?_eq_none_iff]
  intro x hx
  simp [h x hx]

theorem lastKnown_sight_of_ne (ha : hist.activations.head? = some a) (hb : b ≠ a) :
    (hist.sight pos).lastKnown b = hist.lastKnown b := by
  simp [lastKnown, sight, ha, hb.symm]

/-- Not to know where an activation is does not change what was known. -/
theorem lastKnown_sight_none : (hist.sight none).lastKnown b = hist.lastKnown b := by
  unfold lastKnown sight
  cases hist.activations with
  | nil => rfl
  | cons a rest => simp

theorem lastKnown_sight_some {p : SourcePos} (ha : hist.activations.head? = some a) :
    (hist.sight (some p)).lastKnown a = some p := by
  simp [lastKnown, sight, ha]

end History

/-- The memory of a session, for a stack of this many frames, is what the history tells. -/
structure Watch.Remembers (watch : Watch) (hist : History) (depth : Nat) : Prop where
  depth_eq : hist.activations.length = depth
  memory : Session.resized watch.seen depth = hist.activations.reverse.map hist.lastKnown
  nodup : hist.activations.Nodup
  activation_lt : ∀ a ∈ hist.activations, a < hist.begun
  sighting_lt : ∀ x ∈ hist.sightings, x.1 < hist.begun

namespace Watch.Remembers

variable {watch watch' : Watch} {hist : History} {depth : Nat}

/-- At the start there is one frame, and nothing is known of it. -/
theorem start : Watch.start.Remembers .start 1 where
  depth_eq := rfl
  memory := rfl
  nodup := by simp [History.start]
  activation_lt := by simp [History.start]
  sighting_lt := by simp [History.start]

/-- Only the memory counts. -/
theorem of_seen_eq (h : watch.Remembers hist depth) (hs : watch'.seen = watch.seen) :
    watch'.Remembers hist depth where
  depth_eq := h.depth_eq
  memory := by rw [hs, h.memory]
  nodup := h.nodup
  activation_lt := h.activation_lt
  sighting_lt := h.sighting_lt

/-- There is an activation on top, and what is remembered of its frame stands last. -/
theorem exists_top (h : watch.Remembers hist (depth + 1)) :
    ∃ a rest, hist.activations = a :: rest ∧ rest.length = depth ∧
      Session.resized watch.seen (depth + 1)
        = rest.reverse.map hist.lastKnown ++ [hist.lastKnown a] := by
  have hd := h.depth_eq
  have hmem := h.memory
  cases ha : hist.activations with
  | nil => simp [ha] at hd
  | cons a rest =>
    rw [ha] at hd hmem
    refine ⟨a, rest, rfl, by simpa using hd, ?_⟩
    simpa using hmem

/-- Whether a worker stops is decided by the last known position of the activation on top. -/
theorem stops_iff (h : watch.Remembers hist (depth + 1)) {s : Session} (hs : s.detached = false)
    {pos : Option SourcePos} {reason : Reason} :
    (s.shouldSuspend watch (depth + 1) pos).2 = some reason ↔
      ∃ q, pos = some q ∧ hist.lastKnownOnTop ≠ some q ∧
        (watch.mode = .step ∧ reason = .step ∨
          watch.mode = .run ∧ s.breakpoints.contains q = true ∧ reason = .breakpoint) := by
  obtain ⟨a, rest, hacts, hrest, hmem⟩ := h.exists_top
  have hentry : (Session.resized watch.seen (depth + 1))[depth]? = some hist.lastKnownOnTop := by
    rw [hmem, ← hrest]
    simp [History.lastKnownOnTop, hacts]
  rw [Session.shouldSuspend_eq_some_iff hs, hentry]
  simp

/-- A boundary leaves one entry for each frame: what is seen there is seen of the activation on top. -/
theorem seen_eq (h : watch.Remembers hist (depth + 1)) {s : Session} (hs : s.detached = false)
    (pos : Option SourcePos) :
    (s.shouldSuspend watch (depth + 1) pos).1.seen
      = hist.activations.reverse.map (hist.sight pos).lastKnown := by
  obtain ⟨a, rest, hacts, hrest, hmem⟩ := h.exists_top
  have hhead : hist.activations.head? = some a := by simp [hacts]
  have hothers : rest.reverse.map (hist.sight pos).lastKnown = rest.reverse.map hist.lastKnown := by
    apply List.map_congr_left
    intro b hb
    apply History.lastKnown_sight_of_ne hhead
    rintro rfl
    have hn := h.nodup
    rw [hacts, List.nodup_cons] at hn
    exact hn.1 (List.mem_reverse.mp hb)
  rw [Session.shouldSuspend_seen hs, hmem, hacts, List.reverse_cons, List.map_append, hothers]
  cases pos with
  | none => simp [History.lastKnown_sight_none]
  | some q =>
    dsimp only
    rw [List.set_append_right _ _ (by simp [hrest])]
    simp [hrest, History.lastKnown_sight_some hhead]

/-- **A boundary keeps the memory right.** -/
theorem boundary (h : watch.Remembers hist (depth + 1)) {s : Session} (hs : s.detached = false)
    (pos : Option SourcePos) :
    (s.shouldSuspend watch (depth + 1) pos).1.Remembers (hist.sight pos) (depth + 1) where
  depth_eq := h.depth_eq
  memory := by
    have hseen := h.seen_eq hs pos
    have hlen := congrArg List.length hseen
    rw [List.length_map, List.length_reverse, h.depth_eq] at hlen
    have hkept := Session.resized_length (s.shouldSuspend watch (depth + 1) pos).1.seen
    rw [hlen] at hkept
    rw [hkept]
    exact hseen
  nodup := h.nodup
  activation_lt := h.activation_lt
  sighting_lt x hx := by
    obtain ⟨a, rest, hacts, -⟩ := h.exists_top
    simp only [History.sight, hacts, List.head?_cons, Option.map_some, Option.toList_some,
      List.singleton_append, List.mem_cons] at hx
    rcases hx with rfl | hx
    · exact h.activation_lt a (by simp [hacts])
    · exact h.sighting_lt x hx

/-- A call: nothing is known of the new activation, whatever was remembered at its depth before. -/
theorem call (h : watch.Remembers hist depth) (hlen : watch.seen.length = depth) (id : FunctionId)
    (args rets : List AnyReg) :
    watch.Remembers (hist.run (some (.call id args rets))) (depth + 1) where
  depth_eq := by simp [History.run, h.depth_eq]
  memory := by
    have hseen : watch.seen = hist.activations.reverse.map hist.lastKnown := by
      rw [← h.memory, ← hlen, Session.resized_length]
    have hnew : (hist.run (some (.call id args rets))).lastKnown hist.begun = none :=
      History.lastKnown_of_unseen fun x hx => Nat.ne_of_lt (h.sighting_lt x hx)
    rw [← hlen, Session.resized_succ, hseen]
    simp only [History.run, List.reverse_cons, List.map_append, List.map_cons, List.map_nil]
    congr 1
    exact congrArg (fun known => [known]) hnew.symm
  nodup := by
    refine List.nodup_cons.mpr ⟨fun hm => ?_, h.nodup⟩
    exact absurd (h.activation_lt _ hm) (Nat.lt_irrefl _)
  activation_lt a ha := by
    rcases List.mem_cons.mp ha with rfl | ha
    · exact Nat.lt_succ_self _
    · exact Nat.lt_succ_of_lt (h.activation_lt a ha)
  sighting_lt x hx := Nat.lt_succ_of_lt (h.sighting_lt x hx)

/-- A return: what was known of the frame below is still known. -/
theorem ret (h : watch.Remembers hist (depth + 1)) (hlen : watch.seen.length = depth + 1)
    (regs : List AnyReg) : watch.Remembers (hist.run (some (.ret regs))) depth where
  depth_eq := by simp [History.run, h.depth_eq]
  memory := by
    have hd := h.depth_eq
    have hseen : watch.seen = hist.activations.reverse.map hist.lastKnown := by
      rw [← h.memory, ← hlen, Session.resized_length]
    rw [Session.resized_of_le (by omega), hseen]
    show _ = hist.activations.tail.reverse.map hist.lastKnown
    cases ha : hist.activations with
    | nil =>
      rw [ha] at hd
      cases hd
    | cons a rest =>
      rw [ha, List.length_cons, Nat.succ.injEq] at hd
      rw [List.reverse_cons, List.map_append, List.take_append_of_le_length (by simp [hd]),
        List.take_of_length_le (by simp [hd])]
      rfl
  nodup := h.nodup.tail
  activation_lt a ha := h.activation_lt a (List.mem_of_mem_tail ha)
  sighting_lt := h.sighting_lt

end Watch.Remembers

/-! ## Runs -/

/-- A worker that has run under a session from its start, as it stands before its next instruction: what
is remembered of it, and what it has been through. The world in which it takes its steps and what the
session has for breakpoints may be anything each time, and so may be the mode in which it goes on after a
stop. -/
inductive Tracked (env : Environment) (id : FunctionId) (wi : WorkerInfo) :
    Worker → Watch → History → Prop
  | start {w : Worker} (h : w.FreshOf id wi) : Tracked env id wi w .start .start
  | turn {w w' : Worker} {watch watch' : Watch} {hist : History} {s : Session}
      (h : Tracked env id wi w watch hist) (ha : s.detached = false)
      (hseen : watch'.seen = (check env.program s watch w).1.seen)
      (hmode : (check env.program s watch w).2 = none → watch'.mode = watch.mode)
      (hs : env.Steps w w') :
      Tracked env id wi w' watch'
        ((hist.sight (w.position? env.program)).run (w.instruction? env.program))

namespace Tracked

variable {env : Environment} {id : FunctionId} {wi : WorkerInfo} {w w' : Worker}
  {watch watch' : Watch} {hist : History} {s s' : Session}

/-- To pass the gate and take a step is a turn. -/
theorem gate (h : Tracked env id wi w watch hist) (ha : s.detached = false) (client : Client)
    (world : World) (hg : Debug.gate env.program client s watch world w = some (s', watch'))
    (hs : env.Steps w w') :
    Tracked env id wi w' watch'
      ((hist.sight (w.position? env.program)).run (w.instruction? env.program)) := by
  rw [gate_eq] at hg
  have hmode : (check env.program s watch w).1.mode = watch.mode := check_mode
  generalize hc : check env.program s watch w = r at hg hmode
  obtain ⟨known, stop⟩ := r
  cases stop with
  | none =>
    cases hg
    exact h.turn ha (by rw [hc]) (fun _ => hmode) hs
  | some stop =>
    obtain ⟨position, reason⟩ := stop
    dsimp only at hg
    split at hg
    · cases hg
      refine h.turn ha ?_ (fun hn => ?_) hs
      · rw [hc, Session.suspend_seen]
      · rw [hc] at hn
        cases hn
    · cases hg

/-- A worker that has not ended has a frame. -/
theorem exists_frame (h : Tracked env id wi w watch hist) (hp : w.progress = .running) :
    ∃ f below, w.stack = f :: below := by
  cases h with
  | start hf =>
    obtain ⟨heap, args, f, -, hw⟩ := hf
    rw [hw]
    exact ⟨f, [], rfl⟩
  | turn ht ha hseen hmode hs =>
    rcases hs.cases with ⟨-, hm⟩ | ⟨hend, rfl⟩
    · rw [hp] at hm
      exact hm.exists_frame
    · exact absurd hp hend

/-- **At every boundary the memory of the session is what the history tells.** -/
theorem remembers (h : Tracked env id wi w watch hist) (hp : w.progress = .running) :
    watch.Remembers hist w.stack.length := by
  induction h with
  | start hf =>
    obtain ⟨heap, args, f, -, hw⟩ := hf
    rw [hw]
    exact Watch.Remembers.start
  | @turn w w' watch watch' hist s h ha hseen hmode hs ih =>
    rcases hs.cases with ⟨hrun, hm⟩ | ⟨hend, rfl⟩
    case inr => exact absurd hp hend
    have hrem := ih hrun
    rw [hp] at hm
    generalize w'.stack = stack' at hm ⊢
    cases hstack : w.stack with
    | nil =>
      rw [hstack] at hm
      cases hm
    | cons f below =>
      rw [hstack] at hm hrem
      -- the boundary first, and then what the instruction does to the stack
      have hpos : w.position? env.program = env.program.position? f.ip := by
        simp [Worker.position?, hstack]
      have hi : w.instruction? env.program = env.program.instruction? f.ip := by
        simp [Worker.instruction?, hstack]
      have hcheck : (check env.program s watch w).1
          = (s.shouldSuspend watch (below.length + 1) (env.program.position? f.ip)).1 := by
        simp [check, hstack]
      rw [hcheck] at hseen
      have hnow := (hrem.boundary ha (env.program.position? f.ip)).of_seen_eq hseen
      have hlen : watch'.seen.length = below.length + 1 := by
        rw [hseen, hrem.seen_eq ha, List.length_map, List.length_reverse, hrem.depth_eq]
        rfl
      rw [hpos, hi]
      cases hm with
      | within hi' hk hn hg =>
        rw [hi', History.run_of_keepsFrame hk]
        exact hnow
      | call hi' hf hd hc hip =>
        rw [hi']
        exact hnow.call hlen _ _ _
      | ret hi' hv hr hg hip hres =>
        rw [hi']
        exact hnow.ret hlen _

end Tracked

/-- **A session stops a worker exactly where it should.** Take a worker at any boundary of its run under
a session that has its client. It stops there exactly if the position of the instruction it is about to
run is known, the activation on top has not been seen at that position last, and the worker is in
step mode or there is a breakpoint; and the reason is the mode or the breakpoint. To pass the gate is to
do just that. And from then on the session remembers one position for each frame of the stack, the last
known one of its activation. -/
theorem stops_exactly {env : Environment} {id : FunctionId} {wi : WorkerInfo} {w : Worker}
    {watch : Watch} {hist : History} (h : Tracked env id wi w watch hist)
    (hp : w.progress = .running) {s : Session} (ha : s.detached = false) :
    (∀ position reason, (check env.program s watch w).2 = some (position, reason) ↔
      w.position? env.program = some position ∧ hist.lastKnownOnTop ≠ some position ∧
        (watch.mode = .step ∧ reason = .step ∨
          watch.mode = .run ∧ s.breakpoints.contains position = true ∧ reason = .breakpoint)) ∧
    (∀ client world, gate env.program client s watch world w =
      match (check env.program s watch w).2 with
      | none => some (s, (check env.program s watch w).1)
      | some (position, reason) =>
          let r := s.suspend client world.store.output.size (check env.program s watch w).1
            (.ofNat w.info.id) w.info.workerName position reason
            (stopFrames env.program w.stack position)
          if r.2.2 then some (r.1, r.2.1) else none) ∧
    hist.activations.length = w.stack.length ∧
    (check env.program s watch w).1.seen.length = w.stack.length ∧
    (check env.program s watch w).1.seen =
      hist.activations.reverse.map (hist.sight (w.position? env.program)).lastKnown := by
  have hrem := h.remembers hp
  obtain ⟨f, below, hstack⟩ := h.exists_frame hp
  have hpos : w.position? env.program = env.program.position? f.ip := by
    simp [Worker.position?, hstack]
  have hcheck : check env.program s watch w =
      ((s.shouldSuspend watch (below.length + 1) (env.program.position? f.ip)).1,
        (env.program.position? f.ip).bind fun position =>
          (s.shouldSuspend watch (below.length + 1) (env.program.position? f.ip)).2.map
            fun reason => (position, reason)) := by
    simp [check, hstack]
  rw [hstack] at hrem
  have hseen := hrem.seen_eq ha (env.program.position? f.ip)
  refine ⟨fun position reason => ?_, fun client world => ?_, ?_, ?_, ?_⟩
  · rw [hcheck, hpos]
    simp only [Option.bind_eq_some_iff, Option.map_eq_some_iff]
    constructor
    · rintro ⟨q, hq, r, hr, he⟩
      cases he
      obtain ⟨q', hq', hne, hwhy⟩ := (hrem.stops_iff ha).mp hr
      rw [hq] at hq'
      cases hq'
      exact ⟨hq, hne, hwhy⟩
    · rintro ⟨hq, hne, hwhy⟩
      exact ⟨position, hq, reason, (hrem.stops_iff ha).mpr ⟨position, hq, hne, hwhy⟩, rfl⟩
  · rw [gate_eq]
    generalize check env.program s watch w = r
    obtain ⟨known, stop⟩ := r
    cases stop <;> rfl
  · rw [hstack]
    exact hrem.depth_eq
  · rw [hcheck, hstack, hseen, List.length_map, List.length_reverse, hrem.depth_eq]
  · rw [hcheck, hpos, hseen]

/-- The doubling program with its functions on a line each, and a breakpoint on that of main. -/
def linedDoubling : Environment :=
  { Environment.doubling with
    program := { Program.doubling with lines := [⟨0, ⟨"main", 1⟩⟩, ⟨2, ⟨"double", 1⟩⟩] } }

def Session.atMain : Session :=
  { Session.start 0 with breakpoints := .ofList [⟨"main", 1⟩], queue := [.resume] }

/-- Main stops before its call, and not again when it comes back to the same line. -/
theorem doubling_stops_once :
    (check linedDoubling.program .atMain .start Worker.doubling).2
        = some (⟨"main", 1⟩, .breakpoint) ∧
    ∃ watch hist,
      Tracked linedDoubling ⟨0⟩ Program.mainInfo.defaultWorker
        (Worker.doubling.afterSteps linedDoubling 3) watch hist ∧
      (Worker.doubling.afterSteps linedDoubling 3).position? linedDoubling.program
        = some ⟨"main", 1⟩ ∧
      (check linedDoubling.program .atMain watch
        (Worker.doubling.afterSteps linedDoubling 3)).2 = none := by
  have hnew : Tracked linedDoubling ⟨0⟩ Program.mainInfo.defaultWorker .doubling .start .start :=
    .start Worker.doubling_fresh
  have hcalled := hnew.gate (s := .atMain) rfl .silent (.start .empty []) rfl
    ⟨.start .empty [], rfl⟩
  have hadded := hcalled.gate (s := .atMain) rfl .silent (.start .empty []) rfl
    ⟨.start .empty [], rfl⟩
  have hback := hadded.gate (s := .atMain) rfl .silent (.start .empty []) rfl
    ⟨.start .empty [], rfl⟩
  refine ⟨((stops_exactly hnew rfl (s := .atMain) rfl).1 _ _).mpr ?_, _, _, hback, rfl, ?_⟩
  · exact ⟨rfl, by simp [History.lastKnownOnTop, History.lastKnown, History.start],
      Or.inr ⟨rfl, rfl, rfl⟩⟩
  · rw [Option.eq_none_iff_forall_ne_some]
    rintro ⟨position, reason⟩ hstop
    obtain ⟨hpos, hne, -⟩ :=
      ((stops_exactly hback rfl (s := .atMain) rfl).1 position reason).mp hstop
    exact hne (Eq.trans rfl hpos)

end Debug

end RegisterMachine
