import RegisterMachine.Proofs.Debug.Grammar

/-!
# Who reads commands, and what for

Commands wait in a queue, and there are two who may take them from it: the handshake before anything is
run, and after that whichever of the workers that have stopped has the lock. Most moves of a debugged
run have no part in this. `Debuggee.Deals` says of each move what it does with commands and with the
workers that wait for them, in six cases, and everything about the queue is proved by these.

That a move is one of them takes that what is kept about workers is about workers that are there
(`Debuggee.Kept`): an id that has not been given away has nobody who could have stopped, and the lock is
had by somebody who has.
-/

namespace RegisterMachine

namespace Invocation

variable {inv : Invocation} {world : World} {v w : Worker}

theorem mem_takeBack_of_mem (h : v ∈ world.waiting) : v ∈ (inv.takeBack world w).world.waiting := by
  unfold takeBack
  split
  · dsimp only
    split <;> exact h
  · exact List.mem_cons_of_mem _ h

theorem nextId_takeBack :
    (inv.takeBack world w).world.scheduler.nextId = world.scheduler.nextId := by
  unfold takeBack
  split
  · have hdone := world.scheduler.nextId_complete w.info.id w.progress.outcome
    dsimp only
    split <;> exact hdone
  · rfl

end Invocation

theorem World.nextId_le_unlaunched (world : World) (id : FunctionId) (info : FunctionInfo)
    (args : List (Bank × Value)) (e : ExecutionError) :
    world.scheduler.nextId ≤ (world.unlaunched id info args e).scheduler.nextId := by
  unfold unlaunched
  split
  · exact Nat.le_refl _
  · dsimp only [complete, Scheduler.register]
    rw [Scheduler.nextId_complete]
    exact Nat.le_succ _

namespace Debug

/-- The breakpoints that a command gives. -/
def Command.breakpoints? : Command → Option (List SourcePos)
  | setBreakpoints all => some all
  | _ => none

/-! ## The log -/

/-- The commands that have been taken, and by whom: the worker of an id or the handshake. -/
def taken (log : List Happening) : List (Option Nat × Command) :=
  log.filterMap fun
    | .took reader c => some (reader, c)
    | _ => none

/-- The workers that have stopped and told the client so. -/
def parkings (log : List Happening) : List Nat :=
  log.filterMap fun
    | .said (some w) _ true => some w.info.id
    | _ => none

/-- The commands that come into the queue. From a client that has stopped sending none does. -/
def accepted : (sending : Bool) → List Happening → List Command
  | _, [] => []
  | sending, .heard r :: log =>
      (if sending then r.commands else []) ++ accepted (sending && !r.stopsSending) log
  | sending, _ :: log => accepted sending log

/-- Whether the client still sends. -/
def sendingAfter : (sending : Bool) → List Happening → Bool
  | sending, [] => sending
  | sending, .heard r :: log => sendingAfter (sending && !r.stopsSending) log
  | sending, _ :: log => sendingAfter sending log

@[simp] theorem taken_append (log log' : List Happening) :
    taken (log ++ log') = taken log ++ taken log' := List.filterMap_append

@[simp] theorem parkings_append (log log' : List Happening) :
    parkings (log ++ log') = parkings log ++ parkings log' := List.filterMap_append

theorem accepted_append (sending : Bool) (log log' : List Happening) :
    accepted sending (log ++ log') =
      accepted sending log ++ accepted (sendingAfter sending log) log' := by
  induction log generalizing sending with
  | nil => rfl
  | cons happening log ih =>
    cases happening with
    | heard r => simp [accepted, sendingAfter, ih]
    | _ => exact ih sending

theorem sendingAfter_append (sending : Bool) (log log' : List Happening) :
    sendingAfter sending (log ++ log') = sendingAfter (sendingAfter sending log) log' := by
  induction log generalizing sending with
  | nil => rfl
  | cons happening log ih =>
    cases happening with
    | heard r => exact ih _
    | _ => exact ih sending

/-- Whoever has stopped sending does not begin again. -/
theorem sendingAfter_false (log : List Happening) : sendingAfter false log = false := by
  induction log with
  | nil => rfl
  | cons happening log ih => cases happening <;> exact ih

theorem accepted_false (log : List Happening) : accepted false log = [] := by
  induction log with
  | nil => rfl
  | cons happening log ih => cases happening <;> exact ih

/-! ## The session -/

namespace Session

variable {s s' : Session} {c : Command} {rest : List Command} {log : List Happening}

@[simp] theorem after_queue : (s.after c rest).queue = rest := by cases c <;> rfl

@[simp] theorem after_sending : (s.after c rest).sending = s.sending := by cases c <;> rfl

@[simp] theorem after_listening : (s.after c rest).listening = s.listening := by cases c <;> rfl

@[simp] theorem after_detached : (s.after c rest).detached = s.detached := by cases c <;> rfl

theorem after_breakpoints :
    (s.after c rest).breakpoints = (c.breakpoints?.map Breakpoints.ofList).getD s.breakpoints := by
  cases c <;> rfl

theorem detached_detach : s.detach.detached = true := by
  unfold detach
  split
  · assumption
  · rfl

theorem queue_detach : s.detach.queue = s.queue := by
  unfold detach
  split <;> rfl

theorem sending_detach : s.detach.sending = s.sending := by
  unfold detach
  split <;> rfl

theorem detach_of_detached (h : s.detached = true) : s.detach = s := if_pos h

theorem queue_of_take? (h : s.take? = some (c, s')) :
    ∃ rest, s.queue = c :: rest ∧ s' = s.after c rest := by
  cases hq : s.queue with
  | nil =>
    unfold take? at h
    rw [hq] at h
    cases h
  | cons c' rest =>
    rw [take?_of_queue hq] at h
    cases h
    exact ⟨rest, rfl, rfl⟩

theorem foldl_send (cs : List Command) (s : Session) :
    cs.foldl send s = { s with queue := s.queue ++ if s.sending then cs else [] } := by
  induction cs generalizing s with
  | nil => simp
  | cons c cs ih =>
    rw [List.foldl_cons, ih]
    unfold send
    cases hs : s.sending <;> simp [hs]

/-- What becomes of a session when nobody takes a command. Commands may come in and the client may go;
breakpoints stay as they are, unless the client is found to be gone. -/
structure Carries (s : Session) (log : List Happening) (s' : Session) : Prop where
  queue : s'.queue = s.queue ++ accepted s.sending log
  sending : s'.sending = sendingAfter s.sending log
  listening : s'.listening = true → s.listening = true
  breakpoints : s'.detached = false → s.detached = false ∧ s'.breakpoints = s.breakpoints
  detached : s'.detached = true → s.detached = true ∨ s.sending = false ∨ s.listening = false

namespace Carries

/-- Nothing comes in. -/
theorem silent (ha : accepted s.sending log = []) (hs : sendingAfter s.sending log = s.sending) :
    Carries s log s where
  queue := by rw [ha, List.append_nil]
  sending := hs.symm
  listening := id
  breakpoints h := ⟨h, rfl⟩
  detached := Or.inl

theorem hear (s : Session) (r : Reply) : Carries s [.heard r] (s.hear r) where
  queue := by simp [Session.hear, foldl_send, accepted]
  sending := by simp [Session.hear, foldl_send, sendingAfter]
  listening h := by
    simp only [Session.hear, foldl_send, Bool.and_eq_true] at h
    exact h.1
  breakpoints h := by
    rw [Session.hear, foldl_send] at h ⊢
    exact ⟨h, rfl⟩
  detached h := by
    rw [Session.hear, foldl_send] at h
    exact Or.inl h

theorem tell (s : Session) (w : Option Worker) (e : Event) (printed : Nat) (got : Bool) :
    Carries s [.said w e got] (s.tell printed e) := by
  unfold Session.tell
  split
  · exact { silent rfl rfl with }
  · exact silent rfl rfl

theorem still_sending (h : Carries s log s') (hs : s'.sending = true) : s.sending = true := by
  cases hsending : s.sending with
  | true => rfl
  | false =>
    rw [h.sending, hsending, sendingAfter_false] at hs
    cases hs

/-- Where no command is left and none will come, that is so for good. -/
theorem drained (h : Carries s log s') (hq : s.queue = []) (hs : s.sending = false) :
    s'.queue = [] ∧ s'.sending = false := by
  rw [h.queue, h.sending, hq, hs, accepted_false, sendingAfter_false]
  exact ⟨rfl, rfl⟩

/-- The client is found to be gone. -/
theorem detach (ha : accepted s.sending log = []) (hs : sendingAfter s.sending log = s.sending)
    (hgone : s.sending = false ∨ s.listening = false) : Carries s log s.detach := by
  unfold Session.detach
  split
  · exact silent ha hs
  · exact ⟨by simp [ha], hs.symm, id, by simp, fun _ => Or.inr hgone⟩

end Carries

end Session

namespace Debuggee

/-! ## The moves -/

/-- A worker has stopped and waits for the word to go on. -/
def Stopped (d : Debuggee) (id : Nat) : Prop := (d.notes id).stand = .stopped

instance (d : Debuggee) (id : Nat) : Decidable (d.Stopped id) :=
  inferInstanceAs (Decidable (_ = _))

/-- The mode of a worker. -/
def mode (d : Debuggee) (id : Nat) : Mode := (d.notes id).watch.mode

/-- What a move does with commands and with the workers that wait for them. -/
inductive Deals (d : Debuggee) : List Happening → Debuggee → Prop
  /-- No command is taken. Nobody begins to wait or goes on, and all modes stay. Somebody who waits may
  get the lock if nobody has it. -/
  | quiet {log : List Happening} {d' : Debuggee} (htaken : taken log = [])
      (hparked : parkings log = []) (hs : d.session.Carries log d'.session)
      (hstopped : ∀ id, d'.Stopped id ↔ d.Stopped id) (hmode : ∀ id, d'.mode id = d.mode id)
      (hreader : d'.reader = d.reader ∨ d.reader = none ∧ ∃ id, d.Stopped id ∧ d'.reader = some id) :
      Deals d log d'
  /-- A worker begins to wait. -/
  | stop {w : Worker} {e : Event} {d' : Debuggee} (hw : w ∈ d.inv.world.waiting)
      (hnew : ¬ d.Stopped w.info.id)
      (hs : d.session.Carries [.said (some w) e true] d'.session)
      (hstopped : ∀ id, d'.Stopped id ↔ id = w.info.id ∨ d.Stopped id)
      (hmode : ∀ id, d'.mode id = d.mode id) (hreader : d'.reader = d.reader) :
      Deals d [.said (some w) e true] d'
  /-- The handshake takes the next command. -/
  | greet {c : Command} {rest : List Command} {d' : Debuggee} (hc : d.control = .handshake)
      (hq : d.session.queue = c :: rest) (hs : d'.session = d.session.after c rest)
      (hnotes : d'.notes = d.notes) (hreader : d'.reader = d.reader) : Deals d [.took none c] d'
  /-- The worker that has the lock takes the next command, and goes on waiting. -/
  | read {id : Nat} {c : Command} {rest : List Command} {d' : Debuggee}
      (hstopped : d.Stopped id) (hr : d.reader = some id) (hq : d.session.queue = c :: rest)
      (hm : c.mode? = none) (hs : d'.session = d.session.after c rest)
      (hnotes : d'.notes = d.notes) (hreader : d'.reader = d.reader) : Deals d [.took (some id) c] d'
  /-- The worker that has the lock takes the word to go on. -/
  | release {id : Nat} {c : Command} {rest : List Command} {mode : Mode} {d' : Debuggee}
      (hstopped : d.Stopped id) (hr : d.reader = some id) (hq : d.session.queue = c :: rest)
      (hm : c.mode? = some mode) (hs : d'.session = d.session.after c rest)
      (hnotes : d'.notes =
        Function.update d.notes id ⟨{ (d.notes id).watch with mode }, .cleared⟩)
      (hreader : d'.reader = none) : Deals d [.took (some id) c] d'
  /-- The worker that has the lock finds that no command is left and none will come. -/
  | lose {id : Nat} {d' : Debuggee} (hstopped : d.Stopped id) (hr : d.reader = some id)
      (hq : d.session.queue = []) (hgone : d.session.sending = false)
      (hs : d'.session = d.session.detach)
      (hnotes : d'.notes = Function.update d.notes id ⟨(d.notes id).watch, .cleared⟩)
      (hreader : d'.reader = none) : Deals d [] d'

/-- What is kept about workers is about workers that are there. -/
structure Kept (d : Debuggee) : Prop where
  unborn {id : Nat} (h : d.inv.world.scheduler.nextId ≤ id) : d.notes id = .fresh
  waits {id : Nat} (h : d.Stopped id) : ∃ w ∈ d.inv.world.waiting, w.info.id = id
  reader {id : Nat} (h : d.reader = some id) : d.Stopped id

variable {env : Environment} {args : List String} {store : Store} {s : Session} {d d' : Debuggee}
  {log log' : List Happening} {p : Program}

/-- Nothing is known of the ids that have not been given away, so nothing has to be forgotten. -/
theorem Kept.fresh_eq (h : Kept d) :
    (fun id => if id < d.inv.world.scheduler.nextId then d.notes id else .fresh) = d.notes := by
  funext id
  split
  · rfl
  · exact (h.unborn (by omega)).symm

theorem Kept.notes_takeBack (h : Kept d) (watch : Watch) (world : World) {w v : Worker}
    (hinfo : v.info = w.info) :
    (d.takeBack watch world v).notes = Function.update d.notes w.info.id ⟨watch, .due⟩ := by
  unfold takeBack
  rw [h.fresh_eq, hinfo]

/-- Keeping something else about a worker that does not wait for commands. -/
theorem stopped_update {notes : Nat → Note} {i : Nat} {n : Note}
    (h : (notes i).stand ≠ .stopped) (hn : n.stand ≠ .stopped) (id : Nat) :
    (Function.update notes i n id).stand = .stopped ↔ (notes id).stand = .stopped := by
  by_cases hid : id = i
  · subst hid
    rw [Function.update_self]
    exact iff_of_false hn h
  · rw [Function.update_of_ne hid]

theorem mode_update {notes : Nat → Note} {i : Nat} {n : Note}
    (h : n.watch.mode = (notes i).watch.mode) (id : Nat) :
    (Function.update notes i n id).watch.mode = (notes id).watch.mode := by
  by_cases hid : id = i
  · subst hid
    rw [Function.update_self, h]
  · rw [Function.update_of_ne hid]

namespace Deals

/-- A move that has no part in the session. -/
theorem apart (ht : taken log = []) (hp : parkings log = [])
    (hs : d.session.Carries log d'.session) (hnotes : d'.notes = d.notes)
    (hr : d'.reader = d.reader) : Deals d log d' := by
  refine .quiet ht hp hs ?_ ?_ (Or.inl hr)
  · intro id
    unfold Stopped
    rw [hnotes]
  · intro id
    unfold mode
    rw [hnotes]

/-- A move that changes what is kept about a worker that does not wait. -/
theorem update {i : Nat} {n : Note} (ht : taken log = []) (hp : parkings log = [])
    (hs : d.session.Carries log d'.session) (hnotes : d'.notes = Function.update d.notes i n)
    (hr : d'.reader = d.reader) (hi : (d.notes i).stand ≠ .stopped) (hn : n.stand ≠ .stopped)
    (hm : n.watch.mode = (d.notes i).watch.mode) : Deals d log d' := by
  refine .quiet ht hp hs ?_ ?_ (Or.inl hr)
  · intro id
    unfold Stopped
    rw [hnotes]
    exact stopped_update hi hn id
  · intro id
    unfold mode
    rw [hnotes]
    exact mode_update hm id

theorem attend (ha : Attends p d log d') : Deals d log d' := by
  cases ha with
  | hear r => exact apart rfl rfl (.hear _ r) rfl rfl
  | check hw hn hc =>
    exact update rfl rfl (.silent rfl rfl) rfl rfl (by simp [hn]) (by simp)
      (by rw [check_mode, hn])
  | halt hw hn hc =>
    exact update rfl rfl (.silent rfl rfl) rfl rfl (by simp [hn]) (by simp)
      (by rw [check_mode, hn])
  | @stop w watch position reason hw hn hl =>
    refine .stop hw ?_ (.tell ..) ?_ (fun id => mode_update (by rw [hn]) id) rfl
    · simp [Stopped, hn]
    · intro id
      by_cases hid : id = w.info.id
      · subst hid
        simp [Stopped, note]
      · simp [Stopped, note, hid]
  | miss hw hn hl =>
    exact update rfl rfl (.detach rfl rfl (Or.inr hl)) rfl rfl (by simp [hn]) (by simp)
      (by rw [hn])
  | lock hw hn hr =>
    refine .quiet rfl rfl (.silent rfl rfl) (fun _ => Iff.rfl) (fun _ => rfl)
      (Or.inr ⟨hr, _, ?_, rfl⟩)
    rw [Stopped, hn]
  | take hw hn hr ht hm =>
    obtain ⟨rest, hq, rfl⟩ := Session.queue_of_take? ht
    exact .read (by rw [Stopped, hn]) hr hq hm rfl rfl rfl
  | release hw hn hr ht hm =>
    obtain ⟨rest, hq, rfl⟩ := Session.queue_of_take? ht
    exact .release (by rw [Stopped, hn]) hr hq hm rfl (by rw [hn]; rfl) rfl
  | lose hw hn hr hq hs =>
    exact .lose (by rw [Stopped, hn]) hr hq hs rfl (by rw [hn]; rfl) rfl

theorem launch {world : World} {id : FunctionId} {info : FunctionInfo}
    {handed : List (Bank × Value)} (h : Kept d)
    (hw : world.scheduler = d.inv.world.scheduler) (after : Option (List PackageInfo)) :
    Deals d [] (d.launch world id info handed after) := by
  unfold Debuggee.launch
  split
  · refine apart rfl rfl (.silent rfl rfl) ?_ rfl
    rw [hw]
    exact h.fresh_eq
  · exact apart rfl rfl (.silent rfl rfl) rfl rfl

/-- **Every move deals with commands in one of these ways.** -/
theorem does (h : Kept d) (hd : Does env args d log d') : Deals d log d' := by
  cases hd with
  | attend ha => exact attend ha
  | @step before after w watch hw hn =>
    have hinfo := env.step_info { d.inv.world with waiting := before ++ after } w
    generalize env.step { d.inv.world with waiting := before ++ after } w = r at hinfo ⊢
    exact update rfl rfl (.silent rfl rfl) (h.notes_takeBack watch r.1 hinfo) rfl (by simp [hn])
      (by simp) (by rw [hn])
  | greet hc hm hl => exact apart rfl rfl (.tell ..) rfl rfl
  | ignore hc ht hs =>
    obtain ⟨rest, hq, rfl⟩ := Session.queue_of_take? ht
    exact .greet hc hq rfl rfl rfl
  | begin hc ht =>
    obtain ⟨rest, hq, rfl⟩ := Session.queue_of_take? ht
    exact .greet hc hq rfl rfl rfl
  | init hc hi hf => exact launch h rfl _
  | main hc hm hh =>
    obtain ⟨store, hstore⟩ := World.handMain_store hh
    exact launch h (by rw [hstore]) _
  | exit hc => exact apart rfl rfl (.tell ..) rfl rfl
  | _ => exact apart rfl rfl (.silent rfl rfl) rfl rfl

/-- Whoever has the lock afterwards waits for commands. -/
theorem reader (hd : Deals d log d') (h : ∀ id, d.reader = some id → d.Stopped id) :
    ∀ id, d'.reader = some id → d'.Stopped id := by
  intro id hid
  cases hd with
  | quiet ht hp hs hstopped hm hr =>
    rw [hstopped]
    rcases hr with hr | ⟨-, i, hi, hr⟩
    · exact h id (hr ▸ hid)
    · rw [hr] at hid
      cases hid
      exact hi
  | stop hw hnew hs hstopped hm hr => exact (hstopped id).mpr (Or.inr (h id (hr ▸ hid)))
  | greet hc hq hs hn hr =>
    unfold Stopped
    rw [hn]
    exact h id (hr ▸ hid)
  | read hstopped hr hq hm hs hn hr' =>
    unfold Stopped
    rw [hn]
    exact h id (hr' ▸ hid)
  | release hstopped hr hq hm hs hn hr' =>
    rw [hr'] at hid
    cases hid
  | lose hstopped hr hq hgone hs hn hr' =>
    rw [hr'] at hid
    cases hid

/-- Whoever waits for commands afterwards has waited before or is there and has begun to. -/
theorem stopped {id : Nat} (hd : Deals d log d') (hid : d'.Stopped id) :
    d.Stopped id ∨ ∃ w ∈ d.inv.world.waiting, w.info.id = id := by
  have hupdate {i : Nat} {n : Note} (hnotes : d'.notes = Function.update d.notes i n)
      (hn : n.stand ≠ .stopped) : d.Stopped id := by
    unfold Stopped at hid ⊢
    rw [hnotes] at hid
    by_cases he : id = i
    · subst he
      rw [Function.update_self] at hid
      exact absurd hid hn
    · rwa [Function.update_of_ne he] at hid
  have hsame (hnotes : d'.notes = d.notes) : d.Stopped id := by
    unfold Stopped at hid ⊢
    rwa [hnotes] at hid
  cases hd with
  | quiet ht hp hs hstopped => exact Or.inl ((hstopped id).mp hid)
  | stop hw hnew hs hstopped =>
    rcases (hstopped id).mp hid with rfl | hid
    · exact Or.inr ⟨_, hw, rfl⟩
    · exact Or.inl hid
  | greet hc hq hs hnotes => exact Or.inl (hsame hnotes)
  | read hstopped hr hq hm hs hnotes => exact Or.inl (hsame hnotes)
  | release hstopped hr hq hm hs hnotes => exact Or.inl (hupdate hnotes (by simp))
  | lose hstopped hr hq hgone hs hnotes => exact Or.inl (hupdate hnotes (by simp))

end Deals

/-! ## What is kept about workers -/

/-- Whoever waits for commands after a move is where it was before. -/
theorem Does.stays (hd : Does env args d log' d') (h : Kept d)
    (hstage : Stage env.program store log d.inv d.control) {v : Worker}
    (hv : v ∈ d.inv.world.waiting) (hstopped : d'.Stopped v.info.id) :
    v ∈ d'.inv.world.waiting := by
  have hnobody {Q : Prop} (h : d.inv.world.AtRest) : Q :=
    absurd (h.waiting ▸ hv) List.not_mem_nil
  cases hd with
  | attend ha =>
    rw [ha.apart.1]
    exact hv
  | @step before after w watch hw hn =>
    have hinfo := env.step_info { d.inv.world with waiting := before ++ after } w
    obtain ⟨started, hs, -⟩ := env.step_adds { d.inv.world with waiting := before ++ after } w
    generalize env.step { d.inv.world with waiting := before ++ after } w = r
      at hinfo hs hstopped ⊢
    refine Invocation.mem_takeBack_of_mem ?_
    -- it is not the worker that has taken the step, which is due to be looked at
    have hother : v ≠ w := by
      rintro rfl
      unfold Stopped at hstopped
      rw [h.notes_takeBack watch r.1 hinfo, Function.update_self] at hstopped
      cases hstopped
    rw [hs.waiting]
    rw [hw] at hv
    simp only [List.mem_append, List.mem_cons] at hv ⊢
    tauto
  | init hc hi hf =>
    rw [hc] at hstage
    cases hstage with
    | between hm h hw => exact hnobody hw
  | main hc hm hh =>
    rw [hc] at hstage
    cases hstage with
    | between hm h hw => exact hnobody hw
  | _ => exact hv

/-- An id that has not been given away is given to a worker that nothing is known of. -/
theorem Does.unborn (hd : Does env args d log' d') (h : Kept d)
    (hstage : Stage env.program store log d.inv d.control) {id : Nat}
    (hid : d'.inv.world.scheduler.nextId ≤ id) : d'.notes id = .fresh := by
  have hother {w : Worker} {n : Note} (hw : w ∈ d.inv.world.waiting)
      (hid : d.inv.world.scheduler.nextId ≤ id) :
      Function.update d.notes w.info.id n id = .fresh := by
    obtain ⟨-, -, after, first, crew, -, hb⟩ := hstage.running_of_waiting hw
    have hlt := hb.id_lt (List.mem_map_of_mem hw)
    rw [Function.update_of_ne (by omega)]
    exact h.unborn hid
  have hlaunch {world : World} {function : FunctionId} {info : FunctionInfo}
      {handed : List (Bank × Value)} {after : Option (List PackageInfo)} (hrest : world.AtRest)
      (hw : world.scheduler = d.inv.world.scheduler)
      (hid : (d.launch world function info handed after).inv.world.scheduler.nextId ≤ id) :
      (d.launch world function info handed after).notes id = .fresh := by
    unfold Debuggee.launch at hid ⊢
    cases hl : world.launch function info handed with
    | ok inv =>
      rw [hl] at hid
      obtain ⟨-, -, crew, hb, -⟩ := World.launch_balanced hrest hl
      have hnext := hb.nextId
      dsimp only at hid ⊢
      rw [if_neg (by omega)]
    | error e =>
      rw [hl] at hid
      dsimp only at hid ⊢
      refine h.unborn (Nat.le_trans ?_ hid)
      rw [← hw]
      exact World.nextId_le_unlaunched ..
  cases hd with
  | attend ha =>
    rw [ha.apart.1] at hid
    cases ha with
    | hear r => exact h.unborn hid
    | lock => exact h.unborn hid
    | take => exact h.unborn hid
    | check hw => exact hother hw hid
    | halt hw => exact hother hw hid
    | stop hw => exact hother hw hid
    | miss hw => exact hother hw hid
    | release hw => exact hother hw hid
    | lose hw => exact hother hw hid
  | @step before after w watch hw hn =>
    have hinfo := env.step_info { d.inv.world with waiting := before ++ after } w
    obtain ⟨started, hs, -⟩ := env.step_adds { d.inv.world with waiting := before ++ after } w
    generalize env.step { d.inv.world with waiting := before ++ after } w = r at hinfo hs hid ⊢
    have hnext : (d.inv.takeBack r.1 r.2).world.scheduler.nextId = r.1.scheduler.nextId :=
      Invocation.nextId_takeBack ..
    have hle : d.inv.world.scheduler.nextId ≤ id := by
      have hgrown := hs.nextId
      have hid' : (d.inv.takeBack r.1 r.2).world.scheduler.nextId ≤ id := hid
      dsimp only at hgrown
      omega
    rw [h.notes_takeBack watch r.1 hinfo]
    exact hother (by rw [hw]; simp) hle
  | init hc hi hf =>
    rw [hc] at hstage
    cases hstage with
    | between hm hu hw => exact hlaunch hw rfl hid
  | main hc hm hh =>
    rw [hc] at hstage
    obtain ⟨store', hstore⟩ := World.handMain_store hh
    cases hstage with
    | between hm hu hw => exact hlaunch (hw.handMain hh) (by rw [hstore]) hid
  | _ => exact h.unborn hid

namespace Kept

theorem does (h : Kept d) (hstage : Stage env.program store log d.inv d.control)
    (hd : Does env args d log' d') : Kept d' where
  unborn := hd.unborn h hstage
  waits hid := by
    obtain ⟨w, hw, rfl⟩ : ∃ w ∈ d.inv.world.waiting, w.info.id = _ := by
      rcases (Deals.does h hd).stopped hid with hid | hid
      · exact h.waits hid
      · exact hid
    exact ⟨w, hd.stays h hstage hw hid, rfl⟩
  reader := (Deals.does h hd).reader (fun _ => h.reader) _

theorem course (hc : Course env args (.start s store) log d) : Kept d := by
  induction hc with
  | start => exact { unborn := fun _ => rfl, waits := nofun, reader := nofun }
  | move hc hm ih => exact ih.does (Stage.course hc) hm

end Kept

end Debuggee

end Debug

end RegisterMachine
