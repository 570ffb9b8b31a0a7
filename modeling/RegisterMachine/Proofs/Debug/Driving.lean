import RegisterMachine.Proofs.Debug.Stages

/-!
# One order of things

`Debug.runMain` is one way in which a debugged run can go: the client answers each event at once, a
worker that has stopped reads the queue there and then, and each worker is run to its end before the
next. Every loop of it, over commands, steps, workers or packages, is a number of moves of a
`Debuggee`, and so whatever it comes to is reached by a course (`Debuggee.reached_runMain`). What holds of
all courses holds of it.
-/

namespace RegisterMachine

namespace Debug

theorem Session.emit_of_listening {client : Client} {printed : Nat} {s : Session} {e : Event}
    (h : s.listening = true) :
    s.emit client printed e
      = ((s.tell printed e).hear (client (s.tell printed e).events), true) := by
  unfold emit tell
  rw [if_pos h, if_pos h]
  rfl

theorem Session.emit_of_gone {client : Client} {printed : Nat} {s : Session} {e : Event}
    (h : s.listening = false) : s.emit client printed e = (s, false) := by
  unfold emit
  rw [h]
  rfl

/-- A worker that has stopped reads the queue: what is left of it, how the worker goes on, and whether
it does. -/
def Session.release (s : Session) (watch : Watch) : Session × Watch × Bool :=
  let r := awaitRelease s.breakpoints s.queue
  let s := { s with breakpoints := r.1, queue := r.2.1 }
  match r.2.2 with
  | some mode => (s, { watch with mode }, true)
  | none => if s.sending then (s, watch, false) else (s.detach, watch, true)

/-- To stop a worker is to tell the client, to hear what it has to say, and to read the queue. -/
theorem Session.suspend_eq (client : Client) (printed : Nat) (s : Session) (watch : Watch)
    (worker : UInt64) (name : String) (position : SourcePos) (reason : Reason)
    (frames : List TraceEntry) :
    s.suspend client printed watch worker name position reason frames =
      if s.listening then
        let told := s.tell printed (.suspended worker name position reason frames)
        (told.hear (client told.events)).release watch
      else (s.detach, watch, true) := by
  unfold suspend
  cases hl : s.listening with
  | false =>
    rw [emit_of_gone hl]
    rfl
  | true =>
    rw [emit_of_listening hl]
    rfl

/-- The handshake reads the queue: what is left of it, and where the handshake stands. -/
def Session.letBegin (s : Session) : Session × Handshake :=
  let r := awaitStart s.breakpoints s.queue
  ({ s with breakpoints := r.1, queue := r.2.1 },
    if r.2.2 then .started else if s.sending then .waiting else .disconnected)

theorem Session.handshake_eq (client : Client) (printed : Nat) (s : Session) :
    s.handshake client printed =
      if s.listening then
        ((s.tell printed .ready).hear (client (s.tell printed .ready).events)).letBegin
      else (s, .disconnected) := by
  unfold handshake
  cases hl : s.listening with
  | false =>
    rw [emit_of_gone hl]
    rfl
  | true =>
    rw [emit_of_listening hl]
    rfl

/-- What is left to take when the first command has been taken. -/
def Session.after (s : Session) (c : Command) (rest : List Command) : Session :=
  match c with
  | .setBreakpoints all => { s with breakpoints := .ofList all, queue := rest }
  | _ => { s with queue := rest }

theorem Session.take?_of_queue {s : Session} {c : Command} {rest : List Command}
    (h : s.queue = c :: rest) : s.take? = some (c, s.after c rest) := by
  unfold take?
  rw [h]
  cases c <;> rfl

namespace Debuggee

variable {env : Environment} {args : List String} {s s' : Session} {store : Store}
  {d d' : Debuggee} {client : Client} {w : Worker} {watch watch' : Watch} {limit : Nat}
  {run run' : Run Session}

/-- A state that a run of the program can come to. -/
def Reached (env : Environment) (args : List String) (s : Session) (store : Store)
    (d : Debuggee) : Prop :=
  ∃ log, Course env args (.start s store) log d

theorem Reached.does {log : List Happening} (h : Reached env args s store d)
    (hd : Does env args d log d') : Reached env args s store d' := by
  obtain ⟨log', hc⟩ := h
  exact ⟨log' ++ log, hc.move hd⟩

theorem Reached.attend {log : List Happening} (h : Reached env args s store d)
    (ha : Attends env.program d log d') : Reached env args s store d' := h.does (.attend ha)

theorem Reached.balanced (h : Reached env args s store d) (hw : w ∈ d.inv.world.waiting) :
    ∃ first crew, d.inv.Balanced first crew := by
  obtain ⟨log, hc⟩ := h
  obtain ⟨-, -, -, first, crew, -, hb⟩ := (Stage.course hc).running_of_waiting hw
  exact ⟨first, crew, hb⟩

theorem Reached.atRest {todo : List PackageInfo} (h : Reached env args s store d)
    (hc : d.control = .between todo) : d.inv.world.AtRest := by
  obtain ⟨log, hcourse⟩ := h
  have hstage := Stage.course hcourse
  rw [hc] at hstage
  cases hstage with
  | between hm h hw => exact hw

/-! ## The handshake -/

/-- Reading the queue before the run. -/
theorem Reached.awaitStart (h : Reached env args s store d) (hc : d.control = .handshake) :
    let r := Session.awaitStart d.session.breakpoints d.session.queue
    Reached env args s store
      { d with
        session := { d.session with breakpoints := r.1, queue := r.2.1 }
        control := if r.2.2 then .between env.program.packages else .handshake } ∧
      (r.2.2 = false → r.2.1 = []) := by
  generalize hq : d.session.queue = queue
  induction queue generalizing d with
  | nil =>
    obtain ⟨⟨⟩, inv, notes, reader, control⟩ := d
    cases hq
    cases hc
    exact ⟨h, fun _ => rfl⟩
  | cons c rest ih =>
    have htake : d.session.take? = some (c, d.session.after c rest) := Session.take?_of_queue hq
    have hignore (hne : c ≠ .start) : Reached env args s store
        { d with session := d.session.after c rest } := h.does (.ignore hc htake hne)
    cases c with
    | start => exact ⟨h.does (.begin hc htake), by simp [Session.awaitStart]⟩
    | resume =>
      have hrest := ih (hignore (by simp)) hc rfl
      exact hrest
    | step =>
      have hrest := ih (hignore (by simp)) hc rfl
      exact hrest
    | setBreakpoints all =>
      have hrest := ih (hignore (by simp)) hc rfl
      exact hrest

/-- How a run goes on after the handshake. -/
def afterHandshake (p : Program) (s : Session) : Session.Handshake → Control
  | .started => .between p.packages
  | .disconnected => .finished (.error (.session .clientDisconnected))
  | .waiting => .finished (.error (.session s.timeoutError))

theorem Reached.letBegin (h : Reached env args s store d) (hc : d.control = .handshake) :
    Reached env args s store
      { d with
        session := d.session.letBegin.1
        control := afterHandshake env.program d.session.letBegin.1 d.session.letBegin.2 } := by
  obtain ⟨hread, hempty⟩ := h.awaitStart hc
  unfold Session.letBegin
  generalize Session.awaitStart d.session.breakpoints d.session.queue = r at hread hempty ⊢
  obtain ⟨breakpoints, queue, started⟩ := r
  dsimp only at hread hempty ⊢
  cases started with
  | true => exact hread
  | false =>
    by_cases hs : d.session.sending = true
    · have hwaited := hread.does (.timeout rfl)
      simp only [Bool.false_eq_true, if_false, if_pos hs]
      exact hwaited
    · have hgone := hread.does (.disconnected rfl (hempty rfl) (by simpa using hs))
      simp only [Bool.false_eq_true, if_false, if_neg hs]
      exact hgone

theorem Reached.handshake (h : Reached env args s store d) (hc : d.control = .opening)
    (hm : env.program.mainFunction? ≠ none) (client : Client) :
    Reached env args s store
      { d with
        session := (d.session.handshake client d.printed).1
        control := afterHandshake env.program (d.session.handshake client d.printed).1
          (d.session.handshake client d.printed).2 } := by
  obtain ⟨main, hm⟩ := Option.ne_none_iff_exists'.mp hm
  rw [Session.handshake_eq]
  cases hl : d.session.listening with
  | false => exact h.does (.ungreeted hc hm hl)
  | true =>
    have hheard := (h.does (.greet hc hm hl)).attend
      (.hear _ (client (d.session.tell d.printed .ready).events))
    exact hheard.letBegin rfl

/-! ## Stopping -/

/-- Reading the queue at a stop, up to the word to go on or to its end. -/
theorem Reached.awaitRelease (h : Reached env args s store d) (hw : w ∈ d.inv.world.waiting)
    (hn : d.notes w.info.id = ⟨watch, .stopped⟩) (hr : d.reader = some w.info.id) :
    let r := Session.awaitRelease d.session.breakpoints d.session.queue
    let session := { d.session with breakpoints := r.1, queue := r.2.1 }
    match r.2.2 with
    | some mode =>
        Reached env args s store
          ({ d with session, reader := none }.note w ⟨{ watch with mode }, .cleared⟩)
    | none => Reached env args s store { d with session } ∧ r.2.1 = [] := by
  generalize hq : d.session.queue = queue
  induction queue generalizing d with
  | nil =>
    obtain ⟨⟨⟩, inv, notes, reader, control⟩ := d
    cases hq
    exact ⟨h, rfl⟩
  | cons c rest ih =>
    have htake : d.session.take? = some (c, d.session.after c rest) := Session.take?_of_queue hq
    have hgo (hm : c.mode? = none) : Reached env args s store
        { d with session := d.session.after c rest } := h.attend (.take hw hn hr htake hm)
    cases c with
    | resume => exact h.attend (.release hw hn hr htake rfl)
    | step => exact h.attend (.release hw hn hr htake rfl)
    | start =>
      have hrest := ih (hgo rfl) hw hn hr rfl
      exact hrest
    | setBreakpoints all =>
      have hrest := ih (hgo rfl) hw hn hr rfl
      exact hrest

theorem Reached.release (h : Reached env args s store d) (hw : w ∈ d.inv.world.waiting)
    (hn : d.notes w.info.id = ⟨watch, .stopped⟩) (hr : d.reader = some w.info.id)
    (hgo : (d.session.release watch).2.2 = true) :
    Reached env args s store
      ({ d with session := (d.session.release watch).1, reader := none }.note w
        ⟨(d.session.release watch).2.1, .cleared⟩) := by
  have hread := h.awaitRelease hw hn hr
  unfold Session.release at hgo ⊢
  generalize Session.awaitRelease d.session.breakpoints d.session.queue = r at hread hgo ⊢
  obtain ⟨breakpoints, queue, mode⟩ := r
  dsimp only at hread hgo ⊢
  cases mode with
  | some mode => exact hread
  | none =>
    obtain ⟨hread, hq⟩ := hread
    by_cases hs : d.session.sending = true
    · simp [hs] at hgo
    · have hlost := hread.attend (.lose hw hn hr hq (by simpa using hs))
      simp only [if_neg hs]
      exact hlost

theorem note_note (d : Debuggee) (w : Worker) (n n' : Note) :
    (d.note w n).note w n' = d.note w n' := by
  unfold note
  rw [Function.update_idem]

/-- Passing the gate. -/
theorem Reached.gate {world : World} (h : Reached env args s store d)
    (hw : w ∈ d.inv.world.waiting) (hn : d.notes w.info.id = ⟨watch, .due⟩) (hr : d.reader = none)
    (hp : world.store.output.size = d.printed)
    (hg : Debug.gate env.program client d.session watch world w = some (s', watch')) :
    Reached env args s store ({ d with session := s' }.note w ⟨watch', .cleared⟩) := by
  rw [gate_eq, hp] at hg
  generalize hc : check env.program d.session watch w = r at hg
  obtain ⟨known, stop⟩ := r
  cases stop with
  | none =>
    cases hg
    have hstep := h.attend (.check hw hn (by rw [hc]))
    rw [hc] at hstep
    exact hstep
  | some stop =>
    obtain ⟨position, reason⟩ := stop
    have hfound : (check env.program d.session watch w).2 = some (position, reason) := by rw [hc]
    have hhalt := h.attend (.halt hw hn hfound)
    rw [hc] at hhalt
    dsimp only at hg hhalt
    have hself (d : Debuggee) (n : Note) : (d.note w n).notes w.info.id = n :=
      Function.update_self ..
    rw [Session.suspend_eq] at hg
    cases hl : d.session.listening with
    | false =>
      rw [hl] at hg
      cases hg
      have hmiss := hhalt.attend (.miss hw (hself _ _) hl)
      rw [← note_note _ w ⟨known, .stopping position reason⟩]
      exact hmiss
    | true =>
      rw [hl, if_pos rfl] at hg
      obtain ⟨hgo, hg⟩ := Option.ite_none_right_eq_some.mp hg
      cases hg
      -- the event is sent, the client replies, and the worker takes its turn with the queue
      have hsaid := hhalt.attend (.stop hw (hself _ _) hl)
      have hheard := hsaid.attend (.hear _ (client
        (d.session.tell d.printed (stopEvent env.program w position reason)).events))
      have hlocked := hheard.attend (.lock hw (hself _ _) hr)
      have hread := hlocked.release hw (hself _ _) rfl hgo
      rw [← note_note _ w ⟨known, .stopped⟩,
        ← note_note _ w ⟨known, .stopping position reason⟩ ⟨known, .stopped⟩, hr]
      exact hread

/-! ## Workers -/

/-- Nothing is known of the workers that wait. -/
def Unseen (waiting : List Worker) (notes : Nat → Note) : Prop :=
  ∀ w ∈ waiting, notes w.info.id = .fresh

theorem Unseen.fresh {waiting waiting' : List Worker} {notes : Nat → Note} {next : Nat}
    (h : Unseen waiting notes) (hn : ∀ w ∈ waiting', w ∈ waiting ∨ next ≤ w.info.id) :
    Unseen waiting' fun id => if id < next then notes id else .fresh := by
  intro w hw
  dsimp only
  rcases hn w hw with hold | hnew
  · rw [h w hold, ite_self]
  · rw [if_neg (Nat.not_lt.mpr hnew)]

/-- The run is where the other is that has each worker run to its end. -/
structure Along (d : Debuggee) (run : Run Session) : Prop where
  session : d.session = run.seen
  world : d.inv.world = run.world
  reader : d.reader = none
  unseen : Unseen run.world.waiting d.notes

/-- It has come to a worker, which it has taken from those that wait. -/
structure Upon (d : Debuggee) (run : Run Session) (o : Watch) (w : Worker) : Prop where
  session : d.session = run.seen
  world : d.inv.world = { run.world with waiting := w :: run.world.waiting }
  reader : d.reader = none
  unseen : Unseen run.world.waiting d.notes
  note : d.notes w.info.id = ⟨o, .due⟩
  past : run.world.Past w.info.id

/-- A worker passes the gate and takes its step. -/
theorem Upon.turn {o o' : Watch} {seen : Session} (h : Upon d run o w)
    (hd : Reached env args s store d)
    (hg : Debug.gate env.program client run.seen o run.world w = some (seen, o')) :
    ∃ d', Reached env args s store d' ∧
      d'.inv = d.inv.takeBack (env.step run.world w).1 (env.step run.world w).2 ∧
      d'.session = seen ∧ d'.reader = none ∧ d'.control = d.control ∧
      d'.notes w.info.id = ⟨o', .due⟩ ∧ Unseen (env.step run.world w).1.waiting d'.notes ∧
      (env.step run.world w).1.Past w.info.id := by
  have hw : d.inv.world.waiting = [] ++ w :: run.world.waiting := by
    rw [h.world, List.nil_append]
  have hworld : ({ d.inv.world with waiting := [] ++ run.world.waiting } : World) = run.world := by
    rw [h.world]
    rfl
  rw [← h.session] at hg
  have hpass := hd.gate (w := w) (by simp [hw]) h.note h.reader (by rw [printed, h.world]) hg
  have hstep := hpass.does (.step hw (Function.update_self ..))
  dsimp only [Debuggee.note] at hstep
  rw [hworld] at hstep
  obtain ⟨started, hstarts, -⟩ := env.step_adds run.world w
  have hinfo := env.step_info run.world w
  generalize env.step run.world w = r at hstep hstarts hinfo ⊢
  have hpast : r.1.Past w.info.id := h.past.of_starts hstarts
  refine ⟨_, hstep, rfl, rfl, h.reader, rfl, ?_, ?_, hpast⟩
  · simp [Debuggee.takeBack, hinfo]
  · -- those that wait behind it are as unseen as before
    intro v hv
    have hid : v.info.id ≠ w.info.id := hpast.2 v hv
    rw [hstarts.waiting] at hv
    simp only [Debuggee.takeBack, hinfo, Function.update_of_ne hid]
    refine h.unseen.fresh (fun u hu => ?_) v hv
    rw [h.world]
    exact (List.mem_append.mp hu).imp_right fun hm => (hstarts.ids u hm).1

/-- Running a worker to its end. -/
theorem Upon.runWorker {o : Watch} {outcome : Outcome} (h : Upon d run o w)
    (hd : Reached env args s store d)
    (hrun : env.runWorker (observer env.program client) limit run o w = some (run', outcome)) :
    ∃ d' w', Reached env args s store d' ∧ d'.session = run'.seen ∧
      d'.inv = d.inv.takeBack run'.world w' ∧ w'.info = w.info ∧ w'.progress.isFinal = true ∧
      w'.progress.outcome = outcome ∧ d'.reader = none ∧ d'.control = d.control ∧
      Unseen run'.world.waiting d'.notes := by
  induction limit generalizing run o w d with
  | zero => exact absurd hrun (by simp [Environment.runWorker])
  | succ limit ih =>
    unfold Environment.runWorker at hrun
    cases hg : (observer env.program client).observe run.seen o run.world w with
    | none =>
      rw [hg] at hrun
      exact absurd hrun (by simp)
    | some known =>
      obtain ⟨seen, o'⟩ := known
      rw [hg] at hrun
      dsimp only at hrun
      obtain ⟨d', hd', hinv, hs, hr, hc, hn, hu, hp⟩ := h.turn hd hg
      have hinfo := env.step_info run.world w
      generalize env.step run.world w = r at hrun hinv hu hp hinfo
      by_cases hf : r.2.progress.isFinal = true
      · rw [if_pos hf, Option.some.injEq, Prod.mk.injEq] at hrun
        obtain ⟨rfl, rfl⟩ := hrun
        exact ⟨d', r.2, hd', hs, hinv, hinfo, hf, rfl, hr, hc, hu⟩
      · rw [if_neg hf] at hrun
        rw [Invocation.takeBack_of_running (by simpa using hf)] at hinv
        have hnext : Upon d' ⟨seen, r.1⟩ o' r.2 :=
          ⟨hs, by rw [hinv], hr, hu, by rw [hinfo, hn], by rwa [hinfo]⟩
        obtain ⟨d'', w', hd'', hs', hinv', hinfo', hf', ho', hr', hc', hu'⟩ := ih hnext hd' hrun
        refine ⟨d'', w', hd'', hs', ?_, hinfo'.trans hinfo, hf', ho', hr', hc'.trans hc, hu'⟩
        rw [hinv', hinv]
        exact Invocation.takeBack_congr rfl rfl

/-- Whoever waits first is next. -/
theorem Along.upon {waiting : List Worker} (h : Along d run) (hd : Reached env args s store d)
    (hw : run.world.waiting = w :: waiting) :
    Upon d ⟨run.seen, { run.world with waiting }⟩ .start w := by
  have hmem (v : Worker) (hv : v ∈ waiting) : v ∈ run.world.waiting := by
    rw [hw]
    exact List.mem_cons_of_mem _ hv
  have hfirst : w ∈ run.world.waiting := by
    rw [hw]
    exact List.mem_cons_self
  obtain ⟨first, crew, hb⟩ := hd.balanced (w := w) (by rwa [h.world])
  unfold Invocation.Balanced at hb
  rw [h.world, hw, List.map_cons] at hb
  refine ⟨h.session, ?_, h.reader, fun v hv => h.unseen v (hmem v hv), h.unseen w hfirst, ?_, ?_⟩
  · rw [h.world, ← hw]
  · exact hb.id_lt List.mem_cons_self
  · intro v hv
    exact hb.id_ne (Or.inl (List.mem_map_of_mem hv))

/-- Running those that wait, in their order. -/
theorem Along.runWaiting {workers : Nat} (h : Along d run) (hd : Reached env args s store d)
    (hmain : run.world.Past d.inv.main)
    (hrun : env.runWaiting (observer env.program client) limit workers run = some run') :
    ∃ d' ended, Reached env args s store d' ∧ Along d' run' ∧ d'.inv.main = d.inv.main ∧
      d'.inv.ended = d.inv.ended ++ ended ∧ d'.control = d.control := by
  induction workers generalizing run d with
  | zero => exact absurd hrun (by simp [Environment.runWaiting])
  | succ workers ih =>
    unfold Environment.runWaiting at hrun
    cases hw : run.world.waiting with
    | nil =>
      simp only [hw, Option.some.injEq] at hrun
      subst hrun
      exact ⟨d, [], hd, h, rfl, (List.append_nil _).symm, rfl⟩
    | cons w waiting =>
      simp only [hw] at hrun
      have hne : w.info.id ≠ d.inv.main := hmain.2 w (by rw [hw]; exact List.mem_cons_self)
      have hmain' : ({ run.world with waiting } : World).Past d.inv.main :=
        ⟨hmain.1, fun v hv => hmain.2 v (by rw [hw]; exact List.mem_cons_of_mem _ hv)⟩
      cases hr : env.runWorker (observer env.program client) limit
          ⟨run.seen, { run.world with waiting }⟩ .start w with
      | none =>
        simp only [observer] at hrun hr
        rw [hr] at hrun
        exact absurd hrun (by simp)
      | some ran =>
        have hupon := h.upon hd hw
        obtain ⟨-, hpast⟩ := Environment.runWorker_plays hr d.inv hupon.world
        obtain ⟨d', w', hd', hs, hinv, hinfo, hf, ho, hr', hc, hu⟩ := hupon.runWorker hd hr
        simp only [observer] at hrun hr
        rw [hr] at hrun
        dsimp only at hrun
        rw [Invocation.takeBack_other hf (by rwa [hinfo]), hinfo, ho] at hinv
        have halong : Along d' ⟨ran.1.seen, ran.1.world.complete w.info ran.2⟩ :=
          ⟨hs, by rw [hinv], hr', hu⟩
        have hmain'' : (ran.1.world.complete w.info ran.2).Past d'.inv.main := by
          rw [hinv]
          exact (hpast _ hmain').complete
        obtain ⟨d'', ended, hd'', halong', hm, he, hc'⟩ := ih halong hd' hmain'' hrun
        refine ⟨d'', (w.info, ran.2) :: ended, hd'', halong', ?_, ?_, hc'.trans hc⟩
        · rw [hm, hinv]
        · rw [he, hinv, List.append_assoc]
          rfl

/-! ## Functions -/

theorem proceed_error (e : RunError) (after : Option (List PackageInfo)) :
    proceed (.error e) after = .closing (.error e) := by
  cases after <;> rfl

/-- A function that could not be set up. -/
theorem launch_of_error {world : World} {id : FunctionId} {info : FunctionInfo}
    {handed : List (Bank × Value)} {e : ExecutionError}
    (h : world.launch id info handed = .error e) (d : Debuggee)
    (after : Option (List PackageInfo)) :
    d.launch world id info handed after =
      { d with
        inv := { d.inv with world := world.unlaunched id info handed e }
        control := .closing (.error (.faulted ⟨e, []⟩)) } := by
  unfold Debuggee.launch
  rw [h]

/-- A function that could: its default worker is first, and nothing is known of anyone. -/
theorem along_launch {world : World} {id : FunctionId} {info : FunctionInfo}
    {handed : List (Bank × Value)} {inv : Invocation}
    (h : world.launch id info handed = .ok inv) (hw : world.AtRest) (d : Debuggee)
    (hr : d.reader = none) (after : Option (List PackageInfo)) :
    Along (d.launch world id info handed after) ⟨d.session, inv.world⟩ ∧
      (d.launch world id info handed after).inv = inv ∧
      (d.launch world id info handed after).control = .running after := by
  obtain ⟨-, -, crew, hb, -⟩ := World.launch_balanced hw h
  unfold Debuggee.launch
  rw [h]
  refine ⟨⟨rfl, rfl, hr, ?_⟩, rfl, rfl⟩
  have hnobody : Unseen [] d.notes := fun _ hv => absurd hv List.not_mem_nil
  exact hnobody.fresh fun v hv => Or.inr (hb.le_id hv)

/-- Running a function that could be set up. -/
theorem Reached.runLaunched {id : FunctionId} {info : FunctionInfo} {handed : List (Bank × Value)}
    {after : Option (List PackageInfo)} {result : Except RunError (List Value)} {inv : Invocation}
    (hd : Reached env args s store (d.launch run.world id info handed after))
    (hs : d.session = run.seen) (hr : d.reader = none) (hw : run.world.AtRest)
    (hk : run.world.kept = []) (hl : run.world.launch id info handed = .ok inv)
    (hrun : env.runFunction (observer env.program client) limit run id info handed
      = some (run', result)) :
    ∃ d', Reached env args s store d' ∧ Along d' run' ∧ d'.control = proceed result after ∧
      run'.world.kept = [] := by
  obtain ⟨frame, scheduler, me, world, -, -, -, hinv⟩ := World.launch_eq_ok hl
  have hfirst : inv.world.waiting = .start me frame :: world.waiting := by rw [hinv]
  have hmain : inv.main = me.id := by rw [hinv]
  rw [Environment.runFunction_of_launch hl hfirst, hk] at hrun
  obtain ⟨⟨ran, outcome⟩, hworker, hrun⟩ := Option.bind_eq_some_iff.mp hrun
  obtain ⟨waited, hwaiting, hrun⟩ := Option.bind_eq_some_iff.mp hrun
  obtain ⟨joined, hjoin, hrun⟩ := Option.bind_eq_some_iff.mp hrun
  cases hrun
  obtain ⟨halong, hlaunched, hc⟩ := along_launch hl hw d hr after
  rw [hs] at halong
  -- first the default worker
  have hupon := halong.upon hd hfirst
  obtain ⟨-, hpast⟩ := Environment.runWorker_plays hworker _ hupon.world
  obtain ⟨d', w', hd', hs', hinv', hinfo, hf, ho, hr', hc', hu⟩ := hupon.runWorker hd hworker
  rw [Invocation.takeBack_main hf (by rw [hinfo, hlaunched, hmain]; rfl), hinfo, ho,
    hlaunched] at hinv'
  have halong' : Along d' ⟨ran.seen, (ran.world.complete me outcome).hold outcome.values⟩ :=
    ⟨hs', by rw [hinv']; rfl, hr', hu⟩
  -- then the others, and when nobody is left the result is there
  have hmain' : ((ran.world.complete me outcome).hold outcome.values).Past d'.inv.main := by
    rw [hinv', hmain]
    exact (hpast _ hupon.past).complete
  obtain ⟨d'', ended, hd'', halong'', hm, he, hc''⟩ := halong'.runWaiting hd' hmain' hwaiting
  have hended : (me, outcome) ∈ d''.inv.ended := by
    rw [he, hinv', hinv]
    exact List.mem_cons_self
  have hlast := hd''.does (.join (hc''.trans (hc'.trans hc)) (by rw [hm, hinv', hmain]) hended
    (by rw [halong''.world]; exact hjoin))
  refine ⟨_, hlast, ⟨halong''.session, ?_, halong''.reader, halong''.unseen⟩, rfl, rfl⟩
  show ({ d''.inv.world with kept := [] } : World) = _
  rw [halong''.world]

/-- Running a function with all its workers. -/
theorem Reached.runFunction (run : Run Session) {id : FunctionId} {info : FunctionInfo}
    {handed : List (Bank × Value)} {after : Option (List PackageInfo)}
    {result : Except RunError (List Value)}
    (hd : Reached env args s store (d.launch run.world id info handed after))
    (hs : d.session = run.seen) (hr : d.reader = none) (hw : run.world.AtRest)
    (hk : run.world.kept = [])
    (hrun : env.runFunction (observer env.program client) limit run id info handed
      = some (run', result)) :
    ∃ d', Reached env args s store d' ∧ Along d' run' ∧ d'.control = proceed result after ∧
      run'.world.kept = [] := by
  cases hl : run.world.launch id info handed with
  | ok inv => exact hd.runLaunched hs hr hw hk hl hrun
  | error e =>
    rw [Environment.runFunction_of_launch_error hl] at hrun
    cases hrun
    have hlaunched := launch_of_error hl d after
    refine ⟨_, hd, ⟨?_, ?_, ?_, fun v hv => ?_⟩, ?_, ?_⟩
    · rw [hlaunched]
      exact hs
    · rw [hlaunched]
    · rw [hlaunched]
      exact hr
    · rw [World.waiting_unlaunched, hw.waiting] at hv
      exact absurd hv List.not_mem_nil
    · rw [hlaunched, proceed_error]
    · rw [World.kept_unlaunched, hk]

/-- Running the init functions of packages. -/
theorem Reached.runInits {packages : List PackageInfo} {result : Except RunError Unit}
    (hd : Reached env args s store d) (h : Along d run) (hc : d.control = .between packages)
    (hk : run.world.kept = [])
    (hrun : env.runInits (observer env.program client) limit run packages = some (run', result)) :
    ∃ d', Reached env args s store d' ∧ Along d' run' ∧ run'.world.kept = [] ∧
      d'.control = proceed (result.map fun _ => []) (some []) := by
  induction packages generalizing run d with
  | nil =>
    cases hrun
    exact ⟨d, hd, h, hk, hc⟩
  | cons package rest ih =>
    unfold Environment.runInits at hrun
    cases hi : package.initFunction with
    | none =>
      rw [hi] at hrun
      exact ih (hd.does (.skip hc hi)) ⟨h.session, h.world, h.reader, h.unseen⟩ rfl hk hrun
    | some id =>
      rw [hi] at hrun
      dsimp only at hrun
      cases hf : env.program.function? id with
      | none =>
        rw [hf] at hrun
        cases hrun
        exact ⟨_, hd.does (.missing hc hi hf), ⟨h.session, h.world, h.reader, h.unseen⟩, hk, rfl⟩
      | some info =>
        rw [hf] at hrun
        dsimp only at hrun
        have hlaunch := hd.does (.init hc hi hf)
        have hrest := hd.atRest hc
        rw [h.world] at hlaunch hrest
        cases hfun : env.runFunction (observer env.program client) limit run id info [] with
        | none =>
          rw [hfun] at hrun
          cases hrun
        | some r =>
          obtain ⟨ran, result'⟩ := r
          rw [hfun] at hrun
          obtain ⟨d', hd', halong, hc', hk'⟩ :=
            hlaunch.runFunction run h.session h.reader hrest hk hfun
          cases result' with
          | error e =>
            cases hrun
            exact ⟨d', hd', halong, hk', hc'⟩
          | ok values => exact ih hd' halong hc' hk' hrun

/-- Running the program, when the handshake is over. -/
theorem Reached.runPackages {id : FunctionId} {info : FunctionInfo}
    {result : Except RunError (List Value)} (hd : Reached env args s store d) (h : Along d run)
    (hc : d.control = .between env.program.packages) (hk : run.world.kept = [])
    (hm : env.program.mainFunction? = some (id, info))
    (hrun : env.runPackages (observer env.program client) limit run id info args
      = some (run', result)) :
    ∃ d', Reached env args s store d' ∧ Along d' run' ∧ d'.control = .closing result := by
  rw [Environment.runPackages_eq] at hrun
  obtain ⟨⟨ran, inits⟩, hinits, hrun⟩ := Option.bind_eq_some_iff.mp hrun
  obtain ⟨d', hd', halong, hk', hc'⟩ := hd.runInits h hc hk hinits
  cases inits with
  | error e =>
    cases hrun
    exact ⟨d', hd', halong, hc'⟩
  | ok _ =>
    have hrest := hd'.atRest hc'
    rw [halong.world] at hrest
    dsimp only at hrun
    cases hhand : ran.world.handMain info args with
    | error e =>
      rw [hhand] at hrun
      cases hrun
      have hover := hd'.does (.overfull hc' hm (by rw [halong.world, hhand]))
      exact ⟨_, hover, ⟨halong.session, halong.world, halong.reader, halong.unseen⟩, rfl⟩
    | ok handed =>
      rw [hhand] at hrun
      obtain ⟨world, handed⟩ := handed
      have hlaunch := hd'.does (.main hc' hm (by rw [halong.world, hhand]))
      have hkept : world.kept = [] := by
        obtain ⟨store, rfl⟩ := World.handMain_store hhand
        exact hk'
      obtain ⟨d'', hd'', halong', hc'', -⟩ := hlaunch.runFunction ⟨ran.seen, world⟩ halong.session
        halong.reader (hrest.handMain hhand) hkept hrun
      exact ⟨d'', hd'', halong', hc''⟩

/-- Saying that the run has ended. -/
theorem Reached.exit {result : Except RunError (List Value)} (h : Reached env args s store d)
    (hc : d.control = .closing result) (client : Client) :
    Reached env args s store
      { d with
        session := d.session.notifyExit client d.printed (exitStatus result)
        control := .finished result } := by
  have hsaid := h.does (.exit hc)
  unfold Session.notifyExit
  cases hl : d.session.listening with
  | false =>
    have hsame : d.session.tell d.printed (.exit (exitStatus result)) = d.session := by
      unfold Session.tell
      rw [hl]
      rfl
    rw [hsame] at hsaid
    rw [Session.emit_of_gone hl]
    exact hsaid
  | true =>
    rw [Session.emit_of_listening hl]
    have hheard := hsaid.attend (.hear _
      (client (d.session.tell d.printed (.exit (exitStatus result))).events))
    exact hheard

/-- **What is run under a session is the end of a course.** -/
theorem reached_runMain {store' : Store} {result : Except RunError (List Value)}
    (hrun : Debug.runMain env limit client s store args = some (s', store', result)) :
    ∃ log d, Course env args (.start s store) log d ∧ d.control = .finished result ∧
      d.session = s' ∧ d.inv.world.store = store' := by
  have hnew : Reached env args s store (.start s store) := ⟨[], .start⟩
  suffices h : ∃ d, Reached env args s store d ∧ d.control = .finished result ∧ d.session = s' ∧
      d.inv.world.store = store' by
    obtain ⟨d, ⟨log, hc⟩, hd⟩ := h
    exact ⟨log, d, hc, hd⟩
  unfold Debug.runMain at hrun
  cases hm : env.program.mainFunction? with
  | none =>
    rw [hm] at hrun
    cases hrun
    exact ⟨_, hnew.does (.noMain rfl hm), rfl, rfl, rfl⟩
  | some main =>
    obtain ⟨id, info⟩ := main
    have hshake : Reached env args s store
        { Debuggee.start s store with
          session := (s.handshake client store.output.size).1
          control := afterHandshake env.program (s.handshake client store.output.size).1
            (s.handshake client store.output.size).2 } :=
      hnew.handshake rfl (by simp [hm]) client
    rw [hm] at hrun
    dsimp only at hrun
    generalize s.handshake client store.output.size = r at hrun hshake
    obtain ⟨shaken, handshake⟩ := r
    cases handshake with
    | disconnected =>
      cases hrun
      exact ⟨_, hshake, rfl, rfl, rfl⟩
    | waiting =>
      cases hrun
      exact ⟨_, hshake, rfl, rfl, rfl⟩
    | started =>
      obtain ⟨⟨ran, result'⟩, hpackages, hrun⟩ := Option.bind_eq_some_iff.mp hrun
      have hstart : Along
          { Debuggee.start s store with
            session := shaken, control := .between env.program.packages }
          ⟨shaken, .start store []⟩ :=
        ⟨rfl, rfl, rfl, fun _ hv => absurd hv List.not_mem_nil⟩
      obtain ⟨d, hd, halong, hc⟩ := hshake.runPackages hstart rfl rfl hm hpackages
      have hexit := hd.exit hc client
      rw [halong.session, printed, halong.world] at hexit
      cases hrun
      exact ⟨_, hexit, rfl, by cases result' <;> rfl, congrArg World.store halong.world⟩

end Debuggee

end Debug

end RegisterMachine
