import RegisterMachine.Proofs.Debug.Commands

/-!
# Breakpoints that come while a program runs

The client may send other breakpoints at any time. They wait in the queue with everything else that it
has sent, and nobody looks there but a worker that has stopped. So what a boundary is measured against
is not what the client has sent by then but what has been taken by then: a worker that is on its way is
not reached by anything until some worker has stopped, be it at a breakpoint that the client has long
withdrawn.

`MustStop` says what there is to decide at a boundary, with the set of breakpoints left open. Which set
it is follows from the ledger of the commands (`Debuggee.Ledger.decides`), and the main statement is
**`Debug.breakpoints_replaced_at_stops`**.
-/

namespace RegisterMachine

namespace Breakpoints

variable {b : Breakpoints} {p : SourcePos} {all : List SourcePos}

theorem contains_insertAll : (b.insertAll all).contains p = true ↔ b.contains p = true ∨ p ∈ all := by
  induction all generalizing b with
  | nil => simp [insertAll]
  | cons q rest ih =>
    have hrest : (b.insertAll (q :: rest)).contains p = true ↔
        (b.insert q).contains p = true ∨ p ∈ rest := ih
    have hone : (b.insert q).contains p = true ↔ p = q ∨ b.contains p = true := by
      simp [contains, insert, mem_insertInto]
    rw [hrest, hone, List.mem_cons]
    tauto

/-- The set that a list gives has just the members of the list. -/
theorem contains_ofList : (ofList all).contains p = true ↔ p ∈ all := by
  unfold ofList
  rw [contains_insertAll]
  simp [contains, empty]

end Breakpoints

namespace Debug

/-! ## What there is to decide -/

/-- The position at which the frame on top of a stack of this many was seen last. -/
def Watch.onTop (watch : Watch) (depth : Nat) : Option SourcePos := watch.seen[depth - 1]?.join

/-- A worker has to stop at a boundary, at this position and for this reason, where `set` says what the
breakpoints are. -/
inductive MustStop (p : Program) (watch : Watch) (set : SourcePos → Prop) (w : Worker)
    (position : SourcePos) : Reason → Prop
  | step (hpos : w.position? p = some position) (hnew : watch.onTop w.stack.length ≠ some position)
      (hm : watch.mode = .step) : MustStop p watch set w position .step
  | breakpoint (hpos : w.position? p = some position)
      (hnew : watch.onTop w.stack.length ≠ some position) (hm : watch.mode = .run)
      (hset : set position) : MustStop p watch set w position .breakpoint

/-- What a session makes of a worker at a boundary is what it has to, going by these breakpoints. -/
def Decides (p : Program) (watch : Watch) (set : SourcePos → Prop) (w : Worker)
    (stop : Option (SourcePos × Reason)) : Prop :=
  ∀ position reason, stop = some (position, reason) ↔ MustStop p watch set w position reason

theorem Session.resized_onTop (seen : List (Option SourcePos)) (depth : Nat) :
    (resized seen (depth + 1))[depth]? = some seen[depth]?.join := by
  unfold resized
  by_cases h : depth < seen.length
  · rw [List.getElem?_append_left (by simp; omega)]
    simp [h]
  · have hlen : seen.length ≤ depth := Nat.le_of_not_lt h
    have htaken : (seen.take (depth + 1)).length = seen.length := by simp; omega
    rw [List.getElem?_append_right (by omega), htaken, List.getElem?_replicate, if_pos (by omega),
      List.getElem?_eq_none hlen]
    rfl

variable {p : Program} {s : Session} {watch : Watch} {w : Worker} {set : SourcePos → Prop}

theorem mustStop_iff {position : SourcePos} {reason : Reason} :
    MustStop p watch set w position reason ↔
      w.position? p = some position ∧ watch.onTop w.stack.length ≠ some position ∧
        (watch.mode = .step ∧ reason = .step ∨
          watch.mode = .run ∧ set position ∧ reason = .breakpoint) := by
  constructor
  · intro h
    cases h with
    | step hpos hnew hm => exact ⟨hpos, hnew, Or.inl ⟨hm, rfl⟩⟩
    | breakpoint hpos hnew hm hset => exact ⟨hpos, hnew, Or.inr ⟨hm, hset, rfl⟩⟩
  · rintro ⟨hpos, hnew, ⟨hm, rfl⟩ | ⟨hm, hset, rfl⟩⟩
    · exact .step hpos hnew hm
    · exact .breakpoint hpos hnew hm hset

/-- **A session that has its client goes by the breakpoints it has.** -/
theorem check_decides (h : s.detached = false) :
    Decides p watch (fun q => s.breakpoints.contains q = true) w (check p s watch w).2 := by
  intro position reason
  rw [mustStop_iff]
  unfold check Worker.position?
  cases hstack : w.stack with
  | nil => simp
  | cons f below =>
    dsimp only [List.length_cons, List.head?_cons, Option.bind_some]
    simp only [Option.bind_eq_some_iff, Option.map_eq_some_iff, Session.shouldSuspend_eq_some_iff h,
      Session.resized_onTop]
    unfold Watch.onTop
    rw [Nat.add_sub_cancel]
    constructor
    · rintro ⟨q, hq, r, ⟨q', hq', hnew, hwhy⟩, he⟩
      cases he
      rw [hq] at hq'
      cases hq'
      exact ⟨hq, fun he => hnew (congrArg some he), hwhy⟩
    · rintro ⟨hq, hnew, hwhy⟩
      exact ⟨position, hq, reason, ⟨position, hq, fun he => hnew (Option.some.inj he), hwhy⟩, rfl⟩

theorem Decides.congr {set' : SourcePos → Prop} {stop : Option (SourcePos × Reason)}
    (h : Decides p watch set w stop) (hset : ∀ q, set q ↔ set' q) : Decides p watch set' w stop := by
  have heq : set = set' := funext fun q => propext (hset q)
  rwa [← heq]

/-! ## Which breakpoints these are -/

theorem inForce_of_last (b : Breakpoints) {cs cs' : List Command} {all : List SourcePos}
    (h : ∀ c ∈ cs', c.breakpoints? = none) :
    inForce b (cs ++ .setBreakpoints all :: cs') = .ofList all := by
  have hnone : cs'.filterMap Command.breakpoints? = [] := List.filterMap_eq_nil_iff.mpr h
  unfold inForce
  have hthis : (Command.setBreakpoints all).breakpoints? = some all := rfl
  rw [List.filterMap_append, List.filterMap_cons_some hthis, hnone]
  simp

namespace Debuggee

variable {env : Environment} {args : List String} {store : Store} {d d' : Debuggee}
  {log log' : List Happening} {stop : Option (SourcePos × Reason)} {id : Nat}

/-- A worker is looked at as it is known. -/
theorem Does.checked (hd : Does env args d log' d') (h : .checked w stop ∈ log') :
    stop = (check env.program d.session (d.notes w.info.id).watch w).2 := by
  cases hd with
  | attend ha =>
    cases ha with
    | check hw hn hc =>
      cases List.mem_singleton.mp h
      rw [hn]
      exact hc.symm
    | halt hw hn hc =>
      cases List.mem_singleton.mp h
      rw [hn]
      exact hc.symm
    | _ => simp at h
  | _ => simp at h

theorem Ledger.decides (h : Ledger s log d) (hd : Does env args d log' d')
    (hattached : d.session.detached = false) (hc : .checked w stop ∈ log') :
    Decides env.program (d.notes w.info.id).watch
      (fun q => (inForce s.breakpoints ((taken log).map Prod.snd)).contains q = true) w stop := by
  rw [← h.breakpoints hattached, hd.checked hc]
  exact check_decides hattached

/-- After the handshake nobody takes a command but the worker that has the lock, and it has stopped. -/
theorem Deals.taken_at_stop (h : Deals d log' d') (hc : d.control ≠ .handshake) :
    ∀ t ∈ taken log', ∃ id, t.1 = some id ∧ d.Stopped id ∧ d.reader = some id := by
  intro t ht
  cases h with
  | quiet hnone =>
    rw [hnone] at ht
    cases ht
  | stop => cases ht
  | greet hhandshake => exact absurd hhandshake hc
  | read hid hr =>
    cases List.mem_singleton.mp ht
    exact ⟨_, rfl, hid, hr⟩
  | release hid hr =>
    cases List.mem_singleton.mp ht
    exact ⟨_, rfl, hid, hr⟩
  | lose => cases ht

/-- A worker that has stopped takes breakpoints that are next, if it has the lock or nobody has. It goes
on waiting. -/
theorem Kept.takes_breakpoints (h : Kept d) (hid : d.Stopped id)
    (hr : d.reader = none ∨ d.reader = some id) {all : List SourcePos} {rest : List Command}
    (hq : d.session.queue = .setBreakpoints all :: rest) :
    ∃ d', Course env args d [.took (some id) (.setBreakpoints all)] d' ∧ d'.Stopped id ∧
      d'.reader = some id ∧ d'.session.queue = rest ∧ d'.session.breakpoints = .ofList all := by
  obtain ⟨w, hw, rfl⟩ := h.waits hid
  have htake := Session.take?_of_queue hq
  rcases hr with hr | hr
  · have hlocked : Attends env.program d [] { d with reader := some w.info.id } :=
      .lock hw hid.note_eq hr
    have hread : Attends env.program { d with reader := some w.info.id } _ _ :=
      .take hw hid.note_eq rfl htake rfl
    exact ⟨_, (Does.attend hlocked).course.trans (Does.attend hread).course, hid, rfl, rfl, rfl⟩
  · have hread : Attends env.program d _ _ := .take hw hid.note_eq hr htake rfl
    exact ⟨_, (Does.attend hread).course, hid, hr, rfl, rfl⟩

/-- What is in the queue, followed by what comes in, is what is taken, followed by what is left. -/
theorem Course.order (hc : Course env args (.start s store) log d) (hc' : Course env args d log' d') :
    d.session.queue ++ accepted d.session.sending log' =
      (taken log').map Prod.snd ++ d'.session.queue := by
  have hledger := Ledger.course hc
  have horder := (Ledger.course (hc.trans hc')).order
  rwa [accepted_append, ← hledger.sending, ← List.append_assoc, hledger.order, taken_append,
    List.map_append, List.append_assoc, List.append_assoc, List.append_cancel_left_eq] at horder

/-- As long as breakpoints wait in the queue with no word to go on before them, nobody who has stopped
goes on. -/
theorem Course.stopped_until_taken (hc : Course env args (.start s store) log d)
    {before rest : List Command} {all : List SourcePos}
    (hq : d.session.queue = before ++ .setBreakpoints all :: rest)
    (hbefore : ∀ c ∈ before, c.mode? = none) (hc' : Course env args d log' d')
    (htaken : (taken log').length ≤ before.length) (hid : d.Stopped id) : d'.Stopped id := by
  induction hc' with
  | start => exact hid
  | @move log₁ log₂ d₁ d₂ hc₁ hm ih =>
    rw [taken_append, List.length_append] at htaken
    have hstopped := ih (by omega)
    have horder := hc.order hc₁
    rw [hq, List.append_assoc] at horder
    cases Deals.does (Kept.course (hc.trans hc₁)) hm with
    | quiet ht hp hs hsame => exact (hsame id).mpr hstopped
    | stop hw hnew hs hmore => exact (hmore id).mpr (Or.inr hstopped)
    | greet hcontrol hnext hs hnotes =>
      rw [Stopped, hnotes]
      exact hstopped
    | read hi hr hnext hnone hs hnotes =>
      rw [Stopped, hnotes]
      exact hstopped
    | @release i c rest' mode d' hi hr hnext hsome =>
      -- the word to go on would have to be among the commands before the breakpoints
      have hlt : ((taken log₁).map Prod.snd).length < before.length := by
        have hone : (taken [.took (some i) c]).length = 1 := rfl
        rw [List.length_map]
        omega
      have hhead := congrArg (fun cs => cs[((taken log₁).map Prod.snd).length]?) horder
      rw [hnext, List.getElem?_append_left hlt, List.getElem?_append_right (Nat.le_refl _), Nat.sub_self]
        at hhead
      rw [hbefore c (List.mem_of_getElem? hhead)] at hsome
      cases hsome
    | lose hi hr hempty =>
      have hlength := congrArg List.length horder
      rw [hempty] at hlength
      simp only [List.length_append, List.length_cons, List.length_map, List.length_nil] at hlength
      omega

end Debuggee

open Debuggee

/-- **Breakpoints are replaced at stops.** What the client sends waits behind what it has sent before.
Once the run has begun only a worker that has stopped and has the lock takes it. Breakpoints that are
next can be taken by such a worker at once, and with no word to go on before them nobody who has stopped
goes on until they are taken. Whatever the client has sent, at every boundary of every worker the session
goes by the breakpoints that were taken last: so from the moment when breakpoints are taken it goes by
these, until others are or the client is found to be gone, and before that moment it goes by those that
there were. -/
theorem breakpoints_replaced_at_stops (env : Environment) (args : List String) (s : Session)
    (store : Store) :
    (∀ limit client s' store' result,
      Debug.runMain env limit client s store args = some (s', store', result) →
      ∃ log d, Course env args (.start s store) log d ∧ d.control = .finished result ∧
        d.session = s' ∧ d.inv.world.store = store') ∧
    ∀ log d, Course env args (.start s store) log d →
      s.queue ++ accepted s.sending log = (taken log).map Prod.snd ++ d.session.queue ∧
      (Begun log → ∀ log' d', Does env args d log' d' →
        ∀ t ∈ taken log', ∃ id, t.1 = some id ∧ d.Stopped id ∧ d.reader = some id) ∧
      (∀ id all rest, d.Stopped id → d.reader = none ∨ d.reader = some id →
        d.session.queue = .setBreakpoints all :: rest →
        ∃ d', Course env args d [.took (some id) (.setBreakpoints all)] d' ∧ d'.Stopped id ∧
          d'.reader = some id ∧ d'.session.queue = rest ∧
          d'.session.breakpoints = .ofList all) ∧
      (∀ before all rest, d.session.queue = before ++ .setBreakpoints all :: rest →
        (∀ c ∈ before, c.mode? = none) → ∀ log' d', Course env args d log' d' →
        (taken log').length ≤ before.length → ∀ id, d.Stopped id → d'.Stopped id) ∧
      (∀ log' d', Does env args d log' d' → d.session.detached = false →
        ∀ w stop, .checked w stop ∈ log' →
          Decides env.program (d.notes w.info.id).watch
            (fun q => (inForce s.breakpoints ((taken log).map Prod.snd)).contains q = true) w stop) ∧
      ∀ reader all d₁, Does env args d [.took reader (.setBreakpoints all)] d₁ →
        ∀ log₂ d₂, Course env args d₁ log₂ d₂ → d₂.session.detached = false →
          (∀ t ∈ taken log₂, t.2.breakpoints? = none) →
          ∀ log' d', Does env args d₂ log' d' → ∀ w stop, .checked w stop ∈ log' →
            Decides env.program (d₂.notes w.info.id).watch (· ∈ all) w stop := by
  refine ⟨fun limit client s' store' result h => reached_runMain h, fun log d hc => ?_⟩
  have hkept := Kept.course hc
  have hledger := Ledger.course hc
  refine ⟨hledger.order, ?_, ?_, ?_, ?_, ?_⟩
  · intro hbegun log' d' hd
    refine (Deals.does hkept hd).taken_at_stop fun hcontrol => ?_
    have hstage := Stage.course hc
    rw [hcontrol] at hstage
    cases hstage with
    | handshake h => exact h.begun hbegun
  · exact fun id all rest hid hr hq => hkept.takes_breakpoints hid hr hq
  · exact fun before all rest hq hbefore log' d' hc' htaken id hid =>
      hc.stopped_until_taken hq hbefore hc' htaken hid
  · exact fun log' d' hd hattached w stop hchecked => hledger.decides hd hattached hchecked
  · intro reader all d₁ htook log₂ d₂ hc₂ hattached hnone log' d' hd w stop hchecked
    have hcourse := (hc.move htook).trans hc₂
    refine ((Ledger.course hcourse).decides hd hattached hchecked).congr fun q => ?_
    have hcommands : (taken (log ++ [.took reader (.setBreakpoints all)] ++ log₂)).map Prod.snd
        = (taken log).map Prod.snd ++ .setBreakpoints all :: (taken log₂).map Prod.snd := by
      simp [taken]
    rw [hcommands, inForce_of_last, Breakpoints.contains_ofList]
    intro c hc
    obtain ⟨t, ht, rfl⟩ := List.mem_map.mp hc
    exact hnone t ht

/-- A program of two lines, and a session with a breakpoint on the first. -/
def twoLines : Environment where
  program :=
    { entryPackage := "main"
      packages := []
      functions := #[⟨"main", "main", ⟨defaultWorkerName, 0, {}⟩, []⟩]
      constants := #[]
      code := #[.nop, .ret []]
      lines := [⟨0, ⟨"main", 1⟩⟩, ⟨1, ⟨"main", 2⟩⟩] }
  natives := []
  maxDepth := 4

def Session.atFirst : Session := { Session.start 0 with breakpoints := .ofList [⟨"main", 1⟩] }

/-- The worker has gone on from the first line when the client asks for a stop at the second. Nobody
reads that, and the worker passes the second line. -/
theorem twoLines_passed :
    ∃ log d d₁ d₂ w log₂, Course twoLines [] (.start .atFirst .empty) log d ∧ Begun log ∧
      (∀ id, ¬ d.Stopped id) ∧
      Does twoLines [] d [.heard { commands := [.setBreakpoints [⟨"main", 2⟩]] }] d₁ ∧
      Course twoLines [] d₁ log₂ d₂ ∧ accepted true log₂ = [] ∧
      d₂.session.sending = true ∧ d₂.session.listening = true ∧ d₂.session.detached = false ∧
      (∃ d₃, Does twoLines [] d₂ [.checked w none] d₃) ∧
      ¬ Decides twoLines.program (d₂.notes w.info.id).watch (· ∈ [⟨"main", 2⟩]) w none := by
  have hmain : twoLines.program.mainFunction?
      = some (⟨0⟩, ⟨"main", "main", ⟨defaultWorkerName, 0, {}⟩, []⟩) := by
    decide +kernel
  have hnew : Course twoLines [] (.start .atFirst .empty) [] (.start .atFirst .empty) := .start
  have hgreeted := (hnew.move (.greet rfl hmain rfl)).move
    (.attend (.hear _ { commands := [.start] }))
  have hbegun := (hgreeted.move (.begin rfl rfl)).move (.main rfl hmain rfl)
  have hstopped := (hbegun.move (.attend (.halt List.mem_cons_self rfl rfl))).move
    (.attend (.stop List.mem_cons_self rfl rfl))
  have hlocked := (hstopped.move (.attend (.lock List.mem_cons_self rfl rfl))).move
    (.attend (.hear _ { commands := [.resume] }))
  have hreleased := hlocked.move (.attend (.release List.mem_cons_self rfl rfl rfl rfl))
  refine ⟨_, _, _, _, _, _, hreleased, ?_, ?_, .attend (.hear _ _),
    (@Does.step _ _ _ [] [] _ _ rfl rfl).course, rfl, rfl, rfl, rfl,
    ⟨_, .attend (.check List.mem_cons_self rfl rfl)⟩, ?_⟩
  · simp [Begun]
  · intro id hid
    cases (Kept.course hreleased).mem_parked.mpr hid
  · intro h
    have hstop := (h ⟨"main", 2⟩ .breakpoint).mpr
      (.breakpoint rfl (by decide) rfl (List.mem_singleton.mpr rfl))
    cases hstop

end Debug

end RegisterMachine
