import RegisterMachine.Proofs.Debug.Debuggee

/-!
# The stages of a debugged run

What a client gets to see of a run, in every order in which things can happen: the word that the run is
ready, then a stop each time a worker stops, then one word about the end. The last of these is the one
that needs an argument. A worker that waits may stop at any time, so nobody may be waiting when the end
is announced, and whether that is so is a matter of the scheduler's books, which say when waiting for
the workers of a function is over.

`Stage` says for each point of a run what has been sent by then and who can still be at work. Every move
keeps to it (`Stage.attend`, `Stage.does`), and so does every course. What it says at the end is
`Outcomes`.
-/

namespace RegisterMachine

namespace Invocation

variable {inv : Invocation} {first : Nat} {crew : List WorkerInstance} {v w : Worker}

theorem mem_takeBack {world : World} (h : v ∈ (inv.takeBack world w).world.waiting) :
    v = w ∨ v ∈ world.waiting := by
  unfold takeBack at h
  split at h
  · refine Or.inr ?_
    dsimp only at h
    split at h <;> exact h
  · exact List.mem_cons.mp h

/-- Workers that wait have ids of their own. -/
theorem Balanced.eq_of_id (h : inv.Balanced first crew) (hv : v ∈ inv.world.waiting)
    (hw : w ∈ inv.world.waiting) (hid : v.info.id = w.info.id) : v = w := by
  have hnodup := h.nodup_live
  rw [(h.live.map WorkerInstance.id).nodup_iff, List.map_map] at hnodup
  exact List.inj_on_of_nodup_map hnodup hv hw hid

theorem Balanced.le_id (h : inv.Balanced first crew) (hw : w ∈ inv.world.waiting) :
    first ≤ w.info.id := by
  have hmem : w.info ∈ crew := h.everyone.mem_iff.mp
    (List.mem_append_left _ (List.mem_map_of_mem hw))
  have hid := List.mem_map_of_mem (f := WorkerInstance.id) hmem
  rw [h.ids, List.mem_range'_1] at hid
  exact hid.1

end Invocation

namespace Debug

def Event.isStop : Event → Bool
  | .suspended .. => true
  | _ => false

/-- The events that have been sent. -/
def sent (log : List Happening) : List Event :=
  log.filterMap fun
    | .said _ e _ => some e
    | _ => none

/-- Those that the client has got. -/
def delivered (log : List Happening) : List Event :=
  log.filterMap fun
    | .said _ e true => some e
    | _ => none

/-- Whether the word to begin has been taken. -/
def Begun (log : List Happening) : Prop := .took none .start ∈ log

/-- Whether an instruction has been run. -/
def Executed (log : List Happening) : Prop := ∃ w, .ran w ∈ log

@[simp] theorem sent_append (log log' : List Happening) :
    sent (log ++ log') = sent log ++ sent log' := List.filterMap_append

@[simp] theorem delivered_append (log log' : List Happening) :
    delivered (log ++ log') = delivered log ++ delivered log' := List.filterMap_append

theorem begun_append {log log' : List Happening} : Begun (log ++ log') ↔ Begun log ∨ Begun log' :=
  List.mem_append

theorem executed_append {log log' : List Happening} :
    Executed (log ++ log') ↔ Executed log ∨ Executed log' := by
  simp only [Executed, List.mem_append, exists_or]

namespace Debuggee

variable {env : Environment} {args : List String} {store : Store} {d d' : Debuggee}
  {log log' : List Happening} {p : Program}

/-- Nothing but a stop is said on account of a worker, and only of one that is there. -/
theorem Attends.quiet (h : Attends p d log d') :
    (∀ e ∈ sent log, e.isStop = true) ∧ (d.inv.world.waiting = [] → sent log = []) ∧
      ¬ Begun log ∧ ¬ Executed log := by
  have hnobody {w : Worker} (hw : w ∈ d.inv.world.waiting) (h : d.inv.world.waiting = []) :
      sent log = [] := absurd (h ▸ hw) List.not_mem_nil
  cases h with
  | hear r => simp [sent, Begun, Executed]
  | check hw hn hc => simp [sent, Begun, Executed]
  | halt hw hn hc => simp [sent, Begun, Executed]
  | stop hw hn hl =>
    refine ⟨?_, hnobody hw, ?_⟩
    · simp [sent, stopEvent, Event.isStop]
    · simp [Begun, Executed]
  | miss hw hn hl =>
    refine ⟨?_, hnobody hw, ?_⟩
    · simp [sent, stopEvent, Event.isStop]
    · simp [Begun, Executed]
  | lock hw hn hr => simp [sent, Begun, Executed]
  | take hw hn hr ht hm => simp [sent, Begun, Executed]
  | release hw hn hr ht hm => simp [sent, Begun, Executed]
  | lose hw hn hr hq hs => simp [sent, Begun, Executed]

/-! ## The stages of a run -/

/-- Nothing of the program has been run. -/
structure Untouched (store : Store) (log : List Happening) (inv : Invocation) : Prop where
  inv : inv = ⟨.start store [], 0, []⟩
  begun : ¬ Begun log
  executed : ¬ Executed log

/-- The run has begun, workers have stopped since, and then `last` has been sent. -/
structure Underway (log : List Happening) (last : List Event) : Prop where
  begun : Begun log
  said : ∃ stops, (∀ e ∈ stops, e.isStop = true) ∧ sent log = .ready :: stops ++ last

/-- The result comes of the program and not of the session. -/
def OfProgram (result : Except RunError (List Value)) : Prop :=
  (∀ e, result ≠ .error (.session e)) ∧ ∀ name, result ≠ .error (.mainNotFound name)

/-- What has been sent, and who is at work, when a run is this far. -/
inductive Stage (p : Program) (store : Store) (log : List Happening) (inv : Invocation) :
    Control → Prop
  | opening (h : Untouched store log inv) (hs : sent log = []) : Stage p store log inv .opening
  | handshake (h : Untouched store log inv) (hm : p.mainFunction? ≠ none)
      (hs : sent log = [.ready]) : Stage p store log inv .handshake
  | noMain (h : Untouched store log inv) (hm : p.mainFunction? = none) (hs : sent log = []) :
      Stage p store log inv (.finished (.error (.mainNotFound p.entryPackage)))
  | refused (h : Untouched store log inv) (hm : p.mainFunction? ≠ none) (hs : sent log = [.ready])
      (e : SessionError) : Stage p store log inv (.finished (.error (.session e)))
  | between (hm : p.mainFunction? ≠ none) (h : Underway log []) (hw : inv.world.AtRest)
      (todo : List PackageInfo) : Stage p store log inv (.between todo)
  | running {first : Nat} {crew : List WorkerInstance} (hm : p.mainFunction? ≠ none)
      (h : Underway log []) (hb : inv.Balanced first crew) (after : Option (List PackageInfo)) :
      Stage p store log inv (.running after)
  | closing (hm : p.mainFunction? ≠ none) (h : Underway log []) (hw : inv.world.waiting = [])
      {result : Except RunError (List Value)} (hr : OfProgram result) :
      Stage p store log inv (.closing result)
  | finished (hm : p.mainFunction? ≠ none) {result : Except RunError (List Value)}
      (h : Underway log [.exit (exitStatus result)]) (hw : inv.world.waiting = [])
      (hr : OfProgram result) : Stage p store log inv (.finished result)

/-- More stops may come as long as nothing else has. -/
theorem Underway.append (h : Underway log []) (hs : ∀ e ∈ sent log', e.isStop = true) :
    Underway (log ++ log') [] where
  begun := begun_append.mpr (Or.inl h.begun)
  said := by
    obtain ⟨stops, hstops, hsent⟩ := h.said
    refine ⟨stops ++ sent log', ?_, ?_⟩
    · intro e he
      rcases List.mem_append.mp he with he | he
      · exact hstops e he
      · exact hs e he
    · simp [hsent]

theorem Untouched.append {inv : Invocation} (h : Untouched store log inv) (hb : ¬ Begun log')
    (hx : ¬ Executed log') : Untouched store (log ++ log') inv where
  inv := h.inv
  begun := by
    rw [begun_append]
    exact not_or.mpr ⟨h.begun, hb⟩
  executed := by
    rw [executed_append]
    exact not_or.mpr ⟨h.executed, hx⟩

theorem Untouched.waiting {inv : Invocation} (h : Untouched store log inv) :
    inv.world.waiting = [] := by
  rw [h.inv]
  rfl

namespace Stage

/-- What the session does with workers is in the grammar wherever workers are left. -/
theorem attend (h : Stage p store log d.inv d.control) (ha : Attends p d log' d') :
    Stage p store (log ++ log') d'.inv d'.control := by
  obtain ⟨hstops, hnone, hb, hx⟩ := ha.quiet
  obtain ⟨hinv, hcontrol⟩ := ha.apart
  rw [hinv, hcontrol]
  have hsame (h : d.inv.world.waiting = []) : sent (log ++ log') = sent log := by
    rw [sent_append, hnone h, List.append_nil]
  generalize d.control = control at h
  cases h with
  | opening h hs => exact .opening (h.append hb hx) (by rw [hsame h.waiting, hs])
  | handshake h hm hs => exact .handshake (h.append hb hx) hm (by rw [hsame h.waiting, hs])
  | noMain h hm hs => exact .noMain (h.append hb hx) hm (by rw [hsame h.waiting, hs])
  | refused h hm hs e => exact .refused (h.append hb hx) hm (by rw [hsame h.waiting, hs]) e
  | between hm h hw todo => exact .between hm (h.append hstops) hw todo
  | running hm h hb' after => exact .running hm (h.append hstops) hb' after
  | closing hm h hw hr => exact .closing hm (h.append hstops) hw hr
  | finished hm h hw hr =>
    refine .finished hm ⟨begun_append.mpr (Or.inl h.begun), ?_⟩ hw hr
    rw [hsame hw]
    exact h.said

/-- A worker that is at work has been started by a run that has begun. -/
theorem running_of_waiting {inv : Invocation} {control : Control} {w : Worker}
    (h : Stage p store log inv control) (hw : w ∈ inv.world.waiting) :
    p.mainFunction? ≠ none ∧ Underway log [] ∧ ∃ after first crew,
      control = .running after ∧ inv.Balanced first crew := by
  have hnot {Q : Prop} (h : inv.world.waiting = []) : Q := absurd (h ▸ hw) List.not_mem_nil
  cases h with
  | opening h hs => exact hnot h.waiting
  | handshake h hm hs => exact hnot h.waiting
  | noMain h hm hs => exact hnot h.waiting
  | refused h hm hs e => exact hnot h.waiting
  | between hm h hw todo => exact hnot hw.waiting
  | running hm h hb after => exact ⟨hm, h, after, _, _, rfl, hb⟩
  | closing hm h hw hr => exact hnot hw
  | finished hm h hw hr => exact hnot hw

/-- A function is set up, or its run ends here with nobody at work. -/
theorem launch {world : World} {id : FunctionId} {info : FunctionInfo}
    {handed : List (Bank × Value)} (hm : p.mainFunction? ≠ none) (h : Underway log [])
    (hw : world.AtRest) (d : Debuggee) (after : Option (List PackageInfo)) :
    Stage p store log (d.launch world id info handed after).inv
      (d.launch world id info handed after).control := by
  unfold Debuggee.launch
  cases hl : world.launch id info handed with
  | ok inv =>
    obtain ⟨-, -, crew, hb, -⟩ := World.launch_balanced hw hl
    exact .running hm h hb after
  | error e =>
    refine .closing hm h ?_ ⟨by simp, by simp⟩
    show (world.unlaunched id info handed e).waiting = []
    rw [World.waiting_unlaunched, hw.waiting]

end Stage

/-- What a function comes to when its workers have ended. -/
theorem ofProgram_conclude (outcome : Outcome) (joined : Except (List WorkerFailure) Unit) :
    OfProgram (Environment.conclude outcome joined) := by
  cases outcome with
  | error fault => simp [OfProgram, Environment.conclude]
  | ok values => cases joined <;> simp [OfProgram, Environment.conclude]

namespace Stage

/-- Waiting for the workers of a function is over when none is left. -/
theorem join {after : Option (List PackageInfo)} {outcome : Outcome}
    {joined : Except (List WorkerFailure) Unit}
    (h : Stage p store log d.inv (.running after))
    (hj : d.inv.world.scheduler.join? = some joined) :
    Stage p store log { d.inv with world := { d.inv.world with kept := [] } }
      (proceed (Environment.conclude outcome joined) after) := by
  cases h with
  | running hm h hb =>
    have hwaiting := hb.join?_eq_some_iff.mp ⟨joined, hj⟩
    have hr := ofProgram_conclude outcome joined
    cases after with
    | none =>
      refine .closing hm h ?_ hr
      exact hwaiting
    | some todo =>
      cases hresult : Environment.conclude outcome joined with
      | error e =>
        rw [hresult] at hr
        refine .closing hm h ?_ hr
        exact hwaiting
      | ok values =>
        unfold Invocation.Balanced at hb
        rw [hwaiting] at hb
        obtain ⟨hlive, hfree, -⟩ := hb.settled
        -- no worker has failed, so the next function finds the books as the first one did
        have hfailures : d.inv.world.scheduler.failures = [] := by
          have hlength : d.inv.world.scheduler.inFlight = d.inv.world.scheduler.live.length := by
            rw [hfree, hlive]
            rfl
          obtain ⟨-, hjoined⟩ := (Scheduler.join?_eq_some_iff hlength joined).mp hj
          by_contra hne
          rw [if_neg hne] at hjoined
          subst hjoined
          cases outcome <;> cases hresult
        refine .between hm h ?_ todo
        exact ⟨hwaiting, hlive, hfree, hfailures⟩

/-- **Every move keeps to the stage of the run.** -/
theorem does (h : Stage env.program store log d.inv d.control) (hd : Does env args d log' d') :
    Stage env.program store (log ++ log') d'.inv d'.control := by
  cases hd with
  | attend ha => exact h.attend ha
  | @step before after w watch hw hn =>
    obtain ⟨hm, hunder, after', first, crew, hc, hb⟩ :=
      h.running_of_waiting (w := w) (by rw [hw]; simp)
    obtain ⟨joining, hb', -⟩ := hb.turn env hw
    show Stage _ _ _ _ d.control
    rw [hc]
    exact .running hm (hunder.append (by simp [sent])) hb' after'
  | noMain hc hm =>
    rw [hc] at h
    cases h with
    | opening h hs =>
      rw [List.append_nil]
      exact .noMain h hm hs
  | greet hc hm hl =>
    rw [hc] at h
    cases h with
    | opening h hs =>
      refine .handshake (h.append ?_ ?_) (by simp [hm]) (by rw [sent_append, hs]; rfl)
      · simp [Begun]
      · simp [Executed]
  | ungreeted hc hm hl =>
    rw [hc] at h
    cases h with
    | opening h hs =>
      refine .refused (h.append ?_ ?_) (by simp [hm]) (by rw [sent_append, hs]; rfl) _
      · simp [Begun]
      · simp [Executed]
  | ignore hc ht hs =>
    rw [hc] at h
    cases h with
    | handshake h hm hs' =>
      show Stage _ _ _ _ d.control
      rw [hc]
      refine .handshake (h.append ?_ ?_) hm (by rw [sent_append, hs']; rfl)
      · simpa [Begun] using hs.symm
      · simp [Executed]
  | begin hc ht =>
    rw [hc] at h
    cases h with
    | handshake h hm hs =>
      have hunder : Underway (log ++ [.took none .start]) [] :=
        ⟨by simp [Begun], [], by simp, by rw [sent_append, hs]; rfl⟩
      refine .between hm hunder ?_ _
      rw [h.inv]
      exact ⟨rfl, rfl, rfl, rfl⟩
  | disconnected hc hq hs =>
    rw [hc] at h
    cases h with
    | handshake h hm hs =>
      rw [List.append_nil]
      exact .refused h hm hs _
  | timeout hc =>
    rw [hc] at h
    cases h with
    | handshake h hm hs =>
      rw [List.append_nil]
      exact .refused h hm hs _
  | skip hc hi =>
    rw [hc] at h
    cases h with
    | between hm h hw =>
      rw [List.append_nil]
      exact .between hm h hw _
  | missing hc hi hf =>
    rw [hc] at h
    cases h with
    | between hm h hw =>
      rw [List.append_nil]
      exact .closing hm h hw.waiting ⟨by simp, by simp⟩
  | init hc hi hf =>
    rw [hc] at h
    cases h with
    | between hm h hw =>
      rw [List.append_nil]
      exact launch hm h hw d _
  | overfull hc hm' hh =>
    rw [hc] at h
    cases h with
    | between hm h hw =>
      rw [List.append_nil]
      exact .closing hm h hw.waiting ⟨by simp, by simp⟩
  | main hc hm' hh =>
    rw [hc] at h
    cases h with
    | between hm h hw =>
      rw [List.append_nil]
      exact launch hm h (hw.handMain hh) d _
  | join hc hme ho hj =>
    rw [hc] at h
    rw [List.append_nil]
    exact h.join hj
  | @exit result hc =>
    rw [hc] at h
    cases h with
    | closing hm h hw hr =>
      obtain ⟨stops, hstops, hsent⟩ := h.said
      refine .finished hm ⟨begun_append.mpr (Or.inl h.begun), stops, hstops, ?_⟩ hw hr
      rw [sent_append, hsent, List.append_nil]
      rfl

/-- **And so does every course.** -/
theorem course {s : Session} (hc : Course env args (.start s store) log d) :
    Stage env.program store log d.inv d.control := by
  induction hc with
  | start => exact .opening ⟨rfl, by simp [Begun], by simp [Executed]⟩ rfl
  | move _ hm ih => exact ih.does hm

end Stage

/-- What a run has come to, in terms of what has been sent. -/
inductive Outcomes (p : Program) (store : Store) (log : List Happening) (inv : Invocation) :
    Except RunError (List Value) → Prop
  /-- There is nothing to run. -/
  | noMain (hm : p.mainFunction? = none) (hs : sent log = []) (hx : ¬ Executed log)
      (ho : inv.world.store = store) :
      Outcomes p store log inv (.error (.mainNotFound p.entryPackage))
  /-- The handshake has failed. -/
  | refused (hm : p.mainFunction? ≠ none) (hs : sent log = [.ready]) (hb : ¬ Begun log)
      (hx : ¬ Executed log) (ho : inv.world.store = store) (e : SessionError) :
      Outcomes p store log inv (.error (.session e))
  /-- The program has been run. -/
  | ended (hm : p.mainFunction? ≠ none) (hb : Begun log) {result : Except RunError (List Value)}
      (hr : OfProgram result) {stops : List Event} (hstops : ∀ e ∈ stops, e.isStop = true)
      (hs : sent log = .ready :: stops ++ [.exit (exitStatus result)]) :
      Outcomes p store log inv result

theorem exitStatus_eq_zero_iff {result : Except RunError (List Value)} :
    exitStatus result = 0 ↔ ∃ values, result = .ok values := by
  cases result with
  | ok values => simp [exitStatus]
  | error e => simp [exitStatus]

namespace Stage

variable {inv : Invocation} {control : Control}

theorem sent_of_noMain (h : Stage p store log inv control) (hm : p.mainFunction? = none) :
    sent log = [] := by
  cases h with
  | opening h hs => exact hs
  | noMain h hm' hs => exact hs
  | handshake h hm' => exact absurd hm hm'
  | refused h hm' => exact absurd hm hm'
  | between hm' => exact absurd hm hm'
  | running hm' => exact absurd hm hm'
  | closing hm' => exact absurd hm hm'
  | finished hm' => exact absurd hm hm'

theorem sent_of_unfinished (h : Stage p store log inv control)
    (hc : ∀ result, control ≠ .finished result) :
    sent log = [] ∨ ∃ stops, (∀ e ∈ stops, e.isStop = true) ∧ sent log = .ready :: stops := by
  have hunder (h : Underway log []) :
      ∃ stops, (∀ e ∈ stops, e.isStop = true) ∧ sent log = .ready :: stops := by
    obtain ⟨stops, hstops, hs⟩ := h.said
    exact ⟨stops, hstops, by rw [hs, List.append_nil]⟩
  cases h with
  | opening h hs => exact Or.inl hs
  | handshake h hm hs => exact Or.inr ⟨[], by simp, hs⟩
  | between hm h hw todo => exact Or.inr (hunder h)
  | running hm h hb after => exact Or.inr (hunder h)
  | closing hm h hw hr => exact Or.inr (hunder h)
  | noMain => exact absurd rfl (hc _)
  | refused => exact absurd rfl (hc _)
  | finished => exact absurd rfl (hc _)

theorem outcomes {result : Except RunError (List Value)}
    (h : Stage p store log inv (.finished result)) : Outcomes p store log inv result := by
  cases h with
  | noMain h hm hs => exact .noMain hm hs h.executed (by rw [h.inv]; rfl)
  | refused h hm hs e => exact .refused hm hs h.begun h.executed (by rw [h.inv]; rfl) e
  | finished hm h hw hr =>
    obtain ⟨stops, hstops, hs⟩ := h.said
    exact .ended hm h.begun hr hstops hs

end Stage

/-- An instruction is run only after the word to begin. -/
theorem Does.begun_of_executed (hd : Does env args d log' d')
    (h : Stage env.program store log d.inv d.control) (hx : Executed log') : Begun log := by
  cases hd with
  | attend ha => exact absurd hx ha.quiet.2.2.2
  | @step before after w watch hw hn =>
    have hw' : w ∈ d.inv.world.waiting := by simp [hw]
    obtain ⟨-, hunder, -⟩ := h.running_of_waiting hw'
    exact hunder.begun
  | _ => simp [Executed] at hx

end Debuggee

end Debug

end RegisterMachine
