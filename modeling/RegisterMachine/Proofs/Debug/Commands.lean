import Mathlib.Data.Finset.Card
import Mathlib.Data.List.Chain
import RegisterMachine.Proofs.Debug.Readers

/-!
# Every command is taken once, and in order

Any number of workers may wait for commands at the same time while the client goes on sending, and a
command that is taken is gone. `Ledger` says what has come of the commands of a session by some point of
a run, in whatever order things have happened: who has taken which, what mode each worker has got by it,
which breakpoints are in force, and how many workers have been let go on. The one invariant behind it
that is not about the log is that a worker keeps the lock until it has been told to go on
(`Ledger.turn`).

Once the client has gone and the queue is empty, those who still wait let each other go one by one
(`Reached.drains`). **`Debug.commands_in_order`** puts it all together.
-/

namespace RegisterMachine.Debug

/-- The commands that workers have taken, and which. -/
def takenAtStops (log : List Happening) : List (Nat × Command) :=
  (taken log).filterMap fun t => t.1.map fun id => (id, t.2)

/-- Those that a worker has taken. -/
def takenBy (log : List Happening) (id : Nat) : List Command :=
  ((takenAtStops log).filter fun t => t.1 = id).map Prod.snd

/-- The words to go on that workers have taken. -/
def releases (log : List Happening) : List (Nat × Command) :=
  (takenAtStops log).filter fun t => t.2.mode?.isSome

/-- The mode of a worker that has taken these commands: that of the last word to go on. -/
def lastMode (cs : List Command) : Mode := (cs.filterMap Command.mode?).getLast?.getD .run

/-- The breakpoints in force when these commands have been taken: the last that have been given. -/
def inForce (b : Breakpoints) (cs : List Command) : Breakpoints :=
  ((cs.filterMap Command.breakpoints?).getLast?.map Breakpoints.ofList).getD b

/-- The handshake takes commands up to the first word to begin, and workers take the rest. -/
inductive HandedOver : List (Option Nat × Command) → Prop
  | notYet {cs : List Command} (h : .start ∉ cs) : HandedOver (cs.map fun c => (none, c))
  | since {cs : List Command} (h : .start ∉ cs) (rest : List (Nat × Command)) :
      HandedOver ((cs.map fun c => (none, c)) ++ (none, .start) ::
        rest.map fun t => (some t.1, t.2))

@[simp] theorem takenAtStops_append (log log' : List Happening) :
    takenAtStops (log ++ log') = takenAtStops log ++ takenAtStops log' := by
  simp [takenAtStops]

@[simp] theorem takenBy_append (log log' : List Happening) (id : Nat) :
    takenBy (log ++ log') id = takenBy log id ++ takenBy log' id := by
  simp [takenBy]

@[simp] theorem releases_append (log log' : List Happening) :
    releases (log ++ log') = releases log ++ releases log' := by
  simp [releases]

theorem takenAtStops_took (log : List Happening) (id : Nat) (c : Command) :
    takenAtStops (log ++ [.took (some id) c]) = takenAtStops log ++ [(id, c)] :=
  takenAtStops_append ..

theorem takenBy_took (log : List Happening) (i id : Nat) (c : Command) :
    takenBy (log ++ [.took (some i) c]) id = takenBy log id ++ if i = id then [c] else [] := by
  unfold takenBy
  rw [takenAtStops_took, List.filter_append, List.map_append]
  by_cases h : i = id <;> simp [h]

theorem releases_took (log : List Happening) (id : Nat) (c : Command) :
    releases (log ++ [.took (some id) c]) =
      releases log ++ if c.mode?.isSome then [(id, c)] else [] := by
  unfold releases
  rw [takenAtStops_took, List.filter_append]
  cases hc : c.mode? <;> simp [hc]

theorem takenAtStops_eq_nil {log : List Happening} (h : taken log = []) :
    takenAtStops log = [] := by
  rw [takenAtStops, h]
  rfl

theorem inForce_append (b : Breakpoints) (cs : List Command) (c : Command) :
    inForce b (cs ++ [c]) = (c.breakpoints?.map Breakpoints.ofList).getD (inForce b cs) := by
  unfold inForce
  cases hc : c.breakpoints? <;> simp [hc]

theorem lastMode_append (cs : List Command) (c : Command) :
    lastMode (cs ++ [c]) = c.mode?.getD (lastMode cs) := by
  unfold lastMode
  cases hc : c.mode? <;> simp [hc]

/-- A worker takes a command, and has been let begin before. -/
theorem HandedOver.worker {ts : List (Option Nat × Command)} (h : HandedOver ts)
    (hbegun : (none, .start) ∈ ts) (t : Nat × Command) : HandedOver (ts ++ [(some t.1, t.2)]) := by
  cases h with
  | notYet hno =>
    obtain ⟨c, hc, he⟩ := List.mem_map.mp hbegun
    cases he
    exact absurd hc hno
  | since hno rest =>
    rw [List.append_assoc, List.cons_append]
    simpa using HandedOver.since hno (rest ++ [t])

/-- The handshake takes a command, and has not been told to begin before. -/
theorem HandedOver.handshake {ts : List (Option Nat × Command)} (h : HandedOver ts)
    (hwaits : (none, .start) ∉ ts) (c : Command) : HandedOver (ts ++ [(none, c)]) := by
  cases h with
  | @notYet cs hno =>
    by_cases hc : c = .start
    · subst hc
      exact .since hno []
    · have hmore := @HandedOver.notYet (cs ++ [c]) (by simp [hno, Ne.symm hc])
      simpa using hmore
  | since hno rest => exact absurd (by simp) hwaits

theorem begun_iff_mem_taken {log : List Happening} : Begun log ↔ (none, .start) ∈ taken log := by
  unfold Begun taken
  rw [List.mem_filterMap]
  constructor
  · exact fun h => ⟨_, h, rfl⟩
  · rintro ⟨happening, hmem, he⟩
    cases happening with
    | took reader c =>
      cases he
      exact hmem
    | _ => cases he

namespace Debuggee

/-- The workers that wait for commands. -/
def parked (d : Debuggee) : Finset Nat :=
  (Finset.range d.inv.world.scheduler.nextId).filter fun id => d.Stopped id

variable {env : Environment} {args : List String} {store : Store} {s : Session} {d d' : Debuggee}
  {log log' : List Happening} {id : Nat}

theorem Kept.mem_parked (h : Kept d) : id ∈ d.parked ↔ d.Stopped id := by
  unfold parked
  rw [Finset.mem_filter, Finset.mem_range, and_iff_right_iff_imp]
  intro hid
  by_contra hlt
  rw [Stopped, h.unborn (Nat.le_of_not_lt hlt)] at hid
  cases hid

/-- What has come of the commands of a session. -/
structure Ledger (s : Session) (log : List Happening) (d : Debuggee) : Prop where
  /-- Commands are taken in the order in which they have come in, and those that have not been taken are
  still there. -/
  order : s.queue ++ accepted s.sending log = (taken log).map Prod.snd ++ d.session.queue
  sending : d.session.sending = sendingAfter s.sending log
  /-- The handshake is first and takes those up to the first `start`. -/
  handover : HandedOver (taken log)
  /-- A worker that has taken a command takes the next one as well, unless that command was the word to
  go on. -/
  turns : (takenAtStops log).IsChain fun t t' => t.2.mode? = none → t'.1 = t.1
  /-- It has the lock until then, or till no command can come any more. -/
  turn : ∀ t ∈ (takenAtStops log).getLast?, t.2.mode? = none →
    d.reader = some t.1 ∨ d.session.queue = [] ∧ d.session.sending = false
  /-- The mode of a worker comes from the commands that it has taken itself. -/
  modes : ∀ id, d.mode id = lastMode (takenBy log id)
  /-- The breakpoints are the last that have been given, as long as the client was there. -/
  breakpoints : d.session.detached = false →
    d.session.breakpoints = inForce s.breakpoints ((taken log).map Prod.snd)
  /-- Of the workers that have stopped, as many have gone on as words to go on have been taken. -/
  balance : d.session.detached = false →
    (parkings log).length = d.parked.card + (releases log).length
  /-- The client is found to be gone only when it is. -/
  present : s.detached = false → d.session.sending = true → d.session.listening = true →
    d.session.detached = false

namespace Deals

/-- Either no command is taken or the next one is, by somebody. -/
theorem takes (hd : Deals d log d') :
    (taken log = [] ∧ d.session.Carries log d'.session) ∨
      ∃ reader c rest, log = [.took reader c] ∧ d.session.queue = c :: rest ∧
        d'.session = d.session.after c rest := by
  cases hd with
  | quiet ht hp hs => exact Or.inl ⟨ht, hs⟩
  | stop hw hnew hs => exact Or.inl ⟨rfl, hs⟩
  | greet hc hq hs => exact Or.inr ⟨_, _, _, rfl, hq, hs⟩
  | read hstopped hr hq hm hs => exact Or.inr ⟨_, _, _, rfl, hq, hs⟩
  | release hstopped hr hq hm hs => exact Or.inr ⟨_, _, _, rfl, hq, hs⟩
  | lose hstopped hr hq hgone hs =>
    rw [hs]
    exact Or.inl ⟨rfl, .detach rfl rfl (Or.inl hgone)⟩

end Deals

namespace Ledger

variable (h : Ledger s log d) (hd : Deals d log' d')

include h hd

theorem order_deals :
    s.queue ++ accepted s.sending (log ++ log') =
        (taken (log ++ log')).map Prod.snd ++ d'.session.queue ∧
      d'.session.sending = sendingAfter s.sending (log ++ log') := by
  rw [accepted_append, sendingAfter_append, ← h.sending, ← List.append_assoc, h.order, taken_append,
    List.map_append]
  rcases hd.takes with ⟨ht, hs⟩ | ⟨reader, c, rest, rfl, hq, hs⟩
  · simp [ht, hs.queue, hs.sending]
  · simp [hs, hq, taken, accepted, sendingAfter]

theorem breakpoints_deals (hattached : d'.session.detached = false) :
    d'.session.breakpoints = inForce s.breakpoints ((taken (log ++ log')).map Prod.snd) := by
  rw [taken_append, List.map_append]
  rcases hd.takes with ⟨ht, hs⟩ | ⟨reader, c, rest, rfl, hq, hs⟩
  · obtain ⟨hbefore, hsame⟩ := hs.breakpoints hattached
    rw [ht, List.map_nil, List.append_nil, hsame, h.breakpoints hbefore]
  · rw [hs, Session.after_detached] at hattached
    rw [hs, Session.after_breakpoints, h.breakpoints hattached]
    exact (inForce_append ..).symm

theorem present_deals (hfirst : s.detached = false) (hsending : d'.session.sending = true)
    (hlistening : d'.session.listening = true) : d'.session.detached = false := by
  rcases hd.takes with ⟨ht, hs⟩ | ⟨reader, c, rest, rfl, hq, hs⟩
  · have hbefore := h.present hfirst (hs.still_sending hsending) (hs.listening hlistening)
    by_contra hdetached
    rw [Bool.not_eq_false] at hdetached
    rcases hs.detached hdetached with hwas | hgone | hgone
    · rw [hbefore] at hwas
      cases hwas
    · rw [hs.still_sending hsending] at hgone
      cases hgone
    · rw [hs.listening hlistening] at hgone
      cases hgone
  · rw [hs, Session.after_sending] at hsending
    rw [hs, Session.after_listening] at hlistening
    rw [hs, Session.after_detached]
    exact h.present hfirst hsending hlistening

/-- The handshake reads only before the word to begin, and workers only after it. -/
theorem handover_deals (hearly : d.control = .handshake → ¬ Begun log)
    (hlate : ∀ id, d.Stopped id → Begun log) : HandedOver (taken (log ++ log')) := by
  rw [begun_iff_mem_taken] at hearly hlate
  rw [taken_append]
  cases hd with
  | quiet ht => simpa [ht] using h.handover
  | stop => simpa [taken] using h.handover
  | lose => simpa [taken] using h.handover
  | greet hc => exact h.handover.handshake (hearly hc) _
  | read hid => exact h.handover.worker (hlate _ hid) (_, _)
  | release hid => exact h.handover.worker (hlate _ hid) (_, _)

/-- Whoever takes a command at a stop has the lock, and has had it since the last command that was not
the word to go on. -/
theorem turns_deals :
    ((takenAtStops (log ++ log')).IsChain fun t t' => t.2.mode? = none → t'.1 = t.1) ∧
      ∀ t ∈ (takenAtStops (log ++ log')).getLast?, t.2.mode? = none →
        d'.reader = some t.1 ∨ d'.session.queue = [] ∧ d'.session.sending = false := by
  have hnobody (ht : takenAtStops log' = [])
      (hr : ∀ id, d.reader = some id →
        d'.reader = some id ∨ d'.session.queue = [] ∧ d'.session.sending = false)
      (hgone : d.session.queue = [] ∧ d.session.sending = false →
        d'.session.queue = [] ∧ d'.session.sending = false) :
      ((takenAtStops (log ++ log')).IsChain fun t t' => t.2.mode? = none → t'.1 = t.1) ∧
        ∀ t ∈ (takenAtStops (log ++ log')).getLast?, t.2.mode? = none →
          d'.reader = some t.1 ∨ d'.session.queue = [] ∧ d'.session.sending = false := by
    rw [takenAtStops_append, ht, List.append_nil]
    refine ⟨h.turns, fun t hlast hm => ?_⟩
    rcases h.turn t hlast hm with hreader | hdrained
    · exact hr _ hreader
    · exact Or.inr (hgone hdrained)
  have hworker {id : Nat} {c : Command} {rest : List Command} (hr : d.reader = some id)
      (hq : d.session.queue = c :: rest) :
      (takenAtStops log ++ [(id, c)]).IsChain fun t t' => t.2.mode? = none → t'.1 = t.1 := by
    refine List.isChain_append.mpr ⟨h.turns, .singleton _, ?_⟩
    intro t hlast t' hfirst hm
    cases hfirst
    rcases h.turn t hlast hm with hreader | ⟨hempty, -⟩
    · rw [hr] at hreader
      cases hreader
      rfl
    · rw [hq] at hempty
      cases hempty
  cases hd with
  | quiet ht hp hs hstopped hm hr =>
    refine hnobody (takenAtStops_eq_nil ht) (fun id hid => Or.inl ?_) fun hg => hs.drained hg.1 hg.2
    rcases hr with hr | ⟨hnone, -⟩
    · rw [hr, hid]
    · rw [hnone] at hid
      cases hid
  | stop hw hnew hs hstopped hm hr =>
    exact hnobody rfl (fun id hid => Or.inl (hr.trans hid)) fun hg => hs.drained hg.1 hg.2
  | greet hc hq hs hnotes hr =>
    refine hnobody rfl (fun id hid => Or.inl (hr.trans hid)) fun hg => ?_
    rw [hq] at hg
    cases hg.1
  | read hid hr hq hm hs hnotes hr' =>
    rw [takenAtStops_took]
    refine ⟨hworker hr hq, fun t hlast _ => Or.inl ?_⟩
    rw [List.getLast?_concat] at hlast
    cases hlast
    exact hr'.trans hr
  | release hid hr hq hm hs hnotes hr' =>
    rw [takenAtStops_took]
    refine ⟨hworker hr hq, fun t hlast hnone => ?_⟩
    rw [List.getLast?_concat] at hlast
    cases hlast
    rw [hm] at hnone
    cases hnone
  | lose hid hr hq hgone hs hnotes hr' =>
    have hcarries : d.session.Carries [] d.session.detach := .detach rfl rfl (Or.inl hgone)
    have hdrained : d'.session.queue = [] ∧ d'.session.sending = false := by
      rw [hs]
      exact hcarries.drained hq hgone
    exact hnobody rfl (fun _ _ => Or.inr hdrained) fun _ => hdrained

/-- The word to go on changes the mode of the worker that takes it, and nothing else changes any. -/
theorem modes_deals (id : Nat) : d'.mode id = lastMode (takenBy (log ++ log') id) := by
  have hsame (ht : takenAtStops log' = []) (hm : d'.mode id = d.mode id) :
      d'.mode id = lastMode (takenBy (log ++ log') id) := by
    rw [hm, h.modes, takenBy_append]
    simp [takenBy, ht]
  cases hd with
  | quiet ht hp hs hstopped hm => exact hsame (takenAtStops_eq_nil ht) (hm id)
  | stop hw hnew hs hstopped hm => exact hsame rfl (hm id)
  | greet hc hq hs hnotes => exact hsame rfl (by rw [mode, mode, hnotes])
  | lose hid hr hq hgone hs hnotes =>
    refine hsame rfl ?_
    rw [mode, hnotes]
    exact mode_update (by rfl) id
  | @read i c rest _ hid hr hq hm hs hnotes =>
    rw [mode, hnotes, takenBy_took]
    refine (h.modes id).trans ?_
    split
    · rw [lastMode_append, hm]
      rfl
    · rw [List.append_nil]
  | @release i c rest mode _ hid hr hq hm hs hnotes =>
    rw [Debuggee.mode, hnotes, takenBy_took]
    split
    · rename_i he
      subst he
      rw [Function.update_self, lastMode_append, hm]
      rfl
    · rename_i hne
      rw [Function.update_of_ne (Ne.symm hne), List.append_nil]
      exact h.modes id

/-- Whoever stops is one more to wait, and the word to go on lets one of those go. -/
theorem balance_deals (hk : Kept d) (hk' : Kept d') (hattached : d'.session.detached = false) :
    (parkings (log ++ log')).length = d'.parked.card + (releases (log ++ log')).length := by
  have hsame (hstopped : ∀ id, d'.Stopped id ↔ d.Stopped id) : d'.parked = d.parked := by
    ext id
    rw [hk'.mem_parked, hk.mem_parked, hstopped]
  have hnotes (hn : d'.notes = d.notes) : d'.parked = d.parked :=
    hsame fun id => by rw [Stopped, Stopped, hn]
  have hbefore : (parkings log).length = d.parked.card + (releases log).length := by
    refine h.balance ?_
    rcases hd.takes with ⟨ht, hs⟩ | ⟨reader, c, rest, rfl, hq, hs⟩
    · exact (hs.breakpoints hattached).1
    · rwa [hs, Session.after_detached] at hattached
  rw [parkings_append, List.length_append, hbefore]
  cases hd with
  | quiet ht hp hs hstopped =>
    rw [hsame hstopped, hp, releases_append]
    simp [releases, takenAtStops, ht]
  | @stop w e _ hw hnew hs hstopped =>
    have hgrown : d'.parked = insert w.info.id d.parked := by
      ext id
      rw [hk'.mem_parked, hstopped, Finset.mem_insert, hk.mem_parked]
    have hone : parkings [.said (some w) e true] = [w.info.id] := rfl
    have hnone : releases [.said (some w) e true] = [] := rfl
    rw [hgrown, Finset.card_insert_of_notMem (mt hk.mem_parked.mp hnew), releases_append, hone, hnone,
      List.append_nil, List.length_singleton]
    omega
  | @greet c rest _ hc hq hs hn =>
    have hnone : releases [.took none c] = [] := rfl
    rw [hnotes hn, releases_append, hnone, List.append_nil]
    rfl
  | read hid hr hq hm hs hn =>
    rw [hnotes hn, releases_took, hm]
    simp [parkings]
  | @release id c rest mode _ hid hr hq hm hs hn =>
    have hleft : d'.parked = d.parked.erase id := by
      ext i
      rw [hk'.mem_parked, Finset.mem_erase, hk.mem_parked, Stopped, hn]
      by_cases hi : i = id
      · subst hi
        simp
      · simp [hi, Stopped]
    have hmem := hk.mem_parked.mpr hid
    have hpos := Finset.card_pos.mpr ⟨_, hmem⟩
    rw [hleft, Finset.card_erase_of_mem hmem, releases_took, hm]
    simp only [parkings, Option.isSome_some, if_true, List.length_append, List.length_singleton,
      List.filterMap_cons_none, List.filterMap_nil, List.length_nil]
    omega
  | lose hid hr hq hgone hs hn =>
    rw [hs, Session.detached_detach] at hattached
    cases hattached

end Ledger

theorem Ledger.course (hc : Course env args (.start s store) log d) : Ledger s log d := by
  induction hc with
  | start =>
    exact
      { order := List.append_nil _
        sending := rfl
        handover := @HandedOver.notYet [] List.not_mem_nil
        turns := .nil
        turn := nofun
        modes := fun _ => rfl
        breakpoints := fun _ => rfl
        balance := fun _ => rfl
        present := fun h _ _ => h }
  | @move log log' d d' hc hm ih =>
    have hk := Kept.course hc
    have hstage := Stage.course hc
    have hd := Deals.does hk hm
    have horder := ih.order_deals hd
    have hturns := ih.turns_deals hd
    refine ⟨horder.1, horder.2, ih.handover_deals hd ?_ ?_, hturns.1, hturns.2, ih.modes_deals hd,
      ih.breakpoints_deals hd, ih.balance_deals hd hk (hk.does hstage hm), ih.present_deals hd⟩
    · intro hc
      rw [hc] at hstage
      cases hstage with
      | handshake h => exact h.begun
    · intro id hid
      obtain ⟨w, hw, -⟩ := hk.waits hid
      exact (hstage.running_of_waiting hw).2.1.begun

/-! ## Without the client -/

theorem Stopped.note_eq (h : d.Stopped id) : d.notes id = ⟨(d.notes id).watch, .stopped⟩ := by
  unfold Stopped at h
  rw [← h]

theorem Reached.kept (h : Reached env args s store d) : Kept d := by
  obtain ⟨log, hc⟩ := h
  exact Kept.course hc

/-- Where no command is left and none will come, somebody who waits goes on. If nobody has the lock, it
takes it first. -/
theorem Reached.loses (h : Reached env args s store d) (hq : d.session.queue = [])
    (hs : d.session.sending = false) (hid : d.Stopped id) :
    ∃ i d', d.Stopped i ∧ Course env args d [] d' ∧
      d'.notes = Function.update d.notes i ⟨(d.notes i).watch, .cleared⟩ ∧
      d'.session = d.session.detach ∧ d'.inv = d.inv ∧ d'.control = d.control := by
  have hk := h.kept
  cases hr : d.reader with
  | some i =>
    have hi := hk.reader hr
    obtain ⟨w, hw, rfl⟩ := hk.waits hi
    have hlost : Attends env.program d [] _ := .lose hw hi.note_eq hr hq hs
    exact ⟨_, _, hi, (Does.attend hlost).course, rfl, rfl, rfl, rfl⟩
  | none =>
    obtain ⟨w, hw, rfl⟩ := hk.waits hid
    have hlocked : Attends env.program d [] { d with reader := some w.info.id } :=
      .lock hw hid.note_eq hr
    have hlost : Attends env.program { d with reader := some w.info.id } [] _ :=
      .lose hw hid.note_eq rfl hq hs
    exact ⟨_, _, hid, (Does.attend hlocked).course.trans (Does.attend hlost).course, rfl, rfl, rfl,
      rfl⟩

/-- Where no command is left and none will come, all who wait can go on, with what the session keeps
about them but for the waiting. -/
theorem Reached.drains (h : Reached env args s store d) (hq : d.session.queue = [])
    (hs : d.session.sending = false) :
    ∃ d', Course env args d [] d' ∧ d'.parked = ∅ ∧
      (∀ id, d'.notes id = if d.Stopped id then ⟨(d.notes id).watch, .cleared⟩ else d.notes id) ∧
      d'.session = (if d.parked = ∅ then d.session else d.session.detach) ∧
      d'.inv = d.inv ∧ d'.control = d.control := by
  -- they go on one after another
  generalize hn : d.parked.card = n
  induction n generalizing d with
  | zero =>
    have hnobody := Finset.card_eq_zero.mp hn
    refine ⟨d, .start, hnobody, fun id => ?_, (if_pos hnobody).symm, rfl, rfl⟩
    have hid : ¬ d.Stopped id := by simp [← h.kept.mem_parked, hnobody]
    rw [if_neg hid]
  | succ n ih =>
    obtain ⟨id, hid⟩ := Finset.card_pos.mp (by omega : 0 < d.parked.card)
    obtain ⟨i, d₁, hi, hc, hnotes, hsession, hinv, hcontrol⟩ :=
      h.loses hq hs (h.kept.mem_parked.mp hid)
    have hreached : Reached env args s store d₁ := by
      obtain ⟨log, hcourse⟩ := h
      exact ⟨_, hcourse.trans hc⟩
    have hstopped (j : Nat) : d₁.Stopped j ↔ j ≠ i ∧ d.Stopped j := by
      unfold Stopped
      rw [hnotes]
      by_cases hj : j = i
      · subst hj
        simp
      · simp [hj]
    have hleft : d₁.parked = d.parked.erase i := by
      ext j
      rw [hreached.kept.mem_parked, hstopped, Finset.mem_erase, h.kept.mem_parked]
    obtain ⟨d', hc', hnobody, hnotes', hsession', hinv', hcontrol'⟩ := ih hreached
      (by rw [hsession]; exact Session.queue_detach.trans hq)
      (by rw [hsession]; exact Session.sending_detach.trans hs)
      (by rw [hleft, Finset.card_erase_of_mem (h.kept.mem_parked.mpr hi), hn]; rfl)
    refine ⟨d', hc.trans hc', hnobody, fun j => ?_, ?_, hinv'.trans hinv, hcontrol'.trans hcontrol⟩
    · rw [hnotes', hnotes]
      by_cases hj : j = i
      · subst hj
        simp [hstopped, hi]
      · simp [hstopped, hj]
    · have hsome : d.parked ≠ ∅ := Finset.ne_empty_of_mem hid
      rw [hsession', hsession, if_neg hsome, Session.detach_of_detached Session.detached_detach,
        ite_self]

end Debuggee

open Debuggee

/-- **Every command is taken once, and in order.** What is run under a session comes to an end exactly if
`Ends` says so, it is a course then, and this holds of every course, in whatever order workers stop and
take their turns with the queue and the client does what it does. What has come of the commands so far is
in the `Ledger`: those that have come in have been taken in their order, each by the handshake or by one
worker, or are still there; the handshake has taken them up to the first `start`; a worker that has begun
to read goes on to the word to go on; the mode of each worker is the last that it has been told itself;
as long as the client has not been found to be gone, as many workers have been let go on as words to go
on have been taken, and the breakpoints are the last that have been given. What a single move does about
commands is one of the six things in `Deals`, two of which let a worker go on, the one that has the lock
and no other. And where the client has gone and no command is left, none will be taken any more, and all
who wait can go on in the mode they have, the first of them finding the client gone. -/
theorem commands_in_order (env : Environment) (args : List String) (s : Session) (store : Store) :
    (∀ limit client,
      ((Debug.runMain env limit client s store args).isSome ↔ Ends env limit client s store args) ∧
      ∀ s' store' result, Debug.runMain env limit client s store args = some (s', store', result) →
        ∃ log d, Course env args (.start s store) log d ∧ d.control = .finished result ∧
          d.session = s' ∧ d.inv.world.store = store') ∧
    ∀ log d, Course env args (.start s store) log d →
      Ledger s log d ∧
      (∀ log' d', Does env args d log' d' → Deals d log' d') ∧
      (d.session.queue = [] → d.session.sending = false →
        (∀ log' d', Does env args d log' d' →
          taken log' = [] ∧ d'.session.queue = [] ∧ d'.session.sending = false) ∧
        ∃ d', Course env args d [] d' ∧ d'.parked = ∅ ∧
          (∀ id, d'.notes id =
            if d.Stopped id then ⟨(d.notes id).watch, .cleared⟩ else d.notes id) ∧
          d'.session = (if d.parked = ∅ then d.session else d.session.detach) ∧
          d'.inv = d.inv ∧ d'.control = d.control) := by
  refine ⟨runMain_ends env args s store, fun log d hc => ?_⟩
  have hreached : Debuggee.Reached env args s store d := ⟨log, hc⟩
  refine ⟨.course hc, fun log' d' hd => .does hreached.kept hd, fun hq hs => ⟨?_, ?_⟩⟩
  · intro log' d' hd
    rcases (Deals.does hreached.kept hd).takes with ⟨ht, hcarries⟩ | ⟨reader, c, rest, -, htook, -⟩
    · exact ⟨ht, hcarries.drained hq hs⟩
    · rw [hq] at htook
      cases htook
  · exact hreached.drains hq hs

/-- A program with two workers that are on one line from the start, and a session with a breakpoint
there. -/
def sideBySide : Environment where
  program :=
    { entryPackage := "main"
      packages := []
      functions := #[⟨"main", "main", ⟨defaultWorkerName, 0, {}⟩, [⟨"side", 0, {}⟩]⟩]
      constants := #[]
      code := #[.ret []]
      lines := [⟨0, ⟨"main", 1⟩⟩] }
  natives := []
  maxDepth := 4

def Session.atStart : Session := { Session.start 0 with breakpoints := .ofList [⟨"main", 1⟩] }

/-- Both workers wait for commands, and the second gets the lock first. It is let go on to its next
position, while the first goes on waiting and nobody has taken what comes next. -/
theorem sideBySide_in_order :
    ∃ log d, Course sideBySide [] (.start .atStart .empty) log d ∧
      taken log = [(none, .start), (some 2, .setBreakpoints []), (some 2, .step)] ∧
      d.session.queue = [.resume] ∧ Ledger .atStart log d ∧
      d.Stopped 1 ∧ ¬ d.Stopped 2 ∧ d.mode 1 = .run ∧ d.mode 2 = .step := by
  have hmain : sideBySide.program.mainFunction?
      = some (⟨0⟩, ⟨"main", "main", ⟨defaultWorkerName, 0, {}⟩, [⟨"side", 0, {}⟩]⟩) := by
    decide +kernel
  have hnew : Course sideBySide [] (.start .atStart .empty) [] (.start .atStart .empty) := .start
  have hgreeted := (hnew.move (.greet rfl hmain rfl)).move
    (.attend (.hear _ { commands := [.start] }))
  have hbegun := (hgreeted.move (.begin rfl rfl)).move (.main rfl hmain rfl)
  -- each of the two finds that it has to stop and says so
  have hfirst := (hbegun.move (.attend (.halt List.mem_cons_self rfl rfl))).move
    (.attend (.stop List.mem_cons_self rfl rfl))
  have hboth := (hfirst.move (.attend (.halt (.tail _ (.head _)) rfl rfl))).move
    (.attend (.stop (.tail _ (.head _)) rfl rfl))
  have hlocked := (hboth.move (.attend (.lock (.tail _ (.head _)) rfl rfl))).move
    (.attend (.hear _ { commands := [.setBreakpoints [], .step, .resume] }))
  have hread := hlocked.move (.attend (.take (.tail _ (.head _)) rfl rfl rfl rfl))
  have hreleased := hread.move (.attend (.release (.tail _ (.head _)) rfl rfl rfl rfl))
  have hledger := ((commands_in_order sideBySide [] .atStart .empty).2 _ _ hreleased).1
  exact ⟨_, _, hreleased, rfl, rfl, hledger, rfl, nofun, rfl, rfl⟩

end RegisterMachine.Debug
