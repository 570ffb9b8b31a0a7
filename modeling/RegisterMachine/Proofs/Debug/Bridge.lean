import Mathlib.Data.List.Induction
import RegisterMachine.Debug.Wire

/-!
# What a bridge writes by the time it ends

Events and lines become ready in any order, and a bridge takes whichever it likes: `Bridge.run` goes
through any such order. What has been written is always the beginning of what the session has sent, and
a bridge ends for one of four reasons. It has written the end of the session; or there is nothing left
to write and there will not be; or it has read a command when the session had gone; or it was to read and
could not. Only in the first two has everything been written (**`Bridge.written_iff_not_cutOff`**).

The other two are what `Bridge.Cuts` lists. To give up when reading fails is an answer to a broken stream.
The late command is a loss without any failure, and it takes no more than a client that speaks at the
wrong moment: the last events may still be waiting to be written, the end of the session among them
(`Bridge.late_command_loses_exit`). A client whose text can be read and that says nothing, or closes its
input in time, is told everything.
-/

namespace RegisterMachine.Debug.Wire

/-! ## Events up to the end of a session -/

/-- There is no end of a session among these events. -/
def Unended (events : List Event) : Prop := ∀ e ∈ events, e.isExit = false

@[simp] theorem unended_nil : Unended [] := nofun

theorem Unended.concat {events : List Event} {e : Event} (h : Unended events)
    (he : e.isExit = false) : Unended (events ++ [e]) :=
  List.forall_mem_append.mpr ⟨h, List.forall_mem_singleton.mpr he⟩

theorem framed_append {before rest : List Event} (h : Unended before) :
    framed (before ++ rest) = before ++ framed rest := by
  induction before with
  | nil => rfl
  | cons e before ih =>
    obtain ⟨he, hbefore⟩ := List.forall_mem_cons.mp h
    rw [List.cons_append, framed, he, ih hbefore]
    rfl

theorem framed_of_unended {events : List Event} (h : Unended events) : framed events = events := by
  have hall := @framed_append events [] h
  rwa [List.append_nil, framed, List.append_nil] at hall

/-- What comes after the end does not count. -/
theorem framed_of_exit {before rest : List Event} {e : Event} (h : Unended before)
    (he : e.isExit = true) : framed (before ++ e :: rest) = before ++ [e] := by
  rw [framed_append h, framed, he]
  rfl

theorem framed_eq_nil_iff {events : List Event} : framed events = [] ↔ events = [] := by
  cases events with
  | nil => exact Iff.rfl
  | cons e rest =>
    unfold framed
    cases e.isExit <;> simp

/-- The events that the session has sent. -/
def emitted (moves : List Bridge.Move) : List Event :=
  moves.filterMap fun
    | .emit e => some e
    | _ => none

@[simp] theorem emitted_append (moves moves' : List Bridge.Move) :
    emitted (moves ++ moves') = emitted moves ++ emitted moves' := List.filterMap_append

namespace Bridge

variable {b b' b₀ : Bridge} {m : Move} {moves moves' : List Move}

theorem run_append (moves moves' : List Move) (b : Bridge) :
    b.run (moves ++ moves') = (b.run moves).bind fun b => b.run moves' := by
  induction moves generalizing b with
  | nil => rfl
  | cons m moves ih =>
    rw [List.cons_append, run, run]
    cases b.step m with
    | none => rfl
    | some b => exact ih b

/-- A run is taken apart at its last move. -/
theorem run_concat :
    b.run (moves ++ [m]) = some b' ↔ ∃ b₁, b.run moves = some b₁ ∧ b₁.step m = some b' := by
  rw [run_append, Option.bind_eq_some_iff]
  simp [run]

/-- The command in the line that is read next. -/
def pending? (b : Bridge) : Option Command :=
  if !b.delivering then none
  else
    match firstLine? b.input with
    | some (line, _) => command? line
    | none => if b.inputOpen then none else command? b.input

/-! ## One move -/

/-- A move that ends the bridge with whatever it has not written. -/
inductive Cuts (b : Bridge) : Move → Prop
  /-- A command is read that nobody is there to take. -/
  | lateCommand (ha : b.attached = false) (hp : b.pending?.isSome) : Cuts b .takeLine
  /-- Reading fails, and there was still something to be read. -/
  | failedRead (hd : b.delivering = true) : Cuts b .failRead

/-- What a move does with events and with the bridge's end. -/
inductive Deals (b : Bridge) : Move → Bridge → Prop
  /-- The session sends an event. -/
  | emit {e : Event} (ha : b.attached = true) : Deals b (.emit e) { b with events := b.events ++ [e] }
  /-- An event is written. -/
  | write {e : Event} {rest : List Event} (hopen : b.ended = false) (he : b.events = e :: rest) :
      Deals b .takeEvent { b with events := rest, sent := b.sent ++ [e], ended := e.isExit }
  /-- No event is left, and none will come. -/
  | drained (hopen : b.ended = false) (he : b.events = []) (ha : b.attached = false) :
      Deals b .takeEvent { b with ended := true }
  /-- The bridge ends with what it has written, whatever else there is. -/
  | cut {m : Move} {b' : Bridge} (hopen : b.ended = false) (hcuts : b.Cuts m)
      (hevents : b'.events = b.events) (hsent : b'.sent = b.sent)
      (hattached : b'.attached = b.attached) (hended : b'.ended = true) : Deals b m b'
  /-- Nothing of the kind. The session may go away. -/
  | quiet {m : Move} {b' : Bridge} (hm : emitted [m] = []) (hevents : b'.events = b.events)
      (hsent : b'.sent = b.sent) (hattached : b.attached = false → b'.attached = false)
      (hended : b'.ended = b.ended) : Deals b m b'

theorem takeLine_eq_some (h : b.takeLine = some b') :
    b' = { b with delivering := false } ∨
      ∃ line rest, b' = { b with input := rest }.handOn line ∧ b.pending? = command? line := by
  unfold takeLine at h
  cases hd : b.delivering with
  | false => simp [hd] at h
  | true =>
    simp only [hd, Bool.not_true, Bool.false_eq_true, if_false] at h
    cases hl : firstLine? b.input with
    | some first =>
      rw [hl] at h
      cases h
      exact Or.inr ⟨first.1, first.2, rfl, by simp [pending?, hd, hl]⟩
    | none =>
      rw [hl] at h
      cases ho : b.inputOpen with
      | true => simp [ho] at h
      | false =>
        simp only [ho, Bool.false_eq_true, if_false] at h
        split at h
        · cases h
          exact Or.inl rfl
        · cases h
          exact Or.inr ⟨b.input, [], rfl, by simp [pending?, hd, hl, ho]⟩

theorem Deals.takeLine (hopen : b.ended = false) (h : b.takeLine = some b') :
    Deals b .takeLine b' := by
  rcases takeLine_eq_some h with rfl | ⟨line, rest, rfl, hp⟩
  · exact .quiet rfl rfl rfl id rfl
  · unfold handOn
    cases hc : command? line with
    | none => exact .quiet rfl rfl rfl id rfl
    | some c =>
      dsimp only
      split
      · exact .quiet rfl rfl rfl id rfl
      · have hgone : b.attached = false := Bool.not_eq_true _ ▸ ‹_›
        exact .cut hopen (.lateCommand hgone (by rw [hp, hc]; rfl)) rfl rfl rfl rfl

/-- **Every move does one of these things.** -/
theorem Deals.step (h : b.step m = some b') : Deals b m b' := by
  cases m with
  | emit e =>
    obtain ⟨ha, h⟩ := Option.ite_none_right_eq_some.mp h
    cases h
    exact .emit ha
  | leave =>
    cases h
    exact .quiet rfl rfl rfl (fun _ => rfl) rfl
  | receive text =>
    obtain ⟨-, h⟩ := Option.ite_none_right_eq_some.mp h
    cases h
    exact .quiet rfl rfl rfl id rfl
  | closeInput =>
    cases h
    exact .quiet rfl rfl rfl id rfl
  | takeEvent =>
    obtain ⟨hended, h⟩ := Option.ite_none_left_eq_some.mp h
    have hopen : b.ended = false := Bool.not_eq_true _ ▸ hended
    unfold Bridge.takeEvent at h
    split at h
    · cases h
      exact .write hopen ‹_›
    · obtain ⟨hgone, h⟩ := Option.ite_none_left_eq_some.mp h
      cases h
      exact .drained hopen ‹_› (Bool.not_eq_true _ ▸ hgone)
  | takeLine =>
    obtain ⟨hended, h⟩ := Option.ite_none_left_eq_some.mp h
    exact .takeLine (Bool.not_eq_true _ ▸ hended) h
  | failRead =>
    obtain ⟨hended, h⟩ := Option.ite_none_left_eq_some.mp h
    obtain ⟨hd, h⟩ := Option.ite_none_right_eq_some.mp h
    cases h
    exact .cut (Bool.not_eq_true _ ▸ hended) (.failedRead hd) rfl rfl rfl rfl

/-! ## Every run -/

/-- The bridge was cut off by some move of the run, and nothing has been written since. -/
def CutOff (moves : List Move) (b : Bridge) : Prop :=
  ∃ before m after b₀, moves = before ++ m :: after ∧ start.run before = some b₀ ∧
    b₀.ended = false ∧ b₀.Cuts m ∧ b.sent = b₀.sent

theorem Cuts.emitted_eq_nil (h : b.Cuts m) : emitted [m] = [] := by
  cases h <;> rfl

/-- Nothing is written after that. -/
theorem CutOff.later (h : CutOff moves b) (hsent : b'.sent = b.sent) : CutOff (moves ++ [m]) b' := by
  obtain ⟨before, cut, after, b₀, rfl, hb₀, hopen, hcuts, hsent₀⟩ := h
  exact ⟨before, cut, after ++ [m], b₀, by simp, hb₀, hopen, hcuts, hsent.trans hsent₀⟩

/-- What has come of the events by some point of a run. -/
structure Relays (moves : List Move) (b : Bridge) : Prop where
  account : emitted moves = b.sent ++ b.events
  unended : b.ended = false → Unended b.sent
  ended : b.ended = true →
    (∃ before e, b.sent = before ++ [e] ∧ Unended before ∧ e.isExit = true) ∨
      Unended b.sent ∧ (b.attached = false ∧ b.events = [] ∨ CutOff moves b)

namespace Relays

theorem step (h : Relays moves b) (hrun : start.run moves = some b) (hm : Deals b m b') :
    Relays (moves ++ [m]) b' := by
  cases hm with
  | @emit e ha =>
    refine ⟨?_, h.unended, fun hended => ?_⟩
    · rw [emitted_append, h.account, List.append_assoc]
      rfl
    · rcases h.ended hended with hexit | ⟨hnone, ⟨hgone, -⟩ | hcut⟩
      · exact Or.inl hexit
      · rw [ha] at hgone
        cases hgone
      · exact Or.inr ⟨hnone, Or.inr (hcut.later rfl)⟩
  | @write e rest hopen he =>
    refine ⟨?_, fun hended => (h.unended hopen).concat hended, fun hended => ?_⟩
    · rw [emitted_append, h.account, he]
      simp [emitted]
    · exact Or.inl ⟨b.sent, e, rfl, h.unended hopen, hended⟩
  | drained hopen he ha =>
    refine ⟨?_, nofun, fun _ => Or.inr ⟨h.unended hopen, Or.inl ⟨ha, he⟩⟩⟩
    rw [emitted_append, h.account]
    exact List.append_nil _
  | cut hopen hcuts hevents hsent hattached hended =>
    refine ⟨?_, ?_, fun _ => Or.inr ⟨?_, Or.inr ?_⟩⟩
    · rw [emitted_append, h.account, hcuts.emitted_eq_nil, hsent, hevents, List.append_nil]
    · rw [hended]
      nofun
    · rw [hsent]
      exact h.unended hopen
    · exact ⟨moves, m, [], b, rfl, hrun, hopen, hcuts, hsent⟩
  | quiet hm hevents hsent hattached hended =>
    refine ⟨?_, ?_, ?_⟩
    · rw [emitted_append, h.account, hm, hsent, hevents, List.append_nil]
    · rw [hended, hsent]
      exact h.unended
    · rw [hended, hsent, hevents]
      intro hwas
      rcases h.ended hwas with hexit | ⟨hnone, hdrained | hcut⟩
      · exact Or.inl hexit
      · exact Or.inr ⟨hnone, Or.inl (hdrained.imp_left hattached)⟩
      · exact Or.inr ⟨hnone, Or.inr (hcut.later hsent)⟩

theorem run (hrun : start.run moves = some b) : Relays moves b := by
  induction moves using List.reverseRecOn generalizing b with
  | nil =>
    cases hrun
    exact ⟨rfl, fun _ => unended_nil, nofun⟩
  | append_singleton moves m ih =>
    obtain ⟨b₁, hb₁, hm⟩ := run_concat.mp hrun
    exact (ih hb₁).step hb₁ (.step hm)

/-- With the end of the session everything has been written. -/
theorem framed_eq_sent (h : Relays moves b) {before : List Event} {e : Event}
    (hsent : b.sent = before ++ [e]) (hbefore : Unended before) (he : e.isExit = true) :
    framed (emitted moves) = b.sent := by
  rw [h.account, hsent, List.append_assoc, List.singleton_append, framed_of_exit hbefore he]

/-- A bridge that has ended has written everything, unless it was cut off. -/
theorem written_or_cutOff (h : Relays moves b) (hended : b.ended = true) :
    b.sent = framed (emitted moves) ∨ CutOff moves b := by
  rcases h.ended hended with ⟨before, e, hsent, hbefore, he⟩ | ⟨hb, ⟨-, hempty⟩ | hcut⟩
  · exact Or.inl (h.framed_eq_sent hsent hbefore he).symm
  · left
    rw [h.account, hempty, List.append_nil, framed_of_unended hb]
  · exact Or.inr hcut

end Relays

/-- When the session has gone, a bridge that only takes events comes to an end and has written all of
them. -/
theorem exists_end (hopen : b.ended = false) (hgone : b.attached = false) :
    ∃ n b', b.run (List.replicate n .takeEvent) = some b' ∧ b'.ended = true ∧
      b'.sent = b.sent ++ framed b.events := by
  generalize hevents : b.events = events
  induction events generalizing b with
  | nil =>
    refine ⟨1, { b with ended := true }, ?_, rfl, (List.append_nil _).symm⟩
    simp [run, step, takeEvent, hopen, hgone, hevents]
  | cons e rest ih =>
    have htake : b.step .takeEvent
        = some { b with events := rest, sent := b.sent ++ [e], ended := e.isExit } := by
      simp [step, takeEvent, hopen, hevents]
    cases he : e.isExit with
    | true =>
      rw [he] at htake
      exact ⟨1, _, congrArg (Option.bind · some) htake, rfl, by rw [framed, he]; rfl⟩
    | false =>
      rw [he] at htake
      obtain ⟨n, b', hrun, hended, hsent⟩ :=
        @ih { b with events := rest, sent := b.sent ++ [e], ended := false } rfl hgone rfl
      refine ⟨n + 1, b', by simp [List.replicate_succ, run, htake, hrun], hended, ?_⟩
      rw [hsent, framed, he, List.append_assoc]
      rfl

/-- What a bridge that was cut off has not taken is lost. -/
theorem CutOff.sent_eq_iff (h : CutOff moves b) (hrun : start.run moves = some b) :
    b.sent = framed (emitted moves) ↔ b.events = [] := by
  obtain ⟨before, m, after, b₀, -, hrun₀, hopen, -, hsent⟩ := h
  have hunended : Unended b.sent := hsent ▸ (Relays.run hrun₀).unended hopen
  rw [(Relays.run hrun).account, framed_append hunended, List.self_eq_append_right, framed_eq_nil_iff]

/-- **A bridge has written everything when it ends, unless it was cut off.** This holds of every order in
which the session, the client and the bridge make their moves. What the session has sent up to its end
has been written, all of it, just if the bridge has not, with events still to be taken, read a command
when the session had gone or failed to read. -/
theorem written_iff_not_cutOff (hrun : start.run moves = some b) (hended : b.ended = true) :
    b.sent = framed (emitted moves) ↔ ¬ (CutOff moves b ∧ b.events ≠ []) := by
  constructor
  · rintro hsent ⟨hcut, hleft⟩
    exact hleft ((hcut.sent_eq_iff hrun).mp hsent)
  · intro hnot
    rcases (Relays.run hrun).written_or_cutOff hended with hsent | hcut
    · exact hsent
    · exact (hcut.sent_eq_iff hrun).mpr (not_not.mp fun hleft => hnot ⟨hcut, hleft⟩)

/-- A read that fails ends it with the word of the end not taken. -/
example : (start.run [.emit (.exit 0), .failRead]).map (fun b => (b.ended, b.sent, b.events)) =
    some (true, [], [.exit 0]) := by
  decide +kernel

/-- A session that is begun and comes to its end, and a client that has closed its input by then. -/
def inTime : List Move :=
  [.emit .ready, .takeEvent, .receive "\x7b\"command\":\"start\"\x7d\n".toList, .takeLine, .closeInput,
    .takeLine, .emit (.exit 0), .leave, .takeEvent]

theorem inTime_written :
    ∃ b, start.run inTime = some b ∧ b.ended = true ∧ b.sent = framed (emitted inTime) := by
  have hrun : (start.run inTime).map (fun b => (b.ended, b.events)) = some (true, []) := by
    decide +kernel
  obtain ⟨b, hb, hends⟩ := Option.map_eq_some_iff.mp hrun
  obtain ⟨hended, hevents⟩ := Prod.mk.inj hends
  exact ⟨b, hb, hended, (written_iff_not_cutOff hb hended).mpr fun h => h.2 hevents⟩

/-- The same session, and a client that says one thing more. -/
def lateResume : List Move :=
  [.emit .ready, .takeEvent, .receive "\x7b\"command\":\"start\"\x7d\n".toList, .takeLine,
    .emit (.exit 0), .leave, .receive "\x7b\"command\":\"resume\"\x7d\n".toList, .takeLine]

/-- The bridge could write the end of the session or read a line, and reads the line. -/
theorem late_command_loses_exit :
    framed (emitted lateResume) = [.ready, .exit 0] ∧
    (start.run lateResume).map (fun b => (b.ended, b.delivered, b.sent, b.events))
      = some (true, [.start], [.ready], [.exit 0]) := by
  decide +kernel

end Bridge

end RegisterMachine.Debug.Wire
