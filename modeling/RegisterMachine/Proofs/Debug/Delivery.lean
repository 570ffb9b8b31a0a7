import RegisterMachine.Proofs.Debug.Bridge
import RegisterMachine.Proofs.Text.Utf8

/-!
# Which commands a session is given

A client's text comes in pieces, in the middle of lines and of characters if it must be, and between the
pieces there are events to be written. As long as the session is there, none of this matters to it. At
any point of a run the lines of the text are those that have been read and those that have not
(`Bridge.Reads`), and the session has been given the commands of the former, in order. A line that is
blank or makes no sense gives none and does nothing else either. And what is written is what the same
bridge would write for a client that says nothing (`Bridge.step_muted`).

When the text has ended, no line is left out: the bridge stops handing on commands when it has handed on
all of them, and it can always get there (`Bridge.run_takeLines`). Events are written before and after.
**`Bridge.commands_delivered`** puts these together.
-/

namespace RegisterMachine.Debug.Wire

/-! ## Lines of a text that goes on -/

/-- A first line that is ended is settled, whatever comes after it. -/
theorem firstLine?_append {text line rest : List Char} (h : firstLine? text = some (line, rest))
    (later : List Char) : firstLine? (text ++ later) = some (line, rest ++ later) := by
  fun_induction firstLine? text generalizing line with
  | case1 => cases h
  | case2 tail =>
    cases h
    rfl
  | case3 tail =>
    cases h
    rfl
  | case4 c tail h1 h2 ih =>
    obtain ⟨⟨l, r⟩, hl, he⟩ := Option.map_eq_some_iff.mp h
    cases he
    -- the rest has an end of a line in it, so it is not empty
    have hne : tail ≠ [] := by
      rintro rfl
      cases hl
    have hcr (more : List Char) (hc : c = '\r') : tail ++ later ≠ '\n' :: more := by
      obtain ⟨d, tail', rfl⟩ := List.exists_cons_of_ne_nil hne
      intro hcons
      obtain ⟨rfl, -⟩ := List.cons.inj hcons
      exact h2 _ hc rfl
    rw [List.cons_append, firstLine?, ih hl]
    · rfl
    · exact h1
    · exact hcr

/-- A text without the end of a line in it is one line, unless it is empty. -/
theorem lines_of_unended {text : List Char} (h : firstLine? text = none) (hne : text ≠ []) :
    lines text = [text] := by
  fun_induction firstLine? text with
  | case1 => exact absurd rfl hne
  | case2 => cases h
  | case3 => cases h
  | case4 c tail h1 h2 ih =>
    have htail := Option.map_eq_none_iff.mp h
    rw [lines]
    · by_cases hnil : tail = []
      · rw [hnil]
        rfl
      · rw [ih htail hnil]
    · exact h1
    · exact h2

namespace Bridge

/-- The pieces of text that the client has sent. -/
def received (moves : List Move) : List (List Char) :=
  moves.filterMap fun
    | .receive text => some text
    | _ => none

/-- Whether the move is about events. -/
def Move.isEvent : Move → Bool
  | .emit _ | .takeEvent => true
  | _ => false

/-- The bridge as it would be if the client had said nothing. -/
def muted (b : Bridge) : Bridge :=
  { b with input := [], inputOpen := true, delivered := [], delivering := true }

variable {b b' : Bridge} {m : Move} {moves : List Move} {read : List (List Char)} {line rest : List Char}

/-! ## One move -/

/-- A session that has gone does not come back. -/
theorem attached_of_step (hm : b.step m = some b') (ha : b'.attached = true) : b.attached = true := by
  cases Deals.step hm with
  | emit hb => exact hb
  | write => exact ha
  | drained => exact ha
  | cut _ _ _ _ hattached => exact hattached ▸ ha
  | quiet _ _ _ hattached => exact Bool.not_eq_false _ ▸ fun hgone => by simp [hattached hgone] at ha

theorem attached_of_run (hrun : b.run moves = some b') (ha : b'.attached = true) :
    b.attached = true := by
  induction moves generalizing b with
  | nil =>
    cases hrun
    exact ha
  | cons m moves ih =>
    obtain ⟨b₁, hm, hrun⟩ := Option.bind_eq_some_iff.mp hrun
    exact attached_of_step hm (ih hrun)

/-- While the session is there, only a failed read can cut a bridge off. -/
theorem not_cutOff_of_attached (hreads : .failRead ∉ moves) (hrun : start.run moves = some b)
    (ha : b.attached = true) : ¬ CutOff moves b := by
  rintro ⟨before, m, after, b₀, rfl, hb₀, -, hcuts, -⟩
  cases hcuts with
  | lateCommand hgone _ =>
    rw [run_append, hb₀, Option.bind_some] at hrun
    rw [attached_of_run hrun ha] at hgone
    cases hgone
  | failedRead => exact hreads (by simp)

/-- A line that a session takes adds its command, if it gives one, and changes nothing else. -/
theorem handOn_of_attached (ha : b.attached = true) (input line : List Char) :
    { b with input }.handOn line =
      { b with input, delivered := b.delivered ++ (command? line).toList } := by
  unfold handOn
  cases command? line with
  | none =>
    show { b with input } = { b with input, delivered := b.delivered ++ [] }
    rw [List.append_nil]
  | some c => exact if_pos ha

/-- What is read next is the first of the lines that are left, or there is none. -/
inductive Turns (b : Bridge) : Bridge → Prop
  /-- A line is read. -/
  | line {line rest : List Char} (hlines : ∀ later, (b.inputOpen = false → later = []) →
      lines (b.input ++ later) = line :: lines (rest ++ later)) :
      Turns b { b with input := rest, delivered := b.delivered ++ (command? line).toList }
  /-- There is none and there will be none. -/
  | finished (hopen : b.inputOpen = false) (hinput : b.input = []) :
      Turns b { b with delivering := false }

theorem Turns.takeLine (ha : b.attached = true) (h : b.takeLine = some b') : b.Turns b' := by
  unfold Bridge.takeLine at h
  obtain ⟨-, h⟩ := Option.ite_none_left_eq_some.mp h
  split at h
  · rename_i line rest hfirst
    cases h
    rw [handOn_of_attached ha]
    exact .line fun later _ => lines_of_firstLine? (firstLine?_append hfirst later)
  · rename_i hfirst
    obtain ⟨hclosed, h⟩ := Option.ite_none_left_eq_some.mp h
    have hopen : b.inputOpen = false := Bool.not_eq_true _ ▸ hclosed
    split at h
    · rename_i hempty
      cases h
      exact .finished hopen (List.isEmpty_iff.mp hempty)
    · rename_i hne
      cases h
      rw [handOn_of_attached ha]
      refine .line fun later hlater => ?_
      rw [hlater hopen, List.append_nil,
        lines_of_unended hfirst fun hnil => hne (List.isEmpty_iff.mpr hnil)]
      rfl

/-- A line that is ended can be read. -/
theorem step_takeLine (hended : b.ended = false) (hd : b.delivering = true) (ha : b.attached = true)
    (hfirst : firstLine? b.input = some (line, rest)) :
    b.step .takeLine =
      some { b with input := rest, delivered := b.delivered ++ (command? line).toList } := by
  have htake : b.takeLine = some ({ b with input := rest }.handOn line) := by
    simp only [Bridge.takeLine, hd, hfirst, Bool.not_true, Bool.false_eq_true, if_false]
  rw [step, if_neg (by simp [hended]), htake, handOn_of_attached ha]

/-- **An event is dealt with as if the client had said nothing**, and no other move has to do with
events. -/
theorem step_muted (hm : b.step m = some b') (hread : m ≠ .failRead) (ha : b'.attached = true) :
    if m.isEvent then b.muted.step m = some b'.muted else b'.muted = b.muted := by
  cases m with
  | emit e =>
    obtain ⟨hb, hm⟩ := Option.ite_none_right_eq_some.mp hm
    cases hm
    exact if_pos hb
  | leave =>
    cases hm
    cases ha
  | receive text =>
    obtain ⟨-, hm⟩ := Option.ite_none_right_eq_some.mp hm
    cases hm
    rfl
  | closeInput =>
    cases hm
    rfl
  | takeEvent =>
    obtain ⟨hended, hm⟩ := Option.ite_none_left_eq_some.mp hm
    have hmuted : b.muted.step .takeEvent = b.muted.takeEvent := if_neg hended
    rw [if_pos (show Move.takeEvent.isEvent = true from rfl), hmuted]
    unfold Bridge.takeEvent at hm ⊢
    have hevents : b.muted.events = b.events := rfl
    rw [hevents]
    cases he : b.events with
    | cons e events =>
      rw [he] at hm
      cases hm
      rfl
    | nil =>
      rw [he] at hm
      obtain ⟨hgone, hm⟩ := Option.ite_none_left_eq_some.mp hm
      cases hm
      exact absurd ha hgone
  | takeLine =>
    have hb := attached_of_step hm ha
    obtain ⟨-, hm⟩ := Option.ite_none_left_eq_some.mp hm
    cases Turns.takeLine hb hm with
    | line => rfl
    | finished => rfl
  | failRead => exact absurd rfl hread

/-! ## Every run -/

/-- These lines have been read, and their commands have been handed on. -/
structure Reads (moves : List Move) (b : Bridge) (read : List (List Char)) : Prop where
  /-- The lines of a text that goes on in some way are those that have been read and those that have
  not. It does not go on when the client has closed its input. -/
  lines_eq : ∀ later, (b.inputOpen = false → later = []) →
    lines ((received moves).flatten ++ later) = read ++ lines (b.input ++ later)
  delivered : b.delivered = read.filterMap command?
  /-- What is left when no more commands are handed on. -/
  finished : b.delivering = false → b.inputOpen = false ∧ b.input = []

theorem Reads.step (h : Reads moves b read) (hm : b.step m = some b') (ha : b'.attached = true) :
    ∃ read', Reads (moves ++ [m]) b' read' := by
  cases m with
  | receive text =>
    obtain ⟨hopen, hm⟩ := Option.ite_none_right_eq_some.mp hm
    cases hm
    refine ⟨read, fun later _ => ?_, h.delivered, fun hfin => ?_⟩
    · have hlines := h.lines_eq (text ++ later) fun hclosed => by rw [hopen] at hclosed; cases hclosed
      simpa [received] using hlines
    · rw [(h.finished hfin).1] at hopen
      cases hopen
  | takeLine =>
    have hb := attached_of_step hm ha
    obtain ⟨-, hm⟩ := Option.ite_none_left_eq_some.mp hm
    have hsame : received (moves ++ [.takeLine]) = received moves := by simp [received]
    have hd : b.delivering = true := by
      unfold Bridge.takeLine at hm
      obtain ⟨hd, -⟩ := Option.ite_none_left_eq_some.mp hm
      simpa using hd
    cases Turns.takeLine hb hm with
    | @line line rest hlines =>
      refine ⟨read ++ [line], fun later hlater => ?_, ?_, fun hfin => ?_⟩
      · rw [hsame, h.lines_eq later hlater, hlines later hlater, List.append_assoc]
        rfl
      · show b.delivered ++ _ = _
        rw [h.delivered, List.filterMap_append]
        cases hc : command? line <;> simp [hc]
      · rw [show b.delivering = false from hfin] at hd
        cases hd
    | finished hopen hinput =>
      exact ⟨read, fun later hlater => hsame ▸ h.lines_eq later hlater, h.delivered,
        fun _ => ⟨hopen, hinput⟩⟩
  | emit e =>
    obtain ⟨-, hm⟩ := Option.ite_none_right_eq_some.mp hm
    cases hm
    exact ⟨read, by simpa [received] using h.lines_eq, h.delivered, h.finished⟩
  | leave =>
    cases hm
    cases ha
  | closeInput =>
    cases hm
    refine ⟨read, fun later hlater => ?_, h.delivered, fun hfin => ⟨rfl, (h.finished hfin).2⟩⟩
    have hlines := h.lines_eq later fun _ => hlater rfl
    simpa [received] using hlines
  | takeEvent =>
    obtain ⟨-, hm⟩ := Option.ite_none_left_eq_some.mp hm
    unfold Bridge.takeEvent at hm
    split at hm
    · cases hm
      exact ⟨read, by simpa [received] using h.lines_eq, h.delivered, h.finished⟩
    · obtain ⟨-, hm⟩ := Option.ite_none_left_eq_some.mp hm
      cases hm
      exact ⟨read, by simpa [received] using h.lines_eq, h.delivered, h.finished⟩
  | failRead =>
    obtain ⟨-, hm⟩ := Option.ite_none_left_eq_some.mp hm
    obtain ⟨-, hm⟩ := Option.ite_none_right_eq_some.mp hm
    cases hm
    exact ⟨read, by simpa [received] using h.lines_eq, h.delivered, h.finished⟩

theorem Reads.run (hrun : start.run moves = some b) (ha : b.attached = true) :
    ∃ read, Reads moves b read := by
  induction moves using List.reverseRecOn generalizing b with
  | nil =>
    cases hrun
    exact ⟨[], fun _ _ => rfl, rfl, nofun⟩
  | append_singleton moves m ih =>
    obtain ⟨b₁, hb₁, hm⟩ := run_concat.mp hrun
    obtain ⟨read, hread⟩ := ih hb₁ (attached_of_step hm ha)
    exact hread.step hm ha

/-- What is written does not depend on what the client says. -/
theorem run_muted (hreads : .failRead ∉ moves) (hrun : start.run moves = some b)
    (ha : b.attached = true) :
    start.run (moves.filter Move.isEvent) = some b.muted := by
  induction moves using List.reverseRecOn generalizing b with
  | nil =>
    cases hrun
    rfl
  | append_singleton moves m ih =>
    obtain ⟨b₁, hb₁, hm⟩ := run_concat.mp hrun
    rw [List.mem_append, not_or, List.mem_singleton] at hreads
    have h₁ := ih hreads.1 hb₁ (attached_of_step hm ha)
    have hstep := step_muted hm (Ne.symm hreads.2) ha
    rw [List.filter_append, List.filter_cons, List.filter_nil]
    cases hisEvent : m.isEvent with
    | true =>
      rw [hisEvent] at hstep
      exact run_concat.mpr ⟨b₁.muted, h₁, hstep⟩
    | false =>
      rw [hisEvent] at hstep
      rw [show b.muted = b₁.muted from hstep]
      simpa using h₁

/-! ## A client that has closed its input -/

/-- The next line can be read, and if there is none, the bridge finds that out. -/
theorem step_takeLine_of_closed (hended : b.ended = false) (hopen : b.inputOpen = false)
    (hd : b.delivering = true) (ha : b.attached = true) :
    match lines b.input with
    | [] => b.step .takeLine = some { b with input := [], delivering := false }
    | line :: more => ∃ rest, lines rest = more ∧ b.step .takeLine =
        some { b with input := rest, delivered := b.delivered ++ (command? line).toList } := by
  cases hfirst : firstLine? b.input with
  | some first =>
    rw [lines_of_firstLine? hfirst]
    exact ⟨first.2, rfl, step_takeLine hended hd ha hfirst⟩
  | none =>
    have htake : b.step .takeLine =
        if b.input.isEmpty then some { b with delivering := false }
        else some ({ b with input := [] }.handOn b.input) := by
      rw [step, if_neg (by simp [hended])]
      simp only [Bridge.takeLine, hd, hopen, hfirst, Bool.not_true, Bool.false_eq_true, if_false]
    by_cases hnil : b.input = []
    · rw [hnil] at htake ⊢
      exact htake
    · rw [lines_of_unended hfirst hnil]
      rw [if_neg (by simpa using hnil), handOn_of_attached ha] at htake
      exact ⟨[], rfl, htake⟩

/-- All that is left can be read, one line after another, and then no more commands are handed on. -/
theorem run_takeLines (hended : b.ended = false) (hopen : b.inputOpen = false)
    (hd : b.delivering = true) (ha : b.attached = true) :
    b.run (List.replicate ((lines b.input).length + 1) .takeLine) =
      some { b with
        input := []
        delivering := false
        delivered := b.delivered ++ (lines b.input).filterMap command? } := by
  have hstep := step_takeLine_of_closed hended hopen hd ha
  generalize hlines : lines b.input = left at hstep
  induction left generalizing b with
  | nil =>
    simp only [List.length_nil, List.replicate_succ, List.replicate_zero, run, hstep,
      Option.bind_some, List.filterMap_nil, List.append_nil]
  | cons line more ih =>
    obtain ⟨rest, hrest, hstep⟩ := hstep
    let b₁ : Bridge :=
      { b with input := rest, delivered := b.delivered ++ (command? line).toList }
    have hstep₁ := @step_takeLine_of_closed b₁ hended hopen hd ha
    rw [show lines b₁.input = more from hrest] at hstep₁
    rw [List.length_cons, List.replicate_succ, run, hstep, Option.bind_some]
    have hdelivered : b₁.delivered ++ more.filterMap command? =
        b.delivered ++ (line :: more).filterMap command? := by
      show b.delivered ++ (command? line).toList ++ _ = _
      cases hc : command? line <;> simp [hc]
    rw [← hdelivered]
    exact @ih b₁ hended hopen hd ha hrest hstep₁

/-! ## What the session is given -/

/-- **A session is given the commands of the lines that have been read.** Take a text, its bytes in any
pieces, and a run in which some of the pieces have arrived, in any order with events and with lines being
read; the client closes its input only after the last piece, and the session is still there. Then the
lines of the text are those that have been read, in order, and those that have not, and the session has
been given the commands of the former and nothing else. The next line that is ended can be read, and
without a command in it that changes nothing but what is left. No more commands are handed on only when
the client has closed its input and the session has been given all there are, with that of a last line
that is not ended; and once the input is closed the bridge can get there. An event that waits can be
written at any time. And where no reading fails, what is written is what is written when the client says
nothing, and the bridge ends with the event that ends the session, not before. -/
theorem commands_delivered {text : List Char} {arrived due : List (List UInt8)} {moves : List Move}
    {b : Bridge} (htext : (arrived ++ due).flatten = Text.encode text)
    (hrun : start.run moves = some b)
    (hreceived : received moves = Text.Utf8State.start.feedAll arrived)
    (hclosed : b.inputOpen = false → due = []) (ha : b.attached = true) :
    (∃ read later, lines text = read ++ lines (b.input ++ later) ∧
      (b.inputOpen = false → later = []) ∧ b.delivered = read.filterMap command?) ∧
    (b.ended = false → b.delivering = true → ∀ line rest, firstLine? b.input = some (line, rest) →
      b.step .takeLine =
        some { b with input := rest, delivered := b.delivered ++ (command? line).toList }) ∧
    (.failRead ∉ moves → start.run (moves.filter Move.isEvent) = some b.muted) ∧
    (b.delivering = false →
      b.inputOpen = false ∧ b.input = [] ∧ b.delivered = commands (String.ofList text)) ∧
    (b.ended = false → b.inputOpen = false → b.delivering = true →
      b.run (List.replicate ((lines b.input).length + 1) .takeLine) =
        some { b with
          input := [], delivering := false, delivered := commands (String.ofList text) }) ∧
    (b.ended = false → ∀ e events, b.events = e :: events → b.step .takeEvent =
      some { b with events, sent := b.sent ++ [e], ended := e.isExit }) ∧
    (.failRead ∉ moves → b.ended = true → ∃ before e, b.sent = before ++ [e] ∧ e.isExit = true) := by
  -- the characters of the text that have arrived, and those that are still to come
  obtain ⟨later, hlater, hdue⟩ : ∃ later, (received moves).flatten ++ later = text ∧
      (b.inputOpen = false → later = []) := by
    refine ⟨((Text.Utf8State.start.feed arrived.flatten).1.feedAll due).flatten, ?_, fun hopen => ?_⟩
    · rw [hreceived, ← List.flatten_append, ← Text.Utf8State.feedAll_append]
      exact Text.Utf8State.flatten_feedAll_of_encode htext
    · rw [hclosed hopen]
      rfl
  obtain ⟨read, hread⟩ := Reads.run hrun ha
  have hlines : lines text = read ++ lines (b.input ++ later) := hlater ▸ hread.lines_eq later hdue
  have hall (hopen : b.inputOpen = false) :
      b.delivered ++ (lines b.input).filterMap command? = commands (String.ofList text) := by
    rw [commands, String.toList_ofList, hlines, hdue hopen, List.append_nil, List.filterMap_append,
      hread.delivered]
  refine ⟨⟨read, later, hlines, hdue, hread.delivered⟩, fun hended hd line rest hfirst => ?_,
    fun hreads => run_muted hreads hrun ha, fun hfin => ?_, fun hended hopen hd => ?_,
    fun hended e events he => ?_, fun hreads hended => ?_⟩
  · exact step_takeLine hended hd ha hfirst
  · obtain ⟨hopen, hinput⟩ := hread.finished hfin
    refine ⟨hopen, hinput, ?_⟩
    rw [← hall hopen, hinput]
    exact (List.append_nil _).symm
  · rw [run_takeLines hended hopen hd ha, hall hopen]
  · rw [step, if_neg (by simp [hended]), Bridge.takeEvent, he]
  · rcases (Relays.run hrun).ended hended with ⟨before, e, hsent, -, he⟩ | ⟨-, ⟨hgone, -⟩ | hcut⟩
    · exact ⟨before, e, hsent, he⟩
    · rw [ha] at hgone
      cases hgone
    · exact absurd hcut (not_cutOff_of_attached hreads hrun ha)

/-- A line that is no command, an empty one, a command, and one more that is not ended. -/
def greeting : List Char := "é\n\n\x7b\"command\":\"start\"\x7d\r\n\x7b\"command\":\"step\"\x7d".toList

/-- Its bytes, the first piece ending inside the first character and the second inside a command. -/
def greetingPieces : List (List UInt8) :=
  let bytes := Text.encode greeting
  [bytes.take 1, (bytes.drop 1).take 20, bytes.drop 21]

/-- It arrives while events are written. -/
def greeted : List Move :=
  [.emit .ready, .receive [], .takeEvent, .receive (greeting.take 20), .takeLine, .emit (.exit 1),
    .takeLine, .receive (greeting.drop 20), .closeInput, .takeLine, .takeLine, .takeLine]

theorem greeted_delivered :
    ∃ b, start.run greeted = some b ∧ b.attached = true ∧ b.delivering = false ∧
      b.delivered = commands (String.ofList greeting) ∧ b.delivered = [.start, .step] ∧
      b.step .takeEvent = some { b with events := [], sent := [.ready, .exit 1], ended := true } := by
  have hrun : (start.run greeted).map
      (fun b => ((b.attached, b.delivering, b.ended), b.events, b.sent, b.delivered))
        = some ((true, false, false), [.exit 1], [.ready], [.start, .step]) := by
    decide +kernel
  obtain ⟨b, hb, hall⟩ := Option.map_eq_some_iff.mp hrun
  simp only [Prod.mk.injEq] at hall
  obtain ⟨⟨ha, hfin, hended⟩, hevents, hsent, hdelivered⟩ := hall
  have hreceived : received greeted = Text.Utf8State.start.feedAll greetingPieces := by decide +kernel
  have htext : (greetingPieces ++ []).flatten = Text.encode greeting := by decide +kernel
  obtain ⟨-, -, -, hcommands, -, hwrite, -⟩ :=
    commands_delivered htext hb hreceived (fun _ => rfl) ha
  refine ⟨b, hb, ha, hfin, (hcommands hfin).2.2, hdelivered, ?_⟩
  rw [hwrite hended _ _ hevents, hsent]
  rfl

end Bridge

end RegisterMachine.Debug.Wire
