import RegisterMachine.Proofs.Debug.Bridge
import RegisterMachine.Proofs.Debug.Events

/-!
# One line for each event

A client that has been told everything has got one line for each event, and reads the event from it,
whatever names there are in it (`Wire.lines_of_written`). A client that says nothing is told everything
(`Bridge.sent_of_silent`): it may close its input whenever it likes, but there is no command that the
bridge could fail to hand on, and nothing that it could fail to read. **`Wire.events_read_back`** is about
such a client.
-/

namespace RegisterMachine.Debug.Wire

/-! ## Lines -/

/-- Lines that have been ended one by one are found again. -/
theorem splitOn_lines {texts : List (List Char)} (h : ∀ t ∈ texts, '\n' ∉ t) :
    (texts.flatMap (· ++ ['\n'])).splitOn '\n' = texts ++ [[]] := by
  induction texts with
  | nil => rfl
  | cons t rest ih =>
    obtain ⟨ht, hrest⟩ := List.forall_mem_cons.mp h
    rw [List.flatMap_cons, List.append_assoc, List.singleton_append,
      List.splitOn_append_cons_self_of_not_mem ht, ih hrest, List.cons_append]

/-- What is written of events is a line for each of them up to the end of the session. -/
theorem lines_of_written (events : List Event) :
    (written events).toList.splitOn '\n' = (framed events).map (·.toText.toList) ++ [[]] := by
  have hlines : (written events).toList
      = ((framed events).map (·.toText.toList)).flatMap (· ++ ['\n']) := by
    have hend : "\n".toList = ['\n'] := rfl
    simp only [written, String.toList_join, List.flatMap_map, line, String.toList_append, hend]
  rw [hlines, splitOn_lines]
  intro t ht
  obtain ⟨e, -, rfl⟩ := List.mem_map.mp ht
  exact e.toText_plain.newline_not_mem

/-! ## A client that says nothing -/

namespace Bridge

variable {b b' : Bridge} {m : Move} {moves : List Move}

/-- What the client reads. -/
def text (b : Bridge) : String := String.join (b.sent.map line)

/-- The client sends no text, and no reading fails. It may close its input. -/
structure Silent (moves : List Move) : Prop where
  receives : ∀ text, .receive text ∉ moves
  reads : .failRead ∉ moves

theorem Silent.of_append {moves' : List Move} (h : Silent (moves ++ moves')) : Silent moves :=
  ⟨fun text hmem => h.receives text (List.mem_append_left _ hmem),
    fun hmem => h.reads (List.mem_append_left _ hmem)⟩

/-- Nothing else gives the bridge anything to read. -/
theorem input_step (hm : b.step m = some b') (hs : ∀ text, m ≠ .receive text) (hb : b.input = []) :
    b'.input = [] := by
  cases m with
  | receive text => exact absurd rfl (hs text)
  | emit e =>
    obtain ⟨-, hm⟩ := Option.ite_none_right_eq_some.mp hm
    cases hm
    exact hb
  | leave =>
    cases hm
    exact hb
  | closeInput =>
    cases hm
    exact hb
  | takeEvent =>
    obtain ⟨-, hm⟩ := Option.ite_none_left_eq_some.mp hm
    unfold takeEvent at hm
    split at hm
    · cases hm
      exact hb
    · obtain ⟨-, hm⟩ := Option.ite_none_left_eq_some.mp hm
      cases hm
      exact hb
  | takeLine =>
    obtain ⟨-, hm⟩ := Option.ite_none_left_eq_some.mp hm
    unfold takeLine at hm
    rw [hb] at hm
    obtain ⟨-, hm⟩ := Option.ite_none_left_eq_some.mp hm
    obtain ⟨-, hm⟩ := Option.ite_none_left_eq_some.mp hm
    cases hm
    rfl
  | failRead =>
    obtain ⟨-, hm⟩ := Option.ite_none_left_eq_some.mp hm
    obtain ⟨-, hm⟩ := Option.ite_none_right_eq_some.mp hm
    cases hm
    exact hb

theorem input_of_silent (h : Silent moves) (hrun : start.run moves = some b) : b.input = [] := by
  induction moves using List.reverseRecOn generalizing b with
  | nil =>
    cases hrun
    rfl
  | append_singleton moves m ih =>
    obtain ⟨b₁, hb₁, hm⟩ := run_concat.mp hrun
    refine input_step hm ?_ (ih h.of_append hb₁)
    rintro text rfl
    exact h.receives text (List.mem_append_right _ (List.mem_singleton_self _))

theorem pending?_of_empty (h : b.input = []) : b.pending? = none := by
  have hblank : command? [] = none := rfl
  simp [pending?, h, firstLine?, hblank]

/-- No command can come too late, and nothing be misread. -/
theorem not_cutOff_of_silent (h : Silent moves) : ¬ CutOff moves b := by
  rintro ⟨before, m, after, b₀, rfl, hrun, -, hcuts, -⟩
  cases hcuts with
  | lateCommand _ hp =>
    rw [pending?_of_empty (input_of_silent h.of_append hrun)] at hp
    cases hp
  | failedRead => exact h.reads (by simp)

/-- Such a client is told everything. -/
theorem sent_of_silent (h : Silent moves) (hrun : start.run moves = some b) (hended : b.ended = true) :
    b.sent = framed (emitted moves) :=
  ((Relays.run hrun).written_or_cutOff hended).resolve_right (not_cutOff_of_silent h)

theorem text_of_silent (h : Silent moves) (hrun : start.run moves = some b) (hended : b.ended = true) :
    b.text = written (emitted moves) := by
  rw [text, sent_of_silent h hrun hended]
  rfl

/-- A session that is there can send as many events as it likes. -/
theorem run_emits (events : List Event) (ha : b.attached = true) :
    b.run (events.map .emit) = some { b with events := b.events ++ events } := by
  induction events generalizing b with
  | nil => simp [run]
  | cons e rest ih =>
    have hstep : b.step (.emit e) = some { b with events := b.events ++ [e] } := if_pos ha
    have hrest := @ih { b with events := b.events ++ [e] } ha
    rw [List.map_cons, run, hstep, Option.bind_some, hrest]
    simp

end Bridge

open Bridge

theorem emitted_emits (events : List Event) : emitted (events.map .emit) = events := by
  induction events with
  | nil => rfl
  | cons e rest ih => exact congrArg (e :: ·) ih

/-- **A client that says nothing reads each event from a line of its own.** Whatever the session sends,
and in whatever order it, the client and the bridge make their moves: when the bridge ends, what it has
written is a line for each event up to the first that ends the session, with nothing after the last of
them. No line is empty, and each is read as the event that it was written for. Any events can be sent in
this way. -/
theorem events_read_back :
    (∀ moves b, Silent moves → start.run moves = some b → b.ended = true →
      b.text = written (emitted moves) ∧
      ∃ lines : List (List Char), b.text.toList.splitOn '\n' = lines ++ [[]] ∧
        (∀ l ∈ lines, l ≠ []) ∧
        lines.map (fun l => Event.ofText (String.ofList l)) =
          (framed (emitted moves)).map .ok) ∧
    ∀ events, ∃ moves b, Silent moves ∧ emitted moves = events ∧ start.run moves = some b ∧
      b.ended = true := by
  constructor
  · intro moves b hsilent hrun hended
    have htext := text_of_silent hsilent hrun hended
    refine ⟨htext, (framed (emitted moves)).map (·.toText.toList), ?_, ?_, ?_⟩
    · rw [htext, lines_of_written]
    · intro l hl
      obtain ⟨e, -, rfl⟩ := List.mem_map.mp hl
      exact e.toText_ne_nil
    · rw [List.map_map]
      refine List.map_congr_left fun e _ => ?_
      rw [Function.comp_apply, String.ofList_toList, e.reads_back]
  · intro events
    have hsent : start.run (events.map .emit) = some { start with events } := run_emits events rfl
    obtain ⟨n, b, hrun, hended, -⟩ := @exists_end { start with events, attached := false } rfl rfl
    refine ⟨events.map .emit ++ .leave :: List.replicate n .takeEvent, b, ⟨?_, ?_⟩, ?_, ?_, hended⟩
    · intro text hmem
      simp at hmem
    · intro hmem
      simp at hmem
    · rw [emitted_append, emitted_emits]
      simp [emitted]
    · rw [run_append, hsent]
      exact hrun

end RegisterMachine.Debug.Wire
