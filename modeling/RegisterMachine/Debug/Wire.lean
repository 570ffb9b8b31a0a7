import RegisterMachine.Debug.Protocol
import RegisterMachine.Text.Blank

/-!
# The wire

A session can be held over a stream of text. Each event is written as one line, and each line that is
read is a command, or nothing if it makes no sense as one.

`commands` and `written` are what comes of a whole stream. The bridge is the machine that gets there
one event and one line at a time, in whichever order they become ready: `Bridge.step` has one move for
each thing that the session, the client or the bridge itself can do next.
-/

namespace RegisterMachine.Debug.Wire

/-! ## Lines -/

/-- The lines of a text, each without what ends it. A last line need not be ended, and after the end of
a line there is no further, empty line. -/
def lines : List Char → List (List Char)
  | [] => []
  | '\n' :: rest => [] :: lines rest
  | '\r' :: '\n' :: rest => [] :: lines rest
  | c :: rest =>
      match lines rest with
      | [] => [[c]]
      | line :: more => (c :: line) :: more

/-- The first line of a text and what is after it, if the line is ended. -/
def firstLine? : List Char → Option (List Char × List Char)
  | [] => none
  | '\n' :: rest => some ([], rest)
  | '\r' :: '\n' :: rest => some ([], rest)
  | c :: rest => (firstLine? rest).map fun (line, rest) => (c :: line, rest)

/-- The command that a line gives. Blank lines give none, and neither do lines that cannot be read. -/
def command? (line : List Char) : Option Command :=
  let text := String.ofList line
  if Text.allBlank text then none else (Command.ofText text).toOption

/-- The commands of a whole text. -/
def commands (text : String) : List Command := (lines text.toList).filterMap command?

/-- The line that an event is written as. -/
def line (e : Event) : String := e.toText ++ "\n"

/-- The events up to the first that ends a session. -/
def framed : List Event → List Event
  | [] => []
  | e :: rest => if e.isExit then [e] else e :: framed rest

/-- What is written of a session's events. -/
def written (events : List Event) : String := String.join ((framed events).map line)

/-! ## The bridge -/

structure Bridge where
  /-- Events that the session has sent and the bridge has not taken, the first one first. -/
  events : List Event
  /-- Whether the session is there: it may send events and takes commands. -/
  attached : Bool
  /-- What the client has sent and the bridge has not read. -/
  input : List Char
  /-- Whether the client may send more. -/
  inputOpen : Bool
  /-- The commands handed to the session, the first one first. -/
  delivered : List Command
  /-- Whether the bridge may hand on more commands. -/
  delivering : Bool
  /-- The events that have been written, the first one first. -/
  sent : List Event
  ended : Bool
  deriving Repr

namespace Bridge

/-- A bridge between a session and a client that have said nothing yet. -/
def start : Bridge where
  events := []
  attached := true
  input := []
  inputOpen := true
  delivered := []
  delivering := true
  sent := []
  ended := false

inductive Move
  /-- The session sends an event. -/
  | emit (e : Event)
  /-- The session goes away. -/
  | leave
  /-- The client sends some text. -/
  | receive (text : List Char)
  /-- The client sends nothing more. -/
  | closeInput
  /-- The bridge takes an event. -/
  | takeEvent
  /-- The bridge takes a line. -/
  | takeLine
  /-- The bridge is to take a line and cannot: the reading fails, or what comes next is no text. -/
  | failRead
  deriving DecidableEq, Repr

/-- Takes an event and writes it. The bridge ends with an event that ends the session, or when no event
can come any more. -/
def takeEvent (b : Bridge) : Option Bridge :=
  match b.events with
  | e :: events => some { b with events, sent := b.sent ++ [e], ended := e.isExit }
  | [] => if b.attached then none else some { b with ended := true }

/-- Hands on what a line says. If nobody is there to take it, the bridge ends. -/
def handOn (b : Bridge) (line : List Char) : Bridge :=
  match command? line with
  | none => b
  | some c =>
      if b.attached then { b with delivered := b.delivered ++ [c] } else { b with ended := true }

/-- Takes a line, or finds that there is none left. -/
def takeLine (b : Bridge) : Option Bridge :=
  if !b.delivering then none
  else
    match firstLine? b.input with
    | some (line, input) => some ({ b with input }.handOn line)
    | none =>
        if b.inputOpen then none
        else if b.input.isEmpty then some { b with delivering := false }
        else some ({ b with input := [] }.handOn b.input)

/-- Fails to take a line. The bridge ends with that, whatever there is left to write. -/
def failRead (b : Bridge) : Option Bridge :=
  if b.delivering then some { b with ended := true } else none

/-- What a move makes of the bridge; `none` if the move cannot be made. -/
def step (b : Bridge) : Move → Option Bridge
  | .emit e => if b.attached then some { b with events := b.events ++ [e] } else none
  | .leave => some { b with attached := false }
  | .receive text => if b.inputOpen then some { b with input := b.input ++ text } else none
  | .closeInput => some { b with inputOpen := false }
  | .takeEvent => if b.ended then none else b.takeEvent
  | .takeLine => if b.ended then none else b.takeLine
  | .failRead => if b.ended then none else b.failRead

/-- Makes moves one after another. -/
def run (b : Bridge) : List Move → Option Bridge
  | [] => some b
  | m :: moves => (b.step m).bind fun b => b.run moves

end Bridge

/-- A first line that is ended is the first of all lines. -/
theorem lines_of_firstLine? {text line rest : List Char} (h : firstLine? text = some (line, rest)) :
    lines text = line :: lines rest := by
  fun_induction firstLine? text generalizing line with
  | case1 => simp at h
  | case2 => simp_all [lines]
  | case3 => simp_all [lines]
  | case4 c tail h1 h2 ih =>
    obtain ⟨⟨l, r⟩, hl, he⟩ := Option.map_eq_some_iff.1 h
    simp only [Prod.mk.injEq] at he
    obtain ⟨rfl, rfl⟩ := he
    rw [lines, ih hl]
    · exact h1
    · exact h2

end RegisterMachine.Debug.Wire
