import RegisterMachine.Regex.Basic

/-!
# Matching

`ways` lists all the places to which a match can lead from a given place, the most preferred first.
Of two ways to one place only the first is listed: whatever follows cannot tell them apart, save by
the groups that were noted on the way, and there the preferred way counts. So the list never grows
beyond the length of the text, and neither does the time that a repetition takes: it tries its body
at most once from each place.

A match within a text is the most preferred way from the first place from which there is one.
-/

namespace RegisterMachine

/-- A part of a text, as the places of its beginning and its end. -/
structure Span where
  first : Nat
  last : Nat
  deriving DecidableEq, Repr

/-- Where a match has got to, and the groups it has noted, the latest first. -/
structure Reached where
  pos : Nat
  groups : List (Nat × Span)
  deriving DecidableEq, Repr

namespace Reached

/-- Adds a way unless there is one to the same place. The list is kept backwards. -/
def addTo (out : List Reached) (q : Reached) : List Reached :=
  if out.any fun p => p.pos == q.pos then out else q :: out

/-- Keeps the first way to each place. -/
def distinct (qs : List Reached) : List Reached := (qs.foldl addTo []).reverse

end Reached

/-- Leads every way on. -/
def Reached.bind (qs : List Reached) (f : Reached → List Reached) : List Reached :=
  Reached.distinct (qs.flatMap f)

namespace Assertion

/-- Whether the character before a place is a word character. -/
def wordBefore (text : Array Char) (pos : Nat) : Bool :=
  match pos with
  | 0 => false
  | pos + 1 => (text[pos]?).any Text.isWord

def wordAfter (text : Array Char) (pos : Nat) : Bool := (text[pos]?).any Text.isWord

def holds (text : Array Char) (pos : Nat) : Assertion → Bool
  | textStart => pos == 0
  | textEnd => pos == text.size
  | lineStart => pos == 0 || text[pos - 1]? == some '\n'
  | lineEnd => pos == text.size || text[pos]? == some '\n'
  | wordBoundary => wordBefore text pos != wordAfter text pos
  | noWordBoundary => wordBefore text pos == wordAfter text pos
  | wordStart => !wordBefore text pos && wordAfter text pos
  | wordEnd => wordBefore text pos && !wordAfter text pos
  | wordStartHalf => !wordBefore text pos
  | wordEndHalf => !wordAfter text pos

end Assertion

/-! ## Repetition -/

/-- What a repetition has found. -/
structure Repeating where
  /-- The places from which the body need not be tried again, each with how many times it might be
  matched from there. -/
  seen : List (Nat × Nat)
  /-- The ways so far, the last one first. -/
  found : List Reached

namespace Repeating

def start : Repeating := ⟨[], []⟩

def sees (s : Repeating) (times : Nat) (q : Reached) : Bool := s.seen.contains (times, q.pos)

def see (s : Repeating) (times : Nat) (q : Reached) : Repeating :=
  { s with seen := (times, q.pos) :: s.seen }

def find (s : Repeating) (q : Reached) : Repeating := { s with found := Reached.addTo s.found q }

def ways (s : Repeating) : List Reached := s.found.reverse

/-- After a round of the body: go another round or stop, whichever is preferred first. From the place
where the repetition began another round has been tried already. Each round that goes on is at a place
not seen before, so one more than there are places is enough for `fuel`. -/
def again (body : Reached → List Reached) (greedy : Bool) (start : Nat) :
    (fuel : Nat) → Repeating → Reached → Repeating
  | 0, s, _ => s
  | fuel + 1, s, q =>
      if s.sees 0 q then s
      else
        let round (s : Repeating) : Repeating :=
          if q.pos == start then s else (body q).foldl (again body greedy start fuel) s
        let s := s.see 0 q
        if greedy then (round s).find q else round (s.find q)

/-- At most `times` rounds of the body. -/
def upTo (body : Reached → List Reached) (greedy : Bool) :
    (times : Nat) → Repeating → Reached → Repeating
  | 0, s, q => s.find q
  | times + 1, s, q =>
      if s.sees (times + 1) q then s
      else
        let round (s : Repeating) : Repeating := (body q).foldl (upTo body greedy times) s
        let s := s.see (times + 1) q
        if greedy then (round s).find q else round (s.find q)

end Repeating

/-- The ways of at least one round of the body. -/
def onceOrMore (size : Nat) (body : Reached → List Reached) (greedy : Bool) (q : Reached) :
    List Reached :=
  ((body q).foldl (Repeating.again body greedy q.pos (size + 2)) .start).ways

/-- The ways of any number of rounds. -/
def anyTimes (size : Nat) (body : Reached → List Reached) (greedy : Bool) (q : Reached) :
    List Reached :=
  let rounds := onceOrMore size body greedy q
  Reached.distinct (if greedy then rounds ++ [q] else q :: rounds)

/-- Leads every way on by an exact number of rounds. -/
def exactly (body : Reached → List Reached) : (times : Nat) → List Reached → List Reached
  | 0, qs => qs
  | times + 1, qs => exactly body times (Reached.bind qs body)

/-- The ways of a number of rounds between two bounds. -/
def rounds (size : Nat) (body : Reached → List Reached) (least : Nat) (most : Option Nat)
    (greedy : Bool) (q : Reached) : List Reached :=
  match most with
  | some most =>
      Reached.bind (exactly body least [q]) fun q =>
        (Repeating.upTo body greedy (most - least) .start q).ways
  | none =>
      match least with
      | 0 => anyTimes size body greedy q
      | least + 1 => Reached.bind (exactly body least [q]) (onceOrMore size body greedy)

/-! ## Patterns -/

/-- The ways of a match from a place, the most preferred first. -/
def Regex.ways (text : Array Char) : Regex → Reached → List Reached
  | empty, q => [q]
  | set s, q =>
      match text[q.pos]? with
      | some c => if s.contains c then [{ q with pos := q.pos + 1 }] else []
      | none => []
  | assert a, q => if a.holds text q.pos then [q] else []
  | seq r s, q => Reached.bind (ways text r q) (ways text s)
  | alt r s, q => Reached.distinct (ways text r q ++ ways text s q)
  | group index r, q =>
      (ways text r q).map fun p => { p with groups := (index, ⟨q.pos, p.pos⟩) :: p.groups }
  | repetition r least most greedy, q => rounds text.size (ways text r) least most greedy q

/-- A match within a text. -/
structure Found where
  span : Span
  groups : List (Nat × Span)
  deriving DecidableEq, Repr

namespace Found

/-- What a group has matched, if it took part in the match. -/
def group? (m : Found) (index : Nat) : Option Span :=
  if index = 0 then some m.span else m.groups.lookup index

end Found

namespace Pattern

/-- The preferred match that begins at a place. -/
def findAt? (p : Pattern) (text : Array Char) (start : Nat) : Option Found :=
  (p.root.ways text ⟨start, []⟩).head?.map fun q => ⟨⟨start, q.pos⟩, q.groups⟩

/-- The first match that begins at one of `places` places from `start` on. -/
def findWithin? (p : Pattern) (text : Array Char) : (places start : Nat) → Option Found
  | 0, _ => none
  | places + 1, start =>
      match p.findAt? text start with
      | some m => some m
      | none => p.findWithin? text places (start + 1)

/-- The first match that begins at or after a place. -/
def find? (p : Pattern) (text : Array Char) (start : Nat) : Option Found :=
  p.findWithin? text (text.size + 1 - start) start

/-- All matches from a place on, each after the one before, whose end was `last`. An empty match does
not count where another match has just ended. Every match but the first of a place moves on, so twice
as many as there are places are enough for `fuel`. -/
def findAllFrom (p : Pattern) (text : Array Char) :
    (fuel : Nat) → (last : Option Nat) → (start : Nat) → List Found
  | 0, _, _ => []
  | fuel + 1, last, start =>
      let next := p.find? text start
      let next := match next with
        | some m =>
            if m.span.first == m.span.last && some m.span.last == last then
              p.find? text (start + 1)
            else next
        | none => none
      match next with
      | some m => m :: p.findAllFrom text fuel (some m.span.last) m.span.last
      | none => []

/-- All matches, from left to right. -/
def findAll (p : Pattern) (text : Array Char) : List Found :=
  p.findAllFrom text (2 * text.size + 2) none 0

/-- Whether there is a match anywhere in the text. -/
def isMatch (p : Pattern) (text : Array Char) : Bool := (p.find? text 0).isSome

end Pattern

end RegisterMachine
