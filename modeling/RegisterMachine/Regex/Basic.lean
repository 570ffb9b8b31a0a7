import RegisterMachine.Text.Blank
import RegisterMachine.Text.Case
import RegisterMachine.Text.Word

/-!
# Regular expressions

Patterns as trees. A flag of the syntax is no part of the tree: what it does to a literal, a dot or
an anchor is settled when the pattern is read.
-/

namespace RegisterMachine

/-- A set of characters. -/
inductive CharSet
  | none
  | range (first last : Char)
  | digit | blank | word
  | union (s t : CharSet)
  /-- The characters that are in both. -/
  | inter (s t : CharSet)
  /-- The characters of the first that are not in the second. -/
  | diff (s t : CharSet)
  | compl (s : CharSet)
  /-- The characters some case variant of which is in the set. -/
  | anyCase (s : CharSet)
  deriving DecidableEq, Repr

namespace CharSet

def single (c : Char) : CharSet := range c c

def contains : CharSet → Char → Bool
  | none, _ => false
  | range first last, c => decide (first ≤ c) && decide (c ≤ last)
  | digit, c => Text.isDigit c
  | blank, c => Text.isBlank c
  | word, c => Text.isWord c
  | union s t, c => s.contains c || t.contains c
  | inter s t, c => s.contains c && t.contains c
  | diff s t, c => s.contains c && !t.contains c
  | compl s, c => !s.contains c
  | anyCase s, c => s.contains c || (Text.caseVariants c).any s.contains

/-- What a set stands for where case may be disregarded, and which may be negated after that. -/
def meant (s : CharSet) (disregarded negated : Bool) : CharSet :=
  let s := if disregarded then .anyCase s else s
  if negated then .compl s else s

end CharSet

/-- What must be true of a place in the text. -/
inductive Assertion
  | textStart | textEnd | lineStart | lineEnd
  /-- Of the characters on either side exactly one is a word character. -/
  | wordBoundary
  | noWordBoundary
  | wordStart | wordEnd
  /-- The half of a word's beginning that looks back: there is no word character before. -/
  | wordStartHalf
  /-- The half of a word's end that looks ahead. -/
  | wordEndHalf
  deriving DecidableEq, Repr

inductive Regex
  /-- Matches the empty text. -/
  | empty
  /-- Matches one character. -/
  | set (s : CharSet)
  | assert (a : Assertion)
  | seq (r s : Regex)
  /-- Matches what either does; the left is preferred. -/
  | alt (r s : Regex)
  /-- Notes what is matched as the group of this number. -/
  | group (index : Nat) (r : Regex)
  /-- Matches several times in a row, preferably as often as possible or as seldom as possible. -/
  | repetition (r : Regex) (least : Nat) (most : Option Nat) (greedy : Bool)
  deriving Repr

/-- What the syntax of patterns takes from tables of characters. -/
structure Regex.Tables where
  /-- The characters that have a property, by the name of it as it is written. -/
  property? : String → Option CharSet
  /-- Whether a character can begin the name of a group, or go on with it. -/
  nameChar : (first : Bool) → Char → Bool

/-- A regular expression and the names of its groups. The whole match counts as group 0. -/
structure Pattern where
  root : Regex
  /-- The number of each group that has a name. -/
  names : List (String × Nat)
  /-- How deep it was nested as it was written. -/
  nesting : Nat
  deriving Repr

end RegisterMachine
