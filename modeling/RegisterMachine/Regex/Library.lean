import RegisterMachine.Regex.Reader
import RegisterMachine.Regex.Replace

/-!
# Libraries of regular expressions

A machine does not deal with patterns itself. It hands them to a library, which compiles them, and all it
ever has of a pattern is what the library made of it. Which texts are patterns is known from the grammar,
but a library has limits of its own, and how large something becomes when it is compiled is up to it.

`Library.unbounded` follows the grammar and matches as `Regex.ways` does. It has the limit on depth, none
on size, and tables for a few properties only.
-/

namespace RegisterMachine.Regex

/-- What can be done with a pattern that has been compiled. -/
structure Compiled where
  /-- Whether there is a match anywhere in a text. -/
  isMatch : String → Bool
  /-- The texts of all matches, from left to right. -/
  findAll : String → List String
  /-- A text with every match replaced. -/
  replaceAll : (text replacement : String) → String

structure Library where
  tables : Tables
  /-- Compiles a pattern, or says what is wrong with it. -/
  compile : String → Except String Compiled

namespace Compiled

/-- What the ways of matching make of a pattern. -/
def ofPattern (p : Pattern) : Compiled where
  isMatch text := p.isMatch text.toList.toArray
  findAll text :=
    let chars := text.toList.toArray
    (p.findAll chars).map fun m => String.ofList (m.span.slice chars)
  replaceAll text replacement :=
    String.ofList (p.replaceAll text.toList.toArray replacement.toList)

end Compiled

namespace Tables

/-- The properties for which there are tables at hand. Only the letters and digits of a name count. -/
def knownProperty? (name : String) : Option CharSet :=
  match String.ofList ((name.toList.filter Char.isAlphanum).map Char.toLower) with
  | "any" => some (.compl .none)
  | "ascii" => some (.range '\x00' '\x7f')
  | "nd" | "decimalnumber" => some .digit
  | "whitespace" | "space" | "wspace" => some .blank
  | _ => none

/-- Letters and underscores, and later on digits, dots and brackets. -/
def knownNameChar (first : Bool) (c : Char) : Bool :=
  if first then c == '_' || (Text.isWord c && !Text.isDigit c)
  else Text.isWord c || c == '.' || c == '[' || c == ']'

def known : Tables := ⟨knownProperty?, knownNameChar⟩

end Tables

namespace Library

/-- Compiles a pattern that is to use up a whole text. It has to be a pattern by itself as well: what is
put around it could make up for what it lacks. -/
def compileAnchored (lib : Library) (text : String) : Except String Compiled := do
  let _ ← lib.compile text
  lib.compile (Pattern.anchoredText text)

/-- A library without a limit on size. -/
def unbounded : Library where
  tables := .known
  compile text := ((Pattern.ofText .known text).mapError PatternError.message).map Compiled.ofPattern

end Library

end RegisterMachine.Regex
