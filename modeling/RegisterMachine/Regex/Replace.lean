import RegisterMachine.Decimal.Digits
import RegisterMachine.Regex.Match

/-!
# Replacing matches

A replacement can refer to the groups of the match it stands for: by a dollar sign and a number or a
name, in braces or as long as there are letters, digits and underscores. A group that does not exist
or took no part in the match is empty, two dollar signs stand for one, and a dollar sign that refers
to nothing stands for itself.
-/

namespace RegisterMachine

/-- A part of a replacement. -/
inductive ReplacementPart
  | char (c : Char)
  | group (index : Nat)
  | named (name : String)
  deriving DecidableEq, Repr

namespace ReplacementPart

def isNameChar (c : Char) : Bool :=
  Decimal.isDigit c || ('a' ≤ c && c ≤ 'z') || ('A' ≤ c && c ≤ 'Z') || c == '_'

/-- The group that a number or a name refers to. -/
def reference (name : List Char) : ReplacementPart :=
  match Decimal.readNat? 18446744073709551615 name with
  | some n => group n
  | none => named (String.ofList name)

/-- The first part of a replacement, and the rest. -/
def first (c : Char) (rest : List Char) : ReplacementPart × List Char :=
  if c != '$' then (char c, rest)
  else
    match rest with
    | '$' :: rest => (char '$', rest)
    | '\x7b' :: inner =>
        if inner.contains '\x7d' then
          let name := inner.takeWhile (· != '\x7d')
          (reference name, inner.drop (name.length + 1))
        else (char '$', rest)
    | rest =>
        let name := rest.takeWhile isNameChar
        if name.isEmpty then (char '$', rest) else (reference name, rest.drop name.length)

/-- The parts of a replacement. Each takes at least one character, so as many as there are
characters are enough for `fuel`. -/
def partsWithin : (fuel : Nat) → List Char → List ReplacementPart
  | 0, _ => []
  | _, [] => []
  | fuel + 1, c :: rest =>
      let (part, rest) := first c rest
      part :: partsWithin fuel rest

def parts (text : List Char) : List ReplacementPart := partsWithin text.length text

end ReplacementPart

/-- The characters of a part of a text. -/
def Span.slice (text : Array Char) (s : Span) : List Char :=
  (text.extract s.first s.last).toList

namespace Pattern

/-- What a part of a replacement stands for. -/
def expandPart (p : Pattern) (text : Array Char) (m : Found) : ReplacementPart → List Char
  | .char c => [c]
  | .group index => ((m.group? index).map (Span.slice text)).getD []
  | .named name =>
      (((p.names.lookup name).bind m.group?).map (Span.slice text)).getD []

/-- The text from `start` on, with the matches that are left replaced. -/
def replaceFrom (p : Pattern) (text : Array Char) (parts : List ReplacementPart) (start : Nat) :
    List Found → List Char
  | [] => Span.slice text ⟨start, text.size⟩
  | m :: rest =>
      Span.slice text ⟨start, m.span.first⟩ ++ parts.flatMap (p.expandPart text m) ++
        p.replaceFrom text parts m.span.last rest

/-- The text with every match replaced. -/
def replaceAll (p : Pattern) (text : Array Char) (replacement : List Char) : List Char :=
  p.replaceFrom text (ReplacementPart.parts replacement) 0 (p.findAll text)

end Pattern

end RegisterMachine
