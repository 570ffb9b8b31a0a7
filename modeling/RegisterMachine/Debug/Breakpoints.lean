import RegisterMachine.Decimal.Digits
import RegisterMachine.Program.Basic
import RegisterMachine.Text.Blank

/-!
# Breakpoints

A breakpoint is a source position, written `source:line`. Only the last colon counts, so a source
may have colons of its own. A set of breakpoints is kept as the list of its members in order of
source, then line: which set it is, and nothing of how it came about, can be seen from it.
-/

namespace RegisterMachine

/-- What is before the last colon of a text and what is after it. -/
def splitLastColon? (text : List Char) : Option (List Char × List Char) :=
  let after := (text.reverse.takeWhile (· != ':')).reverse
  if after.length < text.length then some (text.take (text.length - after.length - 1), after)
  else none

/-- The position that a text names. There may be blanks around the line number and a plus sign
before it. -/
def SourcePos.ofText? (text : String) : Option SourcePos := do
  let (source, line) ← splitLastColon? text.toList
  if source.isEmpty then none
  else
    let line ← Decimal.readNat? 4294967295 (Text.trimChars line)
    some ⟨String.ofList source, .ofNat line⟩

/-- Whether a position stands before another: by source, then by line. -/
def SourcePos.before (p q : SourcePos) : Bool :=
  decide (p.source < q.source) || (p.source == q.source && decide (p.line < q.line))

structure Breakpoints where
  /-- The members, each once and in order. -/
  toList : List SourcePos
  deriving DecidableEq, Repr

namespace Breakpoints

def empty : Breakpoints := ⟨[]⟩

instance : Inhabited Breakpoints := ⟨empty⟩

/-- Puts a position where it belongs. -/
def insertInto (p : SourcePos) : List SourcePos → List SourcePos
  | [] => [p]
  | q :: rest =>
      if p = q then q :: rest
      else if p.before q then p :: q :: rest
      else q :: insertInto p rest

def insert (b : Breakpoints) (p : SourcePos) : Breakpoints := ⟨insertInto p b.toList⟩

def insertAll (b : Breakpoints) (ps : List SourcePos) : Breakpoints := ps.foldl insert b

def ofList (ps : List SourcePos) : Breakpoints := empty.insertAll ps

def contains (b : Breakpoints) (p : SourcePos) : Bool := b.toList.contains p

def size (b : Breakpoints) : Nat := b.toList.length

theorem mem_insertInto {p q : SourcePos} {ps : List SourcePos} :
    q ∈ insertInto p ps ↔ q = p ∨ q ∈ ps := by
  induction ps with
  | nil => simp [insertInto]
  | cons r rest ih => grind [insertInto]

end Breakpoints

end RegisterMachine
