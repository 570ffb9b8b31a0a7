import RegisterMachine.Regex.Token

/-!
# How deep a pattern is nested

A group, a repetition and a set in brackets are one level deeper than what they contain. So are parts that
stand side by side, items in a row or alternatives, provided that there are several of them.
-/

namespace RegisterMachine.Regex

/-- The greatest depth that a pattern may have. -/
def maxNesting : Nat := 250

/-- The depth of parts side by side. -/
def beside : List Nat → Nat
  | [] => 0
  | [depth] => depth
  | depths => depths.foldl max 0 + 1

namespace SetExpr

/-- The depths of the items that a set is made of, the last one first. -/
def depths : SetExpr → List Nat
  | plain .none => []
  | plain _ | named _ _ => [0]
  | union a b => beside b.depths :: a.depths
  | op _ a b => [max (beside a.depths) (beside b.depths) + 1]
  | bracket _ e => [beside e.depths + 1]

def nesting (e : SetExpr) : Nat := beside e.depths

end SetExpr

/-- The depths of what has been read of a group. -/
structure Levels where
  /-- Those of the alternatives that are complete. -/
  branches : List Nat
  /-- Those of the items of the alternative being read, the last one first. -/
  items : List Nat
  deriving DecidableEq, Repr

namespace Levels

def start : Levels := ⟨[], []⟩

def add (l : Levels) (depth : Nat) : Levels := { l with items := depth :: l.items }

/-- The last item is repeated. -/
def deepen (l : Levels) : Levels :=
  match l.items with
  | [] => l
  | last :: before => { l with items := (last + 1) :: before }

/-- Another alternative begins. -/
def bar (l : Levels) : Levels := ⟨beside l.items :: l.branches, []⟩

/-- The depth of all alternatives. -/
def whole (l : Levels) : Nat := beside (beside l.items :: l.branches)

end Levels

end RegisterMachine.Regex
