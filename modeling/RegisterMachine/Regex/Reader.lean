import RegisterMachine.Regex.Nesting

/-!
# From tokens to a pattern

The tokens are taken one at a time, with the groups that are open on a stack. Flags hold from where
they are set to the end of the innermost group.
-/

namespace RegisterMachine.Regex

/-- The flags in force. -/
structure Flags where
  anyCase : Bool := false
  multiLine : Bool := false
  dotAll : Bool := false
  deriving DecidableEq, Repr

namespace Flags

def set (f : Flags) : Flag → Bool → Flags
  | .anyCase, on => { f with anyCase := on }
  | .multiLine, on => { f with multiLine := on }
  | .dotAll, on => { f with dotAll := on }

def change (f : Flags) (c : FlagChange) : Flags := c.foldl (fun f (flag, on) => f.set flag on) f

end Flags

/-- What has been read of a group. -/
structure Partial where
  /-- The alternatives that are complete, the last one first. -/
  branches : List Regex
  /-- The items of the alternative being read, the last one first. -/
  items : List Regex
  /-- Whether there is an item just before that can be repeated. -/
  repeatable : Bool
  flags : Flags
  levels : Levels
  deriving Repr

namespace Partial

/-- The beginning of a group. -/
def start (flags : Flags) : Partial := ⟨[], [], false, flags, .start⟩

/-- Another item, which is nested so deep. -/
def addAt (p : Partial) (depth : Nat) (r : Regex) : Partial :=
  { p with items := r :: p.items, repeatable := true, levels := p.levels.add depth }

def add (p : Partial) (r : Regex) : Partial := p.addAt 0 r

/-- The flags from here on. What sets them cannot be repeated, though it counts as an item. -/
def setFlags (p : Partial) (flags : Flags) : Partial :=
  { p with flags, repeatable := false, levels := p.levels.add 0 }

/-- All items in their order. -/
def branch (p : Partial) : Regex :=
  match p.items with
  | [] => .empty
  | last :: before => before.foldl (fun rest r => .seq r rest) last

/-- All alternatives in their order. -/
def whole (p : Partial) : Regex := p.branches.foldl (fun rest r => .alt r rest) p.branch

/-- Begins another alternative. -/
def bar (p : Partial) : Partial :=
  { p with
    branches := p.branch :: p.branches
    items := []
    repeatable := false
    levels := p.levels.bar }

/-- Repeats the last item. -/
def repeatLast (p : Partial) (least : Nat) (most : Option Nat) (greedy : Bool) :
    Except PatternError Partial :=
  match p.repeatable, p.items with
  | true, last :: before =>
      .ok { p with items := .repetition last least most greedy :: before, levels := p.levels.deepen }
  | _, _ => .error .nothingToRepeat

/-- A character or a set, which may stand for its case variants as well. -/
def addSet (p : Partial) (s : CharSet) : Partial :=
  p.add (.set (if p.flags.anyCase then .anyCase s else s))

end Partial

/-- A group that is open around another, with the number of the inner one if that is counted. -/
structure Enclosing where
  outer : Partial
  index : Option Nat
  deriving Repr

structure Reading where
  top : Partial
  enclosing : List Enclosing
  /-- How many groups have been counted. -/
  groups : Nat
  names : List (String × Nat)
  deriving Repr

namespace Reading

def start : Reading := ⟨.start {}, [], 0, []⟩

/-- Goes into a group. -/
def enter (r : Reading) (index : Option Nat) (flags : Flags) : Reading :=
  { r with top := .start flags, enclosing := ⟨r.top, index⟩ :: r.enclosing }

/-- Goes out of a group, which becomes an item of the one around it. -/
def leave (r : Reading) : Except PatternError Reading :=
  match r.enclosing with
  | [] => .error .unopenedGroup
  | ⟨outer, index⟩ :: enclosing =>
      let body := r.top.whole
      let item := match index with
        | some n => .group n body
        | none => body
      .ok { r with top := outer.addAt (r.top.levels.whole + 1) item, enclosing }

/-- Takes on a token. -/
def take (r : Reading) (token : Token) : Except PatternError Reading :=
  let flags := r.top.flags
  let put (top : Partial) : Except PatternError Reading := .ok { r with top }
  match token with
  | .char c => put (r.top.addSet (.single c))
  | .dot => put (r.top.add (.set (.compl (if flags.dotAll then .none else .single '\n'))))
  | .caret => put (r.top.add (.assert (if flags.multiLine then .lineStart else .textStart)))
  | .dollar => put (r.top.add (.assert (if flags.multiLine then .lineEnd else .textEnd)))
  | .assert a => put (r.top.add (.assert a))
  | .set s => put (r.top.add (.set s))
  | .written e => put (r.top.addAt e.nesting (.set (e.toSet flags.anyCase)))
  | .openPlain change => .ok (r.enter none (flags.change change))
  | .openGroup name =>
      let index := r.groups + 1
      let r := { r with groups := index }
      match name with
      | none => .ok (r.enter (some index) flags)
      | some name =>
          if (r.names.lookup name).isSome then .error (.duplicateGroupName name)
          else .ok ({ r with names := r.names ++ [(name, index)] }.enter (some index) flags)
  | .flags change => put (r.top.setFlags (flags.change change))
  | .close => r.leave
  | .bar => put r.top.bar
  | .repetition least most greedy => (r.top.repeatLast least most greedy).bind put

/-- The pattern, when all groups have been closed. -/
def finish (r : Reading) : Except PatternError Pattern :=
  match r.enclosing with
  | [] => .ok ⟨r.top.whole, r.names, r.top.levels.whole⟩
  | _ => .error .unclosedGroup

end Reading

end Regex

namespace Pattern

/-- Reads a pattern of any depth. -/
def read (tables : Regex.Tables) (text : String) : Except Regex.PatternError Pattern := do
  let tokens ← Regex.tokens tables text.toList
  let reading ← tokens.foldlM Regex.Reading.take Regex.Reading.start
  reading.finish

/-- Reads a pattern, which must not be too deep. -/
def ofText (tables : Regex.Tables) (text : String) : Except Regex.PatternError Pattern := do
  let pattern ← read tables text
  if Regex.maxNesting < pattern.nesting then .error .tooDeep else .ok pattern

/-- The text of a pattern as a group between anchors. -/
def anchoredText (text : String) : String := "^(?:" ++ text ++ ")$"

end Pattern

end RegisterMachine
