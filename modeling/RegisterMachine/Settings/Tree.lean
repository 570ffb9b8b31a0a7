import RegisterMachine.Decimal.Reading
import RegisterMachine.Decimal.Shortest
import RegisterMachine.Settings.Basic

/-!
# Trees of settings

What a settings file or a variable says, before it is known what is wanted. A scalar is taken for
whatever scalar is wanted if it makes sense as one: a text that reads as a number for that number, a
truth value for one or zero, a number for its text.
-/

namespace RegisterMachine.Settings

inductive Tree
  | bool (b : Bool)
  | int (i : Int)
  | float (x : Float)
  | string (s : String)
  | list (items : List Tree)
  | table (entries : List (String × Tree))
  deriving Repr

namespace Tree

def empty : Tree := table []

/-- A table's value under a key. -/
def get? : Tree → String → Option Tree
  | table entries, key => entries.lookup key
  | _, _ => none

/-- The entries of a table; anything else has none. -/
def entries : Tree → List (String × Tree)
  | table entries => entries
  | _ => []

/-- Gives a key a value. Anything but a table becomes one. -/
def put (t : Tree) (key : String) (v : Tree) : Tree :=
  if (t.entries.lookup key).isSome then
    table (t.entries.map fun (k, old) => if k == key then (k, v) else (k, old))
  else table (t.entries ++ [(key, v)])

/-- Gives the end of a path a value, making tables on the way where there are none. -/
def putAt (t : Tree) : (path : List String) → (v : Tree) → Tree
  | [], v => v
  | key :: path, v => t.put key (((t.get? key).getD empty).putAt path v)

/-- The text without regard to ASCII case. -/
def lowered (s : String) : String := String.ofList (s.toList.map Char.toLower)

def asBool? : Tree → Option Bool
  | bool b => some b
  | int i => some (i != 0)
  | float x => some (x != 0)
  | string s =>
      let word := lowered s
      if ["1", "true", "on", "yes"].contains word then some true
      else if ["0", "false", "off", "no"].contains word then some false
      else none
  | list _ => none
  | table _ => none

/-- A number up to a bound. Fractions are rounded, and a float beyond all words counts as the nearest
of them. -/
def asNat? (greatest : Nat) (t : Tree) : Option Nat :=
  let n : Option Nat := match t with
    | bool b => some b.toNat
    | int i => if 0 ≤ i then some i.toNat else none
    | float x => some x.round.toUInt64.toNat
    | string s =>
        let word := lowered s
        if ["true", "on", "yes"].contains word then some 1
        else if ["false", "off", "no"].contains word then some 0
        else Decimal.readNat? maxOffset s.toList
    | list _ => none
    | table _ => none
  n.filter (· ≤ greatest)

def asString? : Tree → Option String
  | bool b => some (if b then "true" else "false")
  | int i => some (toString i)
  | float x => some (Decimal.ofFloat x)
  | string s => some s
  | list _ => none
  | table _ => none

def asStrings? : Tree → Option (List String)
  | list items => items.mapM asString?
  | _ => none

/-- A member of a table, or of a list that holds the members in their order. -/
def member (t : Tree) (index : Nat) (key : String) : Option (Option Tree) :=
  match t with
  | table entries => some (entries.lookup key)
  | list items => some items[index]?
  | _ => none

/-- A member read by `f`, or `default` where it is missing. -/
def memberOr {α : Type} (t : Tree) (index : Nat) (key : String) (f : Tree → Option α)
    (default : α) : Option α := do
  match ← t.member index key with
  | some v => f v
  | none => some default

def toRuntime? (t : Tree) : Option RuntimeSettings := do
  let maxCallDepth ← t.memberOr 0 "max_call_depth" (asNat? maxOffset) 1024
  some { maxCallDepth }

def toDebug? (t : Tree) : Option DebugSettings := do
  let enabled ← t.memberOr 0 "enabled" asBool? false
  let handshakeTimeout ← t.memberOr 1 "handshake_timeout_secs" (asNat? maxOffset) 30
  let breakpoints ← t.memberOr 2 "breakpoints" asStrings? []
  let port ← t.memberOr 3 "port" (fun v => (v.asNat? 65535).map fun n => some n) none
  some { enabled, handshakeTimeout, breakpoints, port := port.map .ofNat }

def toLogging? (t : Tree) : Option LoggingSettings := do
  let filter ← t.memberOr 0 "filter" asString? "info"
  some { filter }

/-- The settings that a tree describes. Keys that mean nothing are passed over. -/
def toSettings? (t : Tree) : Option Settings := do
  let runtime ← t.memberOr 0 "runtime" toRuntime? {}
  let debug ← t.memberOr 1 "debug" toDebug? {}
  let logging ← t.memberOr 2 "logging" toLogging? {}
  some { runtime, debug, logging }

end Tree

end RegisterMachine.Settings
