/-!
# JSON documents, whole or broken

A document as it was read. Text that is no JSON still gives a tree: it breaks off at one place,
and the tree says where and why. What to make of the break depends on who comes upon it. A reader
that wants a value there and one that only skips it can see different errors, and a reader that
finds something it cannot use before the break never sees it. So reading has two passes: text to
tree, without any idea of what is wanted, and tree to what is wanted, from left to right.
-/

namespace RegisterMachine.Json

/-- What is wrong with a document. -/
inductive Problem
  /-- It is no JSON, or has a number or string that nothing can hold. -/
  | malformed
  /-- It ends too early. -/
  | truncated
  /-- It is JSON, but not of the shape that is wanted. -/
  | mismatch
  deriving DecidableEq, Repr

/-- Why a document breaks off, for a reader of what is there and for one that skips it. -/
structure Break where
  whenRead : Problem
  whenSkipped : Problem
  deriving DecidableEq, Repr

/-- A break that is the same for everyone. -/
def Break.always (p : Problem) : Break := ⟨p, p⟩

/-- A number. It is an integer if it is written as one and fits a 64-bit word with or without
sign; `-0` is not. -/
inductive Number
  | int (i : Int)
  | float (x : Float)
  deriving DecidableEq, Repr

/-- The name of a member of an object. -/
inductive Key
  | name (s : String)
  /-- A string with half of a surrogate pair. -/
  | unreadable
  /-- Something that is no string. -/
  | stray
  | broken (b : Break)
  deriving Repr

end RegisterMachine.Json

namespace RegisterMachine

/-- A document or a part of one. -/
inductive Json
  | null
  | bool (b : Bool)
  | number (n : Json.Number)
  | string (s : String)
  /-- A number beyond the greatest double or a string with half of a surrogate pair: it can be
  skipped but not read. -/
  | unreadable
  /-- The items and, where the text goes wrong instead of ending the list or starting the next
  item, what is wrong with it. -/
  | list (items : List Json) (stop : Option Json.Problem)
  | object (members : List (Json.Key × Json)) (stop : Option Json.Problem)
  | broken (b : Json.Break)
  deriving Repr

namespace Json

instance : Inhabited Json := ⟨null⟩

/-- A whole list. -/
def ofList (items : List Json) : Json := list items none

/-- A whole object. -/
def ofMembers (members : List (String × Json)) : Json :=
  object (members.map fun (k, v) => (.name k, v)) none

def ofNat (n : Nat) : Json := number (.int n)

def ofInt (i : Int) : Json := number (.int i)

/-- An object's value under a name, the first if there are several. -/
def get? (j : Json) (name : String) : Option Json :=
  match j with
  | object members _ => members.findSome? fun (k, v) =>
      match k with
      | .name s => if s == name then some v else none
      | _ => none
  | _ => none

/-- What is wrong with a value for someone who wants another kind of value. -/
def unfit : Json → Problem
  | unreadable => .malformed
  | broken b => b.whenRead
  | _ => .mismatch

end RegisterMachine.Json
