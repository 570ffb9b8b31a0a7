import RegisterMachine.Json.Reader

/-!
# From tree to data

A decoder turns a part of a document into data, taking what it needs from left to right and
stopping at the first thing wrong. Part of a document may have been put aside whole before anyone
knew what it was for (`Place.settled`), as happens to an object that names its own kind in one of
its members; there nothing can be broken any more, and what the document holds too much of is a
matter of its shape and not of its text.

`Record` describes objects with known members. It is applicative: the decoder of a structure is its
constructor applied to the decoders of its fields, in the order in which they are declared.
-/

namespace RegisterMachine.Json

/-- Where a decoder is at work. -/
structure Place where
  /-- How many containers may still be opened one in another. -/
  depth : Nat
  /-- Whether this part of the document has been read whole before. -/
  settled : Bool

/-- The place of a document's root. -/
def Place.root : Place := ⟨127, false⟩

/-- Goes into a container. Too many of them in one another count as a fault of the text. -/
def Place.enter (p : Place) : Except Problem Place :=
  if p.settled then .ok p
  else
    match p.depth with
    | 0 => .error .malformed
    | depth + 1 => .ok { p with depth }

abbrev Decoder (α : Type) := Place → Json → Except Problem α

mutual

/-- Goes past a value that nobody wants. -/
def skip : Json → Except Problem Unit
  | null | bool _ | number _ | string _ | unreadable => .ok ()
  | broken b => .error b.whenSkipped
  | list items stop => do skipItems items stop
  | object members stop => do skipMembers members stop

def skipItems : List Json → Option Problem → Except Problem Unit
  | [], none => .ok ()
  | [], some p => .error p
  | item :: rest, stop => do
      skip item
      skipItems rest stop

def skipMembers : List (Key × Json) → Option Problem → Except Problem Unit
  | [], none => .ok ()
  | [], some p => .error p
  | (.broken b, _) :: _, _ => .error b.whenSkipped
  | (.stray, _) :: _, _ => .error .malformed
  | (_, value) :: rest, stop => do
      skip value
      skipMembers rest stop

end

/-- The name of a member. -/
def Key.read : Key → Except Problem String
  | .name s => .ok s
  | .unreadable => .error .malformed
  | .stray => .error .malformed
  | .broken b => .error b.whenRead

mutual

/-- Reads a value whole, to put it aside. -/
def settle (place : Place) : Json → Except Problem Unit
  | null | bool _ | number _ | string _ => .ok ()
  | unreadable => .error .malformed
  | broken b => .error b.whenRead
  | list items stop => do settleItems (← place.enter) items stop
  | object members stop => do settleMembers (← place.enter) members stop

def settleItems (place : Place) : List Json → Option Problem → Except Problem Unit
  | [], none => .ok ()
  | [], some p => .error p
  | item :: rest, stop => do
      settle place item
      settleItems place rest stop

def settleMembers (place : Place) : List (Key × Json) → Option Problem → Except Problem Unit
  | [], none => .ok ()
  | [], some p => .error p
  | (key, value) :: rest, stop => do
      let _ ← key.read
      settle place value
      settleMembers place rest stop

end

/-- The problem at the end of a container, where there is one. -/
def checkStop : Option Problem → Except Problem Unit
  | none => .ok ()
  | some p => .error p

namespace Decoder

def string : Decoder String
  | _, .string s => .ok s
  | _, j => .error j.unfit

def bool : Decoder Bool
  | _, .bool b => .ok b
  | _, j => .error j.unfit

/-- An integer between two bounds. -/
def int (least greatest : Int) : Decoder Int
  | _, .number (.int i) => if least ≤ i ∧ i ≤ greatest then .ok i else .error .mismatch
  | _, j => .error j.unfit

/-- A natural number up to a bound. -/
def nat (greatest : Nat) : Decoder Nat := fun p j =>
  (int 0 greatest p j).map Int.toNat

/-- A float; an integer counts as one. -/
def float : Decoder Float
  | _, .number (.float x) => .ok x
  | _, .number (.int i) => .ok (Float.ofInt i)
  | _, j => .error j.unfit

/-- A value or null. -/
def option {α : Type} (d : Decoder α) : Decoder (Option α)
  | _, .null => .ok none
  | p, j => (d p j).map some

def map {α β : Type} (f : α → β) (d : Decoder α) : Decoder β := fun p j => (d p j).map f

/-- The items of a list. -/
def items {α : Type} (d : Decoder α) (p : Place) :
    List Json → Option Problem → Except Problem (List α)
  | [], stop => do
      checkStop stop
      .ok []
  | item :: rest, stop => do
      let a ← d p item
      let as ← items d p rest stop
      .ok (a :: as)

def list {α : Type} (d : Decoder α) : Decoder (List α)
  | p, .list js stop => do items d (← p.enter) js stop
  | _, j => .error j.unfit

end Decoder

/-! ## Objects with known members -/

/-- The members of an object, or the items of a list in their place. -/
structure Record (α : Type) where
  /-- What has been read so far. -/
  Draft : Type
  blank : Draft
  /-- The names of the members, in order. -/
  names : List String
  /-- Whether a member has been read. -/
  has : String → Draft → Bool
  /-- Reads a member. -/
  read : String → Place → Json → Draft → Except Problem Draft
  /-- The whole, if nothing is missing. -/
  finish : Draft → Except Problem α

namespace Record

/-- One member, with what to do without it. -/
def field {α : Type} (name : String) (d : Decoder α) (missing : Except Problem α) : Record α where
  Draft := Option α
  blank := none
  names := [name]
  has _ draft := draft.isSome
  read _ p j _ := (d p j).map some
  finish
    | some a => .ok a
    | none => missing

/-- A member that must be there. -/
def required {α : Type} (name : String) (d : Decoder α) : Record α :=
  field name d (.error .mismatch)

/-- A member that may be left out. -/
def optional {α : Type} (name : String) (d : Decoder α) (default : α) : Record α :=
  field name d (.ok default)

/-- No members at all. -/
def const {α : Type} (a : α) : Record α where
  Draft := Unit
  blank := ()
  names := []
  has _ _ := false
  read _ _ _ draft := .ok draft
  finish _ := .ok a

/-- The members of both. -/
def both {α β : Type} (f : Record (α → β)) (x : Record α) : Record β where
  Draft := f.Draft × x.Draft
  blank := (f.blank, x.blank)
  names := f.names ++ x.names
  has name draft := if f.names.contains name then f.has name draft.1 else x.has name draft.2
  read name p j draft :=
    if f.names.contains name then (f.read name p j draft.1).map (·, draft.2)
    else (x.read name p j draft.2).map (draft.1, ·)
  finish draft := do
    let g ← f.finish draft.1
    let a ← x.finish draft.2
    .ok (g a)

instance : Applicative Record where
  pure := const
  seq f x := both f (x ())

variable {α : Type}

/-- Reads the members of an object. A member may come only once; one that is not known is
skipped. -/
def members (r : Record α) (p : Place) (draft : r.Draft) :
    List (Key × Json) → Option Problem → Except Problem r.Draft
  | [], stop => do
      checkStop stop
      .ok draft
  | (key, value) :: rest, stop => do
      let name ← key.read
      if r.names.contains name then
        if r.has name draft then .error .mismatch
        else r.members p (← r.read name p value draft) rest stop
      else
        value.skip
        r.members p draft rest stop

/-- What is left of a list when all members have been read. -/
def surplus (p : Place) : List Json → Option Problem → Except Problem Unit
  | [], stop => checkStop stop
  | _ :: _, _ => .error (if p.settled then .mismatch else .malformed)

/-- Reads the items of a list as the members in their order. -/
def inOrder (r : Record α) (p : Place) (draft : r.Draft) :
    List String → List Json → Option Problem → Except Problem (r.Draft × List Json)
  | [], rest, _ => .ok (draft, rest)
  | _ :: _, [], stop => do
      checkStop stop
      .ok (draft, [])
  | name :: names, item :: rest, stop => do
      r.inOrder p (← r.read name p item draft) names rest stop

/-- Reads an object, or a list that holds the values of the members in order; at its end members
that may be left out may be missing. -/
def decoder (r : Record α) : Decoder α
  | p, .object js stop => do
      let draft ← r.members (← p.enter) r.blank js stop
      r.finish draft
  | p, .list js stop => do
      let inner ← p.enter
      let (draft, rest) ← r.inOrder inner r.blank r.names js stop
      let a ← r.finish draft
      surplus p rest stop
      .ok a
  | _, j => .error j.unfit

/-- Reads the members that the record knows and puts all others aside. -/
def partition (r : Record α) (p : Place) (draft : r.Draft) (aside : List (Key × Json)) :
    List (Key × Json) → Option Problem → Except Problem (r.Draft × List (Key × Json))
  | [], stop => do
      checkStop stop
      .ok (draft, aside.reverse)
  | (key, value) :: rest, stop => do
      let name ← key.read
      if r.names.contains name then
        if r.has name draft then .error .mismatch
        else r.partition p (← r.read name p value draft) aside rest stop
      else
        settle p value
        r.partition p draft ((key, value) :: aside) rest stop

/-- Reads an object that holds the members of two records. Those of `other` are put aside until all
members are there. A list will not do. -/
def flattened {β γ : Type} (own : Record β) (other : Record γ) : Decoder (β × γ)
  | p, .object js stop => do
      let inner ← p.enter
      let (draft, aside) ← own.partition inner own.blank [] js stop
      let b ← own.finish draft
      let draft ← other.members { inner with settled := true } other.blank aside none
      let c ← other.finish draft
      .ok (b, c)
  | _, j => .error j.unfit

end Record

/-! ## Choices -/

/-- One of several things that a name stands for. -/
inductive Variant (α : Type)
  /-- The name alone. -/
  | unit (a : α)
  /-- The name with a value. -/
  | withValue (d : Decoder α)

namespace Variant

variable {α : Type}

/-- What a name that stands alone means. -/
def alone : Option (Variant α) → Except Problem α
  | some (unit a) => .ok a
  | _ => .error .mismatch

/-- What a name with a value means. A name that needs none may have null, and where the document
has been put aside an empty object, for it. -/
def applied (p : Place) (value : Json) : Option (Variant α) → Except Problem α
  | none => .error .mismatch
  | some (withValue d) => d p value
  | some (unit a) =>
      match value with
      | .null => .ok a
      | .object [] none => if p.settled then .ok a else .error .mismatch
      | j => .error j.unfit

/-- Reads a name, or an object with one member that gives a name its value. -/
def choose (variants : List (String × Variant α)) : Decoder α
  | _, .string s => alone (variants.lookup s)
  | p, .object js stop =>
      if p.settled then
        match js with
        | [(.name s, value)] => applied p value (variants.lookup s)
        | _ => .error .mismatch
      else do
        let inner ← p.enter
        match js with
        | [] => .error (stop.getD .malformed)
        | (.stray, _) :: _ => .error .mismatch
        | (key, value) :: rest =>
            let name ← key.read
            let variant := variants.lookup name
            if variant.isNone then .error .mismatch
            else
              let a ← applied inner value variant
              if rest.isEmpty then
                checkStop stop
                .ok a
              else .error .malformed
  | p, j =>
      match j.unfit with
      | .mismatch => .error (if p.settled then .mismatch else .malformed)
      | other => .error other

end Variant

/-- Reads the member that is the tag and puts all others aside. The tag must be one of `known`. -/
def findTag (p : Place) (tag : String) (known : String → Bool) (found : Option String)
    (aside : List (Key × Json)) :
    List (Key × Json) → Option Problem → Except Problem (Option String × List (Key × Json))
  | [], stop => do
      checkStop stop
      .ok (found, aside.reverse)
  | (key, value) :: rest, stop => do
      let name ← key.read
      if name == tag then
        if found.isSome then .error .mismatch
        else
          let s ← Decoder.string p value
          if known s then findTag p tag known (some s) aside rest stop else .error .mismatch
      else
        settle p value
        findTag p tag known found ((key, value) :: aside) rest stop

/-- Reads an object one of whose members, `tag`, says which of the records it is, or a list with the
tag as its first item. All other members are put aside until the tag is known. -/
def tagged {α : Type} (tag : String) (variants : List (String × Record α)) : Decoder α :=
  let rest (p : Place) (name : Option String) (j : Json) : Except Problem α :=
    match name with
    | none => .error .mismatch
    | some name =>
        match variants.lookup name with
        | some r => r.decoder { p with settled := true } j
        | none => .error .mismatch
  fun
  | p, .object js stop => do
      let inner ← p.enter
      let known (s : String) : Bool := (variants.lookup s).isSome
      let (found, aside) ← findTag inner tag known none [] js stop
      rest inner found (.object aside none)
  | p, .list js stop => do
      let inner ← p.enter
      match js with
      | [] => do
          checkStop stop
          .error .mismatch
      | first :: items => do
          let s ← Decoder.string inner first
          if (variants.lookup s).isNone then .error .mismatch
          else
            settleItems inner items stop
            rest inner (some s) (.list items none)
  | _, j => .error j.unfit

/-- Decodes a document: nothing may come after it. -/
def Document.decode {α : Type} (d : Decoder α) (doc : Document) : Except Problem α := do
  let a ← d .root doc.root
  if doc.trailing then .error .malformed else .ok a

/-- Decodes a text. -/
def decodeText {α : Type} (d : Decoder α) (text : String) : Except Problem α :=
  (Document.ofText text).decode d

end RegisterMachine.Json
