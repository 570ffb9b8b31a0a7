import RegisterMachine.Json.Token

/-!
# From text to tree

The tokens are taken one at a time, with the containers that are open on a stack. The first token
that cannot stand where it stands is the break, and the containers that are open there are closed
around it.
-/

namespace RegisterMachine.Json

/-- A container that is open, with what it holds so far, the last first. -/
inductive Open
  | list (items : List Json)
  /-- The name is that of the member whose value is being read. -/
  | object (members : List (Key × Json)) (key : Key)
  deriving Repr

/-- Closes the innermost container around its last value. -/
def Open.close (value : Json) : Open → Json
  | list items => .list (value :: items).reverse none
  | object members key => .object ((key, value) :: members).reverse none

/-- Closes all open containers around the value at which the document breaks off. -/
def closeAll (value : Json) (stack : List Open) : Json := stack.foldl (fun v o => o.close v) value

/-- What can come next. -/
inductive Expecting
  /-- A value, or the end of the list if it is still empty. -/
  | value (mayClose : Bool)
  /-- A comma or the end of the innermost container, which is open around a finished value. -/
  | separator (value : Json)
  /-- The name of a member, or the end of the object if it is still empty. -/
  | key (members : List (Key × Json)) (mayClose : Bool)
  /-- The colon after a name. -/
  | colon (members : List (Key × Json)) (key : Key)
  deriving Repr

/-- A document: the value that was read, and whether something comes after it. -/
structure Document where
  root : Json
  trailing : Bool
  deriving Repr

/-- The document when the text ends. -/
def atEnd (stack : List Open) : Expecting → Document
  | .value _ => ⟨closeAll (.broken (.always .truncated)) stack, false⟩
  | .separator v =>
      match stack with
      | [] => ⟨v, false⟩
      | .list items :: rest => ⟨closeAll (.list (v :: items).reverse (some .truncated)) rest, false⟩
      | .object members key :: rest =>
          ⟨closeAll (.object ((key, v) :: members).reverse (some .truncated)) rest, false⟩
  | .key members _ =>
      let here := (Key.broken (.always .truncated), Json.null)
      ⟨closeAll (.object (here :: members).reverse none) stack, false⟩
  | .colon members key =>
      let here := (key, Json.broken (.always .truncated))
      ⟨closeAll (.object (here :: members).reverse none) stack, false⟩

/-- The document that the tokens make, given the open containers and what can come next. -/
def build (stack : List Open) (expecting : Expecting) : List Token → Document
  | [] => atEnd stack expecting
  | token :: rest =>
      match expecting with
      | .value mayClose =>
          match token with
          | .null => build stack (.separator .null) rest
          | .bool b => build stack (.separator (.bool b)) rest
          | .number n => build stack (.separator (.number n)) rest
          | .string s => build stack (.separator (.string s)) rest
          | .unreadableString | .unreadableNumber => build stack (.separator .unreadable) rest
          | .openList => build (.list [] :: stack) (.value true) rest
          | .openObject => build stack (.key [] true) rest
          | .brokenString b | .broken b => ⟨closeAll (.broken b) stack, false⟩
          | .closeList =>
              match mayClose, stack with
              | true, .list [] :: outer => build outer (.separator (.list [] none)) rest
              | _, _ => ⟨closeAll (.broken (.always .malformed)) stack, false⟩
          | .closeObject | .comma | .colon =>
              ⟨closeAll (.broken (.always .malformed)) stack, false⟩
      | .separator v =>
          match stack with
          | [] => ⟨v, true⟩
          | .list items :: outer =>
              match token with
              | .comma => build (.list (v :: items) :: outer) (.value false) rest
              | .closeList => build outer (.separator (.list (v :: items).reverse none)) rest
              | _ => ⟨closeAll (.list (v :: items).reverse (some .malformed)) outer, false⟩
          | .object members key :: outer =>
              let members := (key, v) :: members
              match token with
              | .comma => build outer (.key members false) rest
              | .closeObject => build outer (.separator (.object members.reverse none)) rest
              | _ => ⟨closeAll (.object members.reverse (some .malformed)) outer, false⟩
      | .key members mayClose =>
          let stopAt (key : Key) : Document :=
            ⟨closeAll (.object ((key, .null) :: members).reverse none) stack, false⟩
          match token with
          | .string s => build stack (.colon members (.name s)) rest
          | .unreadableString => build stack (.colon members .unreadable) rest
          | .brokenString b => stopAt (.broken b)
          | .closeObject =>
              if mayClose then build stack (.separator (.object members.reverse none)) rest
              else stopAt (.broken (.always .malformed))
          | .null | .bool _ | .number _ | .openList | .openObject => stopAt .stray
          | _ => stopAt (.broken (.always .malformed))
      | .colon members key =>
          match token with
          | .colon => build (.object members key :: stack) (.value false) rest
          | _ =>
              let here := (key, Json.broken (.always .malformed))
              ⟨closeAll (.object (here :: members).reverse none) stack, false⟩

/-- Reads a text. -/
def Document.ofText (text : String) : Document := build [] (.value false) (tokens text.toList)

end RegisterMachine.Json
