import RegisterMachine.Decimal.Shortest
import RegisterMachine.Text.Utf8
import RegisterMachine.Value.Heap

/-!
# The text of a value

How the language turns a value into a string. A collection is written out wherever it occurs,
except inside itself: there it is `[...]` or, for maps and records, `{...}`. Strings are quoted
only as elements of an array of strings.
-/

namespace RegisterMachine

/-- The text of a value that is no collection. -/
def Value.scalarText : Value → String
  | .null => "null"
  | .int i => toString i.toInt
  | .float x => Decimal.ofFloat x
  | .bool true => "true"
  | .bool false => "false"
  | .str s => s
  | .blob bytes => Text.decodeUtf8 bytes
  | .range r => r.render
  | .error e => e.render
  | .collection _ => ""

/-- The text of one element of an array whose elements refer to nothing. -/
def ElementKind.slotText (kind : ElementKind) (x : kind.Slot) : String :=
  match kind with
  | .string => "\"" ++ x ++ "\""
  | kind => (kind.toValue x).scalarText

def bracketed (items : List String) : String := "[" ++ String.intercalate ", " items ++ "]"

def braced (items : List String) : String := "\x7b" ++ String.intercalate ", " items ++ "\x7d"

namespace Object

/-- What stands for the object inside itself. -/
def ellipsis : Object → String
  | array _ => "[...]"
  | map _ => "\x7b...\x7d"
  | record _ _ => "\x7b...\x7d"

/-- The text of an object, given the text of the values it holds. -/
def text (o : Object) (ofValue : Value → String) : String :=
  let entriesText (entries : Entries) : String :=
    braced (entries.map fun (k, v) => k ++ ":" ++ ofValue v)
  match o with
  | array ⟨.any, elements⟩ => bracketed (elements.toList.map ofValue)
  | array ⟨kind, elements⟩ => bracketed (elements.toList.map kind.slotText)
  | map entries => entriesText entries
  | record _ fields => entriesText fields

end Object

namespace Heap

/-- The text of a value inside the objects on `path`. Every object on the path is another one, so
as many of them as the heap has are enough for `depth`. -/
def textWithin (h : Heap) : (depth : Nat) → (path : List Ref) → Value → String
  | depth, path, .collection r =>
      match h.get? r with
      | none => Value.null.scalarText
      | some o =>
          if path.contains r then o.ellipsis
          else
            match depth with
            | 0 => o.ellipsis
            | depth + 1 => o.text (h.textWithin depth (r :: path))
  | _, _, v => v.scalarText

/-- The text of a value. -/
def text (h : Heap) (v : Value) : String := h.textWithin h.size [] v

/-- The text of an element as an array writes it. -/
def elementText (h : Heap) (kind : ElementKind) (v : Value) : String :=
  match kind, v with
  | .string, .str s => ElementKind.string.slotText s
  | _, v => h.text v

end Heap

end RegisterMachine
