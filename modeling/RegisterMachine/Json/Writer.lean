import RegisterMachine.Decimal.Shortest
import RegisterMachine.Json.Basic
import RegisterMachine.Text.Hex

/-!
# From tree to text

A whole document on one line without any spaces. Quotes, backslashes and control characters are
escaped, the last by a letter where there is one; every other character stands for itself.
-/

namespace RegisterMachine.Json

/-- What stands for a character in a string. -/
def escape (c : Char) : List Char :=
  match c with
  | '"' => ['\\', '"']
  | '\\' => ['\\', '\\']
  | '\x08' => ['\\', 'b']
  | '\x0c' => ['\\', 'f']
  | '\n' => ['\\', 'n']
  | '\r' => ['\\', 'r']
  | '\t' => ['\\', 't']
  | c =>
      if c < ' ' then ['\\', 'u', '0', '0', Text.hexDigit (c.toNat / 16), Text.hexDigit (c.toNat % 16)]
      else [c]

def quoted (s : String) : String :=
  String.ofList ('"' :: s.toList.flatMap escape ++ ['"'])

/-- The text of a float. It has a point or an exponent, so that it is read as a float again. What is
no number is written as null. -/
def floatText (x : Float) : List Char :=
  let signed (negative : Bool) (text : List Char) : List Char :=
    if negative then '-' :: text else text
  match Decimal.Parts.ofBits x.toBits with
  | .nan | .infinite _ => ['n', 'u', 'l', 'l']
  | .zero negative => signed negative ['0', '.', '0']
  | .finite negative b => signed negative b.shortest.scientific

/-- The text of a number. -/
def Number.text : Number → String
  | .int i => toString i
  | .float x => String.ofList (floatText x)

/-- Names are written as they are; a name that could not be read has no text. -/
def Key.text : Key → String
  | .name s => quoted s
  | _ => quoted ""

mutual

/-- The text of a document. -/
def compact : Json → String
  | null => "null"
  | bool true => "true"
  | bool false => "false"
  | number n => n.text
  | string s => quoted s
  | list items _ => "[" ++ String.intercalate "," (compactItems items) ++ "]"
  | object members _ => "\x7b" ++ String.intercalate "," (compactMembers members) ++ "\x7d"
  | unreadable => "null"
  | broken _ => "null"

def compactItems : List Json → List String
  | [] => []
  | item :: rest => compact item :: compactItems rest

def compactMembers : List (Key × Json) → List String
  | [] => []
  | (key, value) :: rest => (key.text ++ ":" ++ compact value) :: compactMembers rest

end

end RegisterMachine.Json
