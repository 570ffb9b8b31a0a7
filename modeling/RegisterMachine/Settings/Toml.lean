import RegisterMachine.Settings.Tree
import RegisterMachine.Text.Hex

/-!
# Settings files

The part of TOML that settings need: sections, dotted keys, integers, floats, truth values, strings on
one line, lists and tables in braces. No key is given twice. A file is read as a whole or not at all.
-/

namespace RegisterMachine.Settings.Toml

/-- What is left of a text after something has been read from it. -/
abbrev Reader (α : Type) := List Char → Option (α × List Char)

def isSpace (c : Char) : Bool := c == ' ' || c == '\t'

def skipSpace (text : List Char) : List Char := text.dropWhile isSpace

/-- The rest of a line that has nothing more to say. -/
def endLine? (text : List Char) : Option (List Char) :=
  let text := skipSpace text
  let text := if text.head? == some '#' then text.dropWhile (· != '\n') else text
  match text with
  | [] => some []
  | '\n' :: rest => some rest
  | '\r' :: '\n' :: rest => some rest
  | _ => none

/-- Goes past blank lines and comments. Each takes at least one character, so as many as there are
characters are enough for `fuel`. -/
def skipLines : (fuel : Nat) → List Char → List Char
  | 0, text => text
  | fuel + 1, text =>
      match skipSpace text, endLine? text with
      | [], _ => []
      | _, some rest => skipLines fuel rest
      | text, none => text

def skipBlank (text : List Char) : List Char := skipLines text.length text

/-! ## Strings and keys -/

/-- What a backslash and a letter stand for. -/
def escaped? : Char → Option Char
  | 'b' => some '\x08'
  | 't' => some '\t'
  | 'n' => some '\n'
  | 'f' => some '\x0c'
  | 'r' => some '\r'
  | '"' => some '"'
  | '\\' => some '\\'
  | _ => none

/-- The character of some hexadecimal digits. -/
def codePoint? (ds : List Char) : Option Char := do
  let values ← ds.mapM Text.hexValue?
  let n := values.foldl (fun n d => 16 * n + d) 0
  if n.isValidChar then some (Char.ofNat n) else none

/-- Whether a character can stand in a string as it is. -/
def isPlain (c : Char) : Bool := c == '\t' || (' ' ≤ c && c != '\x7f')

/-- The rest of a string in double quotes. -/
def basicString (sofar : List Char) : Reader String
  | [] => none
  | '"' :: rest => some (String.ofList sofar.reverse, rest)
  | '\\' :: 'u' :: a :: b :: c :: d :: rest => do
      basicString ((← codePoint? [a, b, c, d]) :: sofar) rest
  | '\\' :: 'U' :: a :: b :: c :: d :: e :: f :: g :: h :: rest => do
      basicString ((← codePoint? [a, b, c, d, e, f, g, h]) :: sofar) rest
  | '\\' :: c :: rest => do basicString ((← escaped? c) :: sofar) rest
  | c :: rest => if isPlain c then basicString (c :: sofar) rest else none

/-- The rest of a string in single quotes, where nothing is escaped. -/
def literalString : Reader String := fun text =>
  let inner := text.takeWhile (· != '\'')
  match text.drop inner.length with
  | [] => none
  | _ :: rest => if inner.all isPlain then some (String.ofList inner, rest) else none

def isBareKeyChar (c : Char) : Bool :=
  c.toNat < 128 && (c.isAlphanum || c == '_' || c == '-')

/-- One part of a key. -/
def keyPart : Reader String := fun text =>
  match text with
  | '"' :: rest => basicString [] rest
  | '\'' :: rest => literalString rest
  | text =>
      let word := text.takeWhile isBareKeyChar
      if word.isEmpty then none else some (String.ofList word, text.drop word.length)

/-- A key: parts with points between them. -/
def key : (fuel : Nat) → Reader (List String)
  | 0, _ => none
  | fuel + 1, text => do
      let (part, rest) ← keyPart (skipSpace text)
      match skipSpace rest with
      | '.' :: rest => do
          let (parts, rest) ← key fuel rest
          some (part :: parts, rest)
      | rest => some ([part], rest)

/-! ## Values -/

/-- Digits of some kind with single underscores between them. -/
def digits? (isDigit : Char → Bool) (text : List Char) : Option (List Char) :=
  let wellPlaced (c next : Char) : Bool :=
    (isDigit c || c == '_') && (isDigit next || next == '_') && !(c == '_' && next == '_')
  let pairs := text.zip (text.drop 1)
  let ends := text.head?.any isDigit && text.getLast?.any isDigit
  if ends && pairs.all fun (c, next) => wellPlaced c next then some (text.filter (· != '_'))
  else none

/-- Decimal digits without a leading zero. -/
def decimal? (text : List Char) : Option (List Char) := do
  let ds ← digits? Decimal.isDigit text
  if ds.head? == some '0' && 1 < ds.length then none else some ds

/-- The number of digits in another base. -/
def based? (base : Nat) (text : List Char) : Option Nat := do
  let ds ← digits? (fun c => (Text.hexValue? c).any (· < base)) text
  some (ds.foldl (fun n c => base * n + (Text.hexValue? c).getD 0) 0)

/-- A fraction and an exponent: the text of a float after its whole part. -/
def floatRest? (text : List Char) : Option (List Char) := do
  let fraction := if text.head? == some '.' then
      (text.drop 1).takeWhile fun c => c != 'e' && c != 'E'
    else []
  let rest := if text.head? == some '.' then text.drop (fraction.length + 1) else text
  let fraction ← if text.head? == some '.' then digits? Decimal.isDigit fraction else some []
  let exponent ← match rest with
    | [] => some []
    | e :: '+' :: ds => if e == 'e' || e == 'E' then digits? Decimal.isDigit ds else none
    | e :: '-' :: ds =>
        if e == 'e' || e == 'E' then (digits? Decimal.isDigit ds).map ('-' :: ·) else none
    | e :: ds => if e == 'e' || e == 'E' then digits? Decimal.isDigit ds else none
  some (fraction ++ 'e' :: (if exponent.isEmpty then ['0'] else exponent))

/-- A number after its sign. -/
def unsigned? (text : List Char) : Option Tree :=
  let whole := text.takeWhile fun c => Decimal.isDigit c || c == '_'
  let rest := text.drop whole.length
  match String.ofList text with
  | "inf" => some (.float (1.0 / 0.0))
  | "nan" => some (.float (0.0 / 0.0))
  | _ => do
      let ds ← decimal? whole
      if rest.isEmpty then some (.int (Decimal.value ds))
      else
        let more ← floatRest? rest
        let x ← Decimal.readFloat? (ds ++ '.' :: more)
        some (.float x)

/-- A number. Integers are 64-bit words with a sign. -/
def number? (text : List Char) : Option Tree := do
  let t ← match text with
    | '0' :: 'x' :: ds => (based? 16 ds).map fun n => Tree.int n
    | '0' :: 'o' :: ds => (based? 8 ds).map fun n => Tree.int n
    | '0' :: 'b' :: ds => (based? 2 ds).map fun n => Tree.int n
    | '+' :: rest => unsigned? rest
    | '-' :: rest => do
        match ← unsigned? rest with
        | .int i => some (.int (-i))
        | .float x => some (.float (-x))
        | other => some other
    | rest => unsigned? rest
  match t with
  | .int i =>
      if -9223372036854775808 ≤ i ∧ i ≤ 9223372036854775807 then some (.int i) else none
  | other => some other

/-- A word or a number. -/
def scalar? (text : List Char) : Option Tree :=
  match String.ofList text with
  | "true" => some (.bool true)
  | "false" => some (.bool false)
  | _ => number? text

def isScalarChar (c : Char) : Bool :=
  c.toNat < 128 && (c.isAlphanum || c == '_' || c == '-' || c == '+' || c == '.')

/-- Adds a value under a key that has none yet. Tables on the way may be there already. -/
def define (t : Tree) : (path : List String) → Tree → Option Tree
  | [], _ => none
  | [k], v => if (t.get? k).isSome then none else some (t.put k v)
  | k :: path, v =>
      match t.get? k with
      | none => some (t.put k (Tree.empty.putAt path v))
      | some (.table entries) => (define (.table entries) path v).map (t.put k)
      | some _ => none

mutual

/-- A value. Everything in it takes at least one character, so as many as there are characters are
enough for `fuel`. -/
def value : (fuel : Nat) → Reader Tree
  | 0, _ => none
  | fuel + 1, text =>
      match text with
      | '"' :: rest => (basicString [] rest).map fun (s, rest) => (.string s, rest)
      | '\'' :: rest => (literalString rest).map fun (s, rest) => (.string s, rest)
      | '[' :: rest => items fuel [] (skipBlank rest)
      | '\x7b' :: rest =>
          match skipSpace rest with
          | '\x7d' :: rest => some (Tree.empty, rest)
          | rest => members fuel Tree.empty rest
      | text => do
          let word := text.takeWhile isScalarChar
          let t ← scalar? word
          some (t, text.drop word.length)

/-- The rest of a list. -/
def items : (fuel : Nat) → (sofar : List Tree) → Reader Tree
  | 0, _, _ => none
  | fuel + 1, sofar, text =>
      match text with
      | ']' :: rest => some (.list sofar.reverse, rest)
      | text => do
          let (v, rest) ← value fuel text
          match skipBlank rest with
          | ',' :: rest => items fuel (v :: sofar) (skipBlank rest)
          | ']' :: rest => some (.list (v :: sofar).reverse, rest)
          | _ => none

/-- The rest of a table in braces, which has at least one more member. -/
def members : (fuel : Nat) → (sofar : Tree) → Reader Tree
  | 0, _, _ => none
  | fuel + 1, sofar, text => do
      let (path, rest) ← key fuel text
      match rest with
      | '=' :: rest => do
          let (v, rest) ← value fuel (skipSpace rest)
          let sofar ← define sofar path v
          match skipSpace rest with
          | ',' :: rest => members fuel sofar rest
          | '\x7d' :: rest => some (sofar, rest)
          | _ => none
      | _ => none

end

/-! ## Files -/

/-- What has been read of a file. -/
structure Reading where
  root : Tree
  /-- The section that keys now belong to. -/
  current : List String
  /-- The sections that have had their own header. -/
  headers : List (List String)

/-- Whether a path leads to a table or to nothing at all. -/
def isOpen (t : Tree) : List String → Bool
  | [] => true
  | k :: path =>
      match t.get? k with
      | none => true
      | some (.table entries) => isOpen (.table entries) path
      | some _ => false

/-- The value at the end of a path. -/
def getAt? (t : Tree) : List String → Option Tree
  | [] => some t
  | k :: path => do getAt? (← t.get? k) path

/-- Begins a section. -/
def Reading.begin (r : Reading) (path : List String) : Option Reading :=
  if r.headers.contains path || !isOpen r.root path then none
  else
    let root := if (getAt? r.root path).isSome then r.root else r.root.putAt path Tree.empty
    some { root, current := path, headers := path :: r.headers }

/-- Gives a key of the section a value. -/
def Reading.add (r : Reading) (path : List String) (v : Tree) : Option Reading := do
  let table ← getAt? r.root r.current
  let table ← define table path v
  some { r with root := r.root.putAt r.current table }

/-- One line that is not blank. -/
def line (r : Reading) (text : List Char) : Option (Reading × List Char) :=
  match text with
  | '[' :: rest => do
      let (path, rest) ← key rest.length rest
      match rest with
      | ']' :: rest => do
          let rest ← endLine? rest
          some (← r.begin path, rest)
      | _ => none
  | text => do
      let (path, rest) ← key text.length text
      match rest with
      | '=' :: rest => do
          let (v, rest) ← value text.length (skipSpace rest)
          let rest ← endLine? rest
          some (← r.add path v, rest)
      | _ => none

/-- All lines. Each takes at least one character, so as many as there are characters are enough for
`fuel`. -/
def lines : (fuel : Nat) → Reading → List Char → Option Reading
  | 0, r, text => if text.isEmpty then some r else none
  | fuel + 1, r, text =>
      match skipBlank text with
      | [] => some r
      | text => do
          let (r, rest) ← line r text
          lines fuel r rest

/-- Reads a file. -/
def ofText? (text : String) : Option Tree :=
  (lines text.length ⟨Tree.empty, [], []⟩ text.toList).map Reading.root

end RegisterMachine.Settings.Toml
