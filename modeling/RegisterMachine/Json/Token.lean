import RegisterMachine.Json.Number
import RegisterMachine.Text.Hex

/-!
# Tokens

The text of a document cut into tokens. A lexeme that is cut short or wrong becomes the last token
and says what is wrong with it.
-/

namespace RegisterMachine.Json

inductive Token
  | openList | closeList | openObject | closeObject | comma | colon
  | null | bool (b : Bool)
  | number (n : Number)
  | string (s : String)
  /-- A string that cannot be read. -/
  | unreadableString
  /-- A number that cannot be read. -/
  | unreadableNumber
  /-- A string that is wrong or cut short. -/
  | brokenString (b : Break)
  /-- Any other such lexeme. -/
  | broken (b : Break)
  deriving DecidableEq, Repr

def isSpace (c : Char) : Bool := c == ' ' || c == '\n' || c == '\t' || c == '\r'

/-- The value of four hexadecimal digits. -/
def hexWord? (a b c d : Char) : Option Nat := do
  let a ← Text.hexValue? a
  let b ← Text.hexValue? b
  let c ← Text.hexValue? c
  let d ← Text.hexValue? d
  some (((a * 16 + b) * 16 + c) * 16 + d)

/-- What a backslash and a letter stand for. -/
def escaped? : Char → Option Char
  | '"' => some '"'
  | '\\' => some '\\'
  | '/' => some '/'
  | 'b' => some '\x08'
  | 'f' => some '\x0c'
  | 'n' => some '\n'
  | 'r' => some '\r'
  | 't' => some '\t'
  | _ => none

/-- Where the reading of a string stands. -/
structure StringSoFar where
  /-- The characters so far, the last one first. -/
  chars : List Char
  /-- Whether every surrogate had its partner. -/
  readable : Bool
  /-- A first surrogate that waits for the second. -/
  high : Option Nat

namespace StringSoFar

def start : StringSoFar := ⟨[], true, none⟩

/-- Adds a character. A surrogate that waits has then waited in vain. -/
def push (s : StringSoFar) (c : Char) : StringSoFar :=
  { chars := c :: s.chars, readable := s.readable && s.high.isNone, high := none }

/-- Adds a unit of UTF-16 that was written as an escape. -/
def pushUnit (s : StringSoFar) (n : Nat) : StringSoFar :=
  let isHigh := 0xD800 ≤ n && n ≤ 0xDBFF
  let isLow := 0xDC00 ≤ n && n ≤ 0xDFFF
  match s.high with
  | some high =>
      if isLow then
        let c := Char.ofNat (0x10000 + (high - 0xD800) * 0x400 + (n - 0xDC00))
        { chars := c :: s.chars, readable := s.readable, high := none }
      else { s with readable := false, high := none }
  | none =>
      if isHigh then { s with high := some n }
      else if isLow then { s with readable := false }
      else s.push (Char.ofNat n)

/-- The token of a finished string. -/
def finish (s : StringSoFar) : Token :=
  if s.readable && s.high.isNone then .string (String.ofList s.chars.reverse)
  else .unreadableString

/-- The token of a string that goes wrong. One that could not have been read anyway has gone wrong
before. -/
def fail (s : StringSoFar) (p : Problem) : Token :=
  .brokenString ⟨if s.readable then p else .malformed, p⟩

end StringSoFar

/-- The rest of a string, after its opening quote. -/
def scanString (s : StringSoFar) : List Char → Token × List Char
  | [] => (s.fail .truncated, [])
  | '"' :: rest => (s.finish, rest)
  | '\\' :: 'u' :: a :: b :: c :: d :: rest =>
      match hexWord? a b c d with
      | some n => scanString (s.pushUnit n) rest
      | none => (s.fail .malformed, [])
  | '\\' :: 'u' :: rest =>
      (s.fail (if (String.ofList rest).utf8ByteSize < 4 then .truncated else .malformed), [])
  | '\\' :: [] => (s.fail .truncated, [])
  | '\\' :: c :: rest =>
      match escaped? c with
      | some c => scanString (s.push c) rest
      | none => (s.fail .malformed, [])
  | c :: rest =>
      if c < ' ' then (s.fail .malformed, []) else scanString (s.push c) rest

/-- A number that goes wrong where `rest` follows. If nothing does, a reader takes it to be cut
short, and one that skips it takes it to be wrong. -/
def brokenNumber (rest : List Char) : Token × List Char :=
  (.broken ⟨if rest.isEmpty then .truncated else .malformed, .malformed⟩, [])

/-- The token of a number. -/
def numberToken (n : Numeral) : Token :=
  match n.toNumber? with
  | some n => .number n
  | none => .unreadableNumber

/-- Whether an exponent is negative, and its text without the sign. -/
def takeSign : List Char → Bool × List Char
  | '-' :: rest => (true, rest)
  | '+' :: rest => (false, rest)
  | rest => (false, rest)

/-- The exponent of a number, from its `e` on. -/
def scanExponent (n : Numeral) (text : List Char) : Token × List Char :=
  match text with
  | [] => (numberToken n, [])
  | e :: rest =>
      if e == 'e' || e == 'E' then
        let (negative, rest) := takeSign rest
        let ds := rest.takeWhile Decimal.isDigit
        let rest := rest.dropWhile Decimal.isDigit
        if ds.isEmpty then brokenNumber rest
        else (numberToken { n with exponent := some (negative, ds) }, rest)
      else (numberToken n, text)

/-- A number, from after its sign on. -/
def scanNumber (negative : Bool) (text : List Char) : Token × List Char :=
  let whole := text.takeWhile Decimal.isDigit
  let rest := text.dropWhile Decimal.isDigit
  let n : Numeral := ⟨negative, whole, none, none⟩
  if whole.isEmpty then brokenNumber rest
  else if whole.head? == some '0' && 1 < whole.length then (.broken (.always .malformed), [])
  else
    match rest with
    | '.' :: rest =>
        let fraction := rest.takeWhile Decimal.isDigit
        let rest := rest.dropWhile Decimal.isDigit
        if fraction.isEmpty then brokenNumber rest
        else scanExponent { n with fraction := some fraction } rest
    | rest => scanExponent n rest

/-- The rest of a word that can only be one. -/
def scanWord (token : Token) : (expected text : List Char) → Token × List Char
  | [], rest => (token, rest)
  | _ :: _, [] => (.broken (.always .truncated), [])
  | e :: expected, c :: rest =>
      if c == e then scanWord token expected rest else (.broken (.always .malformed), [])

/-- The token that a character begins. -/
def scanToken (c : Char) (rest : List Char) : Token × List Char :=
  match c with
  | '[' => (.openList, rest)
  | ']' => (.closeList, rest)
  | '\x7b' => (.openObject, rest)
  | '\x7d' => (.closeObject, rest)
  | ',' => (.comma, rest)
  | ':' => (.colon, rest)
  | '"' => scanString .start rest
  | 'n' => scanWord .null ['u', 'l', 'l'] rest
  | 't' => scanWord (.bool true) ['r', 'u', 'e'] rest
  | 'f' => scanWord (.bool false) ['a', 'l', 's', 'e'] rest
  | '-' => scanNumber true rest
  | c => if Decimal.isDigit c then scanNumber false (c :: rest) else (.broken (.always .malformed), [])

/-- The tokens of a text. Each takes at least one character, so as many as there are characters
are enough for `fuel`. -/
def tokensWithin : (fuel : Nat) → List Char → List Token
  | 0, _ => []
  | fuel + 1, text =>
      match text.dropWhile isSpace with
      | [] => []
      | c :: rest =>
          let (token, rest) := scanToken c rest
          token :: tokensWithin fuel rest

def tokens (text : List Char) : List Token := tokensWithin text.length text

end RegisterMachine.Json
