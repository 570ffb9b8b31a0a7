/-!
# Bytes as text

UTF-8 read one byte at a time. Where the bytes are not well formed, the longest part that could
still have begun a character becomes one replacement character, and reading goes on with the byte
that broke it.
-/

namespace RegisterMachine.Text

/-- Stands for bytes that are no character. -/
def replacement : Char := '\uFFFD'

/-- Where reading stands between two bytes. -/
inductive Utf8State
  | start
  /-- Inside a character: the value so far, how many more bytes are due, and the least and
  greatest the next one may be. -/
  | inside (value due : Nat) (least greatest : UInt8)
  deriving DecidableEq, Repr

/-- What a first byte says: a whole character, the beginning of one, or neither. -/
def utf8First (b : UInt8) : Utf8State × List Char :=
  let n := b.toNat
  if n < 0x80 then (.start, [Char.ofNat n])
  else if 0xC2 ≤ n && n ≤ 0xDF then (.inside (n - 0xC0) 1 0x80 0xBF, [])
  else if n == 0xE0 then (.inside 0 2 0xA0 0xBF, [])
  else if n == 0xED then (.inside 0xD 2 0x80 0x9F, [])
  else if 0xE1 ≤ n && n ≤ 0xEF then (.inside (n - 0xE0) 2 0x80 0xBF, [])
  else if n == 0xF0 then (.inside 0 3 0x90 0xBF, [])
  else if 0xF1 ≤ n && n ≤ 0xF3 then (.inside (n - 0xF0) 3 0x80 0xBF, [])
  else if n == 0xF4 then (.inside 4 3 0x80 0x8F, [])
  else (.start, [replacement])

/-- One byte further: the new state and the characters that are settled. -/
def utf8Next : Utf8State → UInt8 → Utf8State × List Char
  | .start, b => utf8First b
  | .inside value due least greatest, b =>
      if least ≤ b && b ≤ greatest then
        let value := value * 64 + (b.toNat - 0x80)
        if due ≤ 1 then (.start, [Char.ofNat value]) else (.inside value (due - 1) 0x80 0xBF, [])
      else
        let (state, settled) := utf8First b
        (state, replacement :: settled)

/-- The text of bytes, from a given state. -/
def decodeUtf8From : Utf8State → List UInt8 → List Char
  | .start, [] => []
  | .inside .., [] => [replacement]
  | state, b :: rest =>
      let (state, settled) := utf8Next state b
      settled ++ decodeUtf8From state rest

/-- The text of bytes, with replacement characters where they are not well formed. -/
def decodeUtf8 (bytes : List UInt8) : String := String.ofList (decodeUtf8From .start bytes)

end RegisterMachine.Text
