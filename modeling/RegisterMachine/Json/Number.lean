import RegisterMachine.Decimal.Digits
import RegisterMachine.Json.Basic

/-!
# The value of a number

A number is read digit by digit into a word of 64 bits, and the digits that no longer fit are left
out. What is an integer stays one. Anything else is that word as a double, then multiplied or
divided by a power of ten as a double: for more than fifteen digits or a large exponent this is not
always the double nearest to the number as written.
-/

namespace RegisterMachine.Json

/-- The greatest word. -/
def maxWord : Nat := 18446744073709551615

/-- The parts of a number as written. -/
structure Numeral where
  negative : Bool
  whole : List Char
  /-- The digits after the point, if there is one. -/
  fraction : Option (List Char)
  /-- The exponent, if there is one: whether it is negative, and its digits. -/
  exponent : Option (Bool × List Char)
  deriving Repr

/-- Takes on digits while they fit: the word, how many digits were taken and how many were not. -/
def takeDigits (word : Nat) : List Char → Nat × Nat × Nat
  | [] => (word, 0, 0)
  | c :: rest =>
      let next := 10 * word + Decimal.digitValue c
      if maxWord < next then (word, 0, rest.length + 1)
      else
        let (word, taken, left) := takeDigits next rest
        (word, taken + 1, left)

/-- A power of ten as a double. -/
def powerOfTen (n : Nat) : Float := Float.ofScientific 1 false n

/-- Divides by `10 ^ n`, as far as one power of ten at a time goes. -/
def scaleDown (fuel : Nat) (x : Float) (n : Nat) : Float :=
  match fuel with
  | 0 => x
  | fuel + 1 =>
      if n ≤ 308 then x / powerOfTen n
      else if x == 0 then x
      else scaleDown fuel (x / powerOfTen 308) (n - 308)

/-- A word times a power of ten, unless that is beyond the greatest double. -/
def scaled? (word : Nat) (exponent : Int) : Option Float :=
  let x := (UInt64.ofNat word).toFloat
  if exponent < 0 then
    some (scaleDown (exponent.natAbs / 308 + 1) x exponent.natAbs)
  else if exponent ≤ 308 then
    let y := x * powerOfTen exponent.natAbs
    if y.isInf then none else some y
  else if x == 0 then some x
  else none

namespace Numeral

/-- The greatest exponent that is still looked at closely. -/
def maxExponent : Nat := 2147483647

/-- The number written, unless it is beyond the greatest double. -/
def toNumber? (n : Numeral) : Option Number :=
  let (word, _, left) := takeDigits 0 n.whole
  let signed (x : Float) : Number := .float (if n.negative then -x else x)
  match n.fraction, n.exponent, left with
  | none, none, 0 =>
      if !n.negative then some (.int word)
      else if word = 0 || 9223372036854775808 < word then
        some (signed (UInt64.ofNat word).toFloat)
      else some (.int (-(word : Int)))
  | _, _, _ =>
      let (word, taken, _) := takeDigits word (n.fraction.getD [])
      let shift : Int := left - taken
      match n.exponent with
      | none => (scaled? word shift).map signed
      | some (negative, ds) =>
          let e := Decimal.value ds
          if maxExponent < e then
            if word = 0 || negative then some (signed 0) else none
          else
            (scaled? word (if negative then shift - e else shift + e)).map signed

end Numeral

end RegisterMachine.Json
