import RegisterMachine.Decimal.Digits

/-!
# Reading decimals as doubles

A decimal numeral, with or without a fraction and an exponent, read as the double nearest to it.
-/

namespace RegisterMachine.Decimal

/-- The number `coefficient * 10 ^ exponent`. -/
structure Numeral where
  coefficient : Nat
  exponent : Int
  deriving Repr, DecidableEq

/-- The double nearest to a numeral. Beyond the greatest double it is infinite. A numeral of this
many digits more or less than a double can have is settled without computing the power. -/
def Numeral.toFloat (n : Numeral) : Float :=
  let leading : Int := n.exponent + (digits n.coefficient).length
  if n.coefficient == 0 || leading < -400 then 0.0
  else if 400 < leading then 1.0 / 0.0
  else if n.exponent < 0 then Float.ofScientific n.coefficient true n.exponent.natAbs
  else Float.ofScientific n.coefficient false n.exponent.natAbs

/-- The exponent of a numeral after its `e`: an optional sign and digits. -/
def readExponent? (text : List Char) : Option Int :=
  match text with
  | '-' :: rest => (value? rest).map fun n => -(n : Int)
  | '+' :: rest => (value? rest).map Int.ofNat
  | rest => (value? rest).map Int.ofNat

/-- A numeral without a sign: digits on at least one side of an optional point, then an optional
exponent. -/
def readNumeral? (text : List Char) : Option Numeral := do
  let mantissa := text.takeWhile fun c => c != 'e' && c != 'E'
  let exponent ← match text.drop mantissa.length with
    | [] => some 0
    | _ :: rest => readExponent? rest
  let whole := mantissa.takeWhile (· != '.')
  let fraction := (mantissa.drop whole.length).drop 1
  let ds := whole ++ fraction
  if ds.isEmpty || !ds.all isDigit then none
  else some ⟨value ds, exponent - fraction.length⟩

/-- A double: an optional sign, then `inf`, `infinity` or `nan` in letters of either case, or a
numeral. -/
def readFloat? (text : List Char) : Option Float :=
  let unsigned := match text with
    | '-' :: rest => rest
    | '+' :: rest => rest
    | rest => rest
  let magnitude : Option Float :=
    match String.ofList (unsigned.map Char.toLower) with
    | "nan" => some (0.0 / 0.0)
    | "inf" => some (1.0 / 0.0)
    | "infinity" => some (1.0 / 0.0)
    | _ => (readNumeral? unsigned).map Numeral.toFloat
  if text.head? == some '-' then magnitude.map (-·) else magnitude

end RegisterMachine.Decimal
