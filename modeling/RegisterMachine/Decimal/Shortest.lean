import RegisterMachine.Decimal.Digits

/-!
# The shortest decimal of a double

A finite double is a whole number of units `2 ^ exponent`. The reals that round to it form an
interval around it, whose ends belong to it exactly when the number of units is even. Of all
decimals in that interval the shortest is the one with the fewest digits and, among those, the
one nearest to the double. For a given number of digits only the two neighbours of the double on
that decimal grid are in question: where a point of the grid lies in the interval, so does one
of them.

All lengths are taken in one measure, `4 * 2 ^ 1074 * 10 ^ 400` to the unit, in which doubles,
the ends of their intervals and the decimal grids are whole numbers.
-/

namespace RegisterMachine.Decimal

/-- The positive number `units * 2 ^ (exponent - 1074)`. At a power of two the double just below
is half as far away as the one just above: `narrowBelow`. -/
structure Binary where
  units : Nat
  exponent : Nat
  narrowBelow : Bool
  deriving Repr

/-- What a double stands for. -/
inductive Parts
  | nan
  | infinite (negative : Bool)
  | zero (negative : Bool)
  | finite (negative : Bool) (b : Binary)
  deriving Repr

/-- Takes the 64 bits of a double apart. -/
def Parts.ofBits (bits : UInt64) : Parts :=
  let negative := bits >>> 63 == 1
  let exponent := ((bits >>> 52) &&& 0x7ff).toNat
  let fraction := (bits &&& 0xfffffffffffff).toNat
  if exponent == 0x7ff then
    if fraction == 0 then .infinite negative else .nan
  else if exponent == 0 then
    if fraction == 0 then .zero negative else .finite negative ⟨fraction, 0, false⟩
  else
    .finite negative ⟨fraction + Nat.pow 2 52, exponent - 1, fraction == 0 && exponent > 1⟩

/-- The number `coefficient * 10 ^ (exponent - 400)`. -/
structure Scaled where
  coefficient : Nat
  exponent : Nat
  deriving Repr

/-- The length of `10 ^ (exponent - 400)`. -/
def gridStep (exponent : Nat) : Nat := 4 * Nat.pow 2 1074 * Nat.pow 10 exponent

namespace Binary

/-- The length of the number itself. -/
def length (b : Binary) : Nat := 4 * b.units * (Nat.pow 2 b.exponent * Nat.pow 10 400)

/-- The lower end of the interval of reals that round to the number. -/
def lower (b : Binary) : Nat :=
  (4 * b.units - if b.narrowBelow then 1 else 2) * (Nat.pow 2 b.exponent * Nat.pow 10 400)

/-- The upper end. -/
def upper (b : Binary) : Nat := (4 * b.units + 2) * (Nat.pow 2 b.exponent * Nat.pow 10 400)

/-- Whether a length lies in the interval. -/
def rounds (b : Binary) (length : Nat) : Bool :=
  if b.units % 2 == 0 then b.lower ≤ length && length ≤ b.upper
  else b.lower < length && length < b.upper

/-- The first exponent, from `start` upwards, whose grid step is longer than `length`. -/
def placeFrom (length : Nat) : (fuel start step : Nat) → Nat
  | 0, start, _ => start
  | fuel + 1, start, step =>
      if length < step then start else placeFrom length fuel (start + 1) (step * 10)

/-- One past the exponent of the leading digit. -/
def place (b : Binary) : Nat := placeFrom b.length 720 0 (gridStep 0)

/-- The grid point with `count` digits that is nearest to the number and rounds to it; of two
equally near the greater. -/
def onGrid? (b : Binary) (place count : Nat) : Option Scaled :=
  let exponent := place - count
  let step := gridStep exponent
  let below := b.length / step
  let fits (c : Nat) : Bool := b.rounds (c * step)
  let belowIsNearer : Bool := 2 * (b.length - below * step) < step
  if fits below && (belowIsNearer || !fits (below + 1)) then some ⟨below, exponent⟩
  else if fits (below + 1) then some ⟨below + 1, exponent⟩
  else none

/-- The shortest decimal that rounds to the number. Seventeen digits always suffice. -/
def shortest (b : Binary) : Scaled :=
  let place := b.place
  ((List.range 17).findSome? fun n => b.onGrid? place (n + 1)).getD
    ⟨b.length / gridStep (place - 17), place - 17⟩

end Binary

/-- Writes a positive number without an exponent, a point only before a fraction, and no zero
at the end of the fraction. -/
def Scaled.positional (s : Scaled) : List Char :=
  if 400 ≤ s.exponent then
    digits s.coefficient ++ List.replicate (s.exponent - 400) '0'
  else
    let places := 400 - s.exponent
    let whole := digits (s.coefficient / Nat.pow 10 places)
    let fraction := digits (s.coefficient % Nat.pow 10 places)
    let padded := List.replicate (places - fraction.length) '0' ++ fraction
    let trimmed := (padded.reverse.dropWhile (· == '0')).reverse
    if trimmed.isEmpty then whole else whole ++ '.' :: trimmed

/-- Writes a positive number with a point or an exponent in any case. It has an exponent if its
leading digit stands more than sixteen places before the point or more than five behind it. -/
def Scaled.scientific (s : Scaled) : List Char :=
  let all := digits s.coefficient
  let ds := (all.reverse.dropWhile (· == '0')).reverse
  -- the place of the leading digit, 1 for the one before the point
  let place : Int := s.exponent + all.length - 400
  if 0 < place && place ≤ 16 then
    let whole := ds.take place.toNat
    let fraction := ds.drop place.toNat
    whole ++ List.replicate (place.toNat - ds.length) '0' ++
      '.' :: (if fraction.isEmpty then ['0'] else fraction)
  else if -5 < place && place ≤ 0 then
    '0' :: '.' :: (List.replicate place.natAbs '0' ++ ds)
  else
    let fraction := ds.drop 1
    ds.take 1 ++ (if fraction.isEmpty then [] else '.' :: fraction) ++
      'e' :: (toString (place - 1)).toList

/-- The text of a double: the shortest decimal that reads back, without an exponent. -/
def ofFloat (x : Float) : String :=
  let signed (negative : Bool) (text : List Char) : String :=
    String.ofList (if negative then '-' :: text else text)
  match Parts.ofBits x.toBits with
  | .nan => "NaN"
  | .infinite negative => signed negative ['i', 'n', 'f']
  | .zero negative => signed negative ['0']
  | .finite negative b => signed negative b.shortest.positional

end RegisterMachine.Decimal
