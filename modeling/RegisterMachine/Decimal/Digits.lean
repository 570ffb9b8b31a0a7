/-!
# Decimal digits

Digit strings and the numbers they stand for, most significant digit first.
-/

namespace RegisterMachine.Decimal

/-- The ASCII digits. No other digit counts as one in a number. -/
def isDigit (c : Char) : Bool := decide ('0' ≤ c) && decide (c ≤ '9')

def digitValue (c : Char) : Nat := c.toNat - '0'.toNat

/-- The number that a string of digits stands for, continuing from `start`. -/
def valueFrom (start : Nat) (digits : List Char) : Nat :=
  digits.foldl (fun n c => 10 * n + digitValue c) start

def value (digits : List Char) : Nat := valueFrom 0 digits

/-- The digits of a number, with no leading zero except for zero itself. -/
def digits (n : Nat) : List Char := Nat.toDigits 10 n

/-- The number that a non-empty string of digits stands for. -/
def value? (text : List Char) : Option Nat :=
  if text.isEmpty || !text.all isDigit then none else some (value text)

/-- An optional plus sign, then digits, the value at most `limit`. -/
def readNat? (limit : Nat) (text : List Char) : Option Nat := do
  let unsigned := match text with
    | '+' :: rest => rest
    | rest => rest
  let n ← value? unsigned
  if n ≤ limit then some n else none

/-- An optional sign, then digits, the value between `-(limit + 1)` and `limit`. -/
def readInt? (limit : Nat) (text : List Char) : Option Int :=
  match text with
  | '-' :: rest => do
      let n ← value? rest
      if n ≤ limit + 1 then some (-(n : Int)) else none
  | rest => (readNat? limit rest).map Int.ofNat

end RegisterMachine.Decimal
