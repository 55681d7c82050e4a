import LedgerTx.Error
import LedgerTx.Text.Decimal

namespace LedgerTx.Amount

/-! # Amounts

Amounts are whole numbers of stroops, of which a unit of any asset has ten million.  In decimal units an
amount has at most seven places. -/

/-- The places of an amount in units. -/
def places : Nat := 7

/-- The stroops in one unit. -/
def stroopsPerUnit : Nat := 10000000

/-! ## Writing -/

/-- The number with zeros in front up to a width. -/
def padLeft (width : Nat) (digits : List Char) : List Char :=
  List.replicate (width - digits.length) '0' ++ digits

/-- A text without the zeros at its end. -/
def dropZeros (digits : List Char) : List Char :=
  (digits.reverse.dropWhile (· == '0')).reverse

/-- A number of stroops in units: the whole part, and the places up to the last that is not zero. -/
def magnitudeText (stroops : Nat) : List Char :=
  let whole := Decimal.ofNat (stroops / stroopsPerUnit)
  let fraction := stroops % stroopsPerUnit
  -- a whole number of units has no point
  if fraction = 0 then whole
  else whole ++ '.' :: dropZeros (padLeft places (Decimal.ofNat fraction))

/-- An amount in units, with a minus when it is negative. -/
def unitsText (stroops : Int64) : List Char :=
  let magnitude := magnitudeText stroops.toInt.natAbs
  if stroops.toInt < 0 then '-' :: magnitude else magnitude

/-- An amount in units times ten million: `40.0004e7`. -/
def comment (stroops : Int64) : List Char :=
  unitsText stroops ++ ['e', '7']

/-! ## Checked steps -/

/-- Whether a whole number is one of 64 bits. -/
def inRange (i : Int) : Bool :=
  Int64.minValue.toInt ≤ i && i ≤ Int64.maxValue.toInt

/-- The product, unless it overflows. -/
def mul? (a b : Int64) : Option Int64 :=
  if inRange (a.toInt * b.toInt) then some (a * b) else none

/-- The sum, unless it overflows. -/
def add? (a b : Int64) : Option Int64 :=
  if inRange (a.toInt + b.toInt) then some (a + b) else none

/-! ## Reading -/

/-- The number with zeros behind up to a width. -/
def padRight (width : Nat) (digits : List Char) : List Char :=
  digits ++ List.replicate (width - digits.length) '0'

/-- The whole units that digits spell, none when there are no digits, unless they overflow. -/
def units? (whole : List Char) : Option Int64 :=
  if whole = [] then some 0 else Decimal.int64? whole

/-- The stroops behind the point; with zeros up to all places the digits count them. -/
def rest? (fraction : List Char) : Option Int64 :=
  if fraction = [] then some 0 else Decimal.int64? (padRight places fraction)

/-- The stroops that digits before and behind the point spell, unless a step overflows. -/
def stroops? (whole fraction : List Char) : Option Int64 := do
  -- each step is checked by itself
  let units ← units? whole
  let rest ← rest? fraction
  let stroops ← mul? units (Int64.ofNat stroopsPerUnit)
  add? stroops rest

/-- What stands before the first point and what stands behind it. -/
def split (text : List Char) : List Char × List Char :=
  let (whole, rest) := text.span (· != '.')
  (whole, rest.drop 1)

/-- Reads an amount in units: digits, at least one, around at most one point. -/
def parse (text : String) : Except ArgumentError Int64 :=
  let (whole, fraction) := split text.toList
  if whole = [] ∧ fraction = [] then .error (.notAmount text)
  else if !(whole.all Char.isDigit && fraction.all Char.isDigit) then .error (.notAmount text)
  -- an eighth place would be less than a stroop
  else if places < fraction.length then .error (.amountPlaces places text)
  else
    match stroops? whole fraction with
    | some stroops => .ok stroops
    | none => .error (.notAmount text)

/-- Reads an amount in units that is not zero. -/
def parsePositive (text : String) : Except ArgumentError Int64 := do
  let stroops ← parse text
  if stroops = 0 then throw (.amountZero text) else return stroops

end LedgerTx.Amount
