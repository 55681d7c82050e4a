namespace LedgerTx.Decimal

/-! # Whole numbers in decimal

Numbers are written with the fewest digits.  A number is read from ASCII digits, leading zeros allowed,
after one optional sign; a minus only where negative numbers are in range. -/

/-- The number in decimal. -/
def ofNat (n : Nat) : List Char :=
  Nat.toDigits 10 n

/-- The number in decimal, with a minus when it is negative. -/
def ofInt (i : Int) : List Char :=
  if i < 0 then '-' :: ofNat i.natAbs else ofNat i.natAbs

/-- The number that a non-empty text of digits spells. -/
def digits? (text : List Char) : Option Nat :=
  if text ≠ [] ∧ text.all Char.isDigit then some (Nat.ofDigitChars 10 text 0) else none

/-- The number that a text spells, unless it is above `max`; one plus may stand in front. -/
def natUpTo? (max : Nat) (text : List Char) : Option Nat :=
  let digits := match text with
    | '+' :: rest => rest
    | _ => text
  (digits? digits).filter (· ≤ max)

/-- The number that a text spells, unless it is outside `min … max`; a sign may stand in front. -/
def intWithin? (min max : Int) (text : List Char) : Option Int :=
  let value := match text with
    | '+' :: rest => (digits? rest).map Int.ofNat
    | '-' :: rest => (digits? rest).map fun n => -(n : Int)
    | _ => (digits? text).map Int.ofNat
  value.filter fun i => min ≤ i ∧ i ≤ max

/-- Reads an unsigned 32-bit number. -/
def uint32? (text : List Char) : Option UInt32 :=
  (natUpTo? (UInt32.size - 1) text).map UInt32.ofNat

/-- Reads an unsigned 64-bit number. -/
def uint64? (text : List Char) : Option UInt64 :=
  (natUpTo? (UInt64.size - 1) text).map UInt64.ofNat

/-- Reads a signed 32-bit number. -/
def int32? (text : List Char) : Option Int32 :=
  (intWithin? Int32.minValue.toInt Int32.maxValue.toInt text).map Int32.ofInt

/-- Reads a signed 64-bit number. -/
def int64? (text : List Char) : Option Int64 :=
  (intWithin? Int64.minValue.toInt Int64.maxValue.toInt text).map Int64.ofInt

end LedgerTx.Decimal
