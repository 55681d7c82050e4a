import LedgerTx.Bytes.Utf8
import LedgerTx.Text.CharLiteral

namespace LedgerTx.Hex

/-! # Hexadecimal bytes

Two digits a byte.  Writing uses small letters; reading takes both cases. -/

/-- Why a text is not hexadecimal bytes; the index counts bytes of the text. -/
inductive Fault where
  | oddLength
  | badDigit (byte : UInt8) (index : Nat)
deriving DecidableEq

/-- What a fault is called in messages; a byte is shown as the character of that number. -/
def Fault.message : Fault → String
  | .oddLength => "Odd number of digits"
  | .badDigit byte index =>
    s!"Invalid character {CharLiteral.render (Char.ofNat byte.toNat)} at position {index}"

/-- The digit for a number below 16. -/
def digit (n : Nat) : Char :=
  if n < 10 then Char.ofNat (48 + n) else Char.ofNat (87 + n)

/-- The number that a digit's byte stands for. -/
def digitValue? (b : UInt8) : Option Nat :=
  if 48 ≤ b ∧ b ≤ 57 then some (b.toNat - 48)
  else if 97 ≤ b ∧ b ≤ 102 then some (b.toNat - 87)
  else if 65 ≤ b ∧ b ≤ 70 then some (b.toNat - 55)
  else none

/-- The bytes in hexadecimal. -/
def encode (bytes : List UInt8) : List Char :=
  bytes.flatMap fun b => [digit (b.toNat / 16), digit (b.toNat % 16)]

/-- The value of the digit at `index`. -/
def readDigit (index : Nat) (b : UInt8) : Except Fault Nat :=
  match digitValue? b with
  | some n => .ok n
  | none => .error (.badDigit b index)

/-- Reads pairs of digits, of which the first begins at `index`. -/
def decodePairs (index : Nat) : List UInt8 → Except Fault (List UInt8)
  | high :: low :: rest => do
    let h ← readDigit index high
    let l ← readDigit (index + 1) low
    let bytes ← decodePairs (index + 2) rest
    return UInt8.ofNat (h * 16 + l) :: bytes
  | _ => .ok []

/-- The bytes that a text spells; an odd length is noticed before any bad digit. -/
def decode (text : List Char) : Except Fault (List UInt8) :=
  let digits := Utf8.encode (String.ofList text)
  if digits.length % 2 = 1 then .error .oddLength else decodePairs 0 digits

end LedgerTx.Hex
