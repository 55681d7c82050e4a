import LedgerTx.Bytes.Fixed
import LedgerTx.Bytes.Utf8

namespace LedgerTx

/-! # Reading from the front of a byte string

A decoder takes a value from the front of a byte string and hands back the bytes it did not use. -/

/-- Why bytes are not the wire form of a value. -/
inductive DecodeError where
  /-- Fewer bytes remain than the next field takes. -/
  | tooShort (needed remaining : Nat)
  /-- A truth value is neither 0 nor 1. -/
  | invalidBoolean (value : UInt32)
  /-- The flag before an optional value is neither 0 nor 1. -/
  | invalidPresence (value : UInt32)
  /-- A union or a set of constants has no member of that number. -/
  | unknownDiscriminant (typeName : String) (value : Int32)
  | invalidUtf8 (fault : Utf8.Fault)
  /-- The bytes that fill a field up to a multiple of four are not all zero. -/
  | nonZeroPadding
  /-- Bytes are left after a value that should fill the input. -/
  | trailingBytes (count : Nat)
  /-- A counted field is longer than it may be. -/
  | lengthExceeded (what : String) (max actual : Nat)
deriving DecidableEq

/-- The text of a decoding error. -/
def DecodeError.message : DecodeError → String
  | .tooShort needed remaining => s!"input too short: needed {needed} bytes, {remaining} remaining"
  | .invalidBoolean value => s!"invalid boolean value {value}"
  | .invalidPresence value => s!"invalid optional presence flag {value}"
  | .unknownDiscriminant typeName value => s!"unknown {typeName} discriminant {value}"
  | .invalidUtf8 fault => s!"invalid utf-8 in string: {fault.message}"
  | .nonZeroPadding => "non-zero padding bytes"
  | .trailingBytes count => s!"{count} trailing bytes after value"
  | .lengthExceeded what max actual => s!"{what} length {actual} exceeds maximum {max}"

/-- Why a decoder failed, and the bytes that it had not used by then. -/
structure Decoder.Failure where
  cause : DecodeError
  rest : List UInt8
deriving DecidableEq

/-- A reader of one value from the front of a byte string. -/
abbrev Decoder (α : Type) := List UInt8 → Except Decoder.Failure (α × List UInt8)

namespace Decoder

variable {α : Type}

/-- A failure before the given bytes. -/
def fail (cause : DecodeError) (rest : List UInt8) : Except Failure α :=
  .error ⟨cause, rest⟩

/-- Takes the next `n` bytes. -/
def take (n : Nat) : Decoder (List UInt8) := fun bytes =>
  let front := bytes.take n
  if front.length = n then .ok (front, bytes.drop n) else fail (.tooShort n bytes.length) bytes

/-- Takes the next `n` bytes as a byte string of that size. -/
def fixed (n : Nat) : Decoder (FixedBytes n) := fun bytes =>
  let front := bytes.take n
  if h : front.length = n then .ok (⟨front, h⟩, bytes.drop n)
  else fail (.tooShort n bytes.length) bytes

/-- Succeeds at the end of the input only. -/
def finish : List UInt8 → Except DecodeError Unit
  | [] => .ok ()
  | bytes => .error (.trailingBytes bytes.length)

/-- Reads a value that takes up the whole input. -/
def whole (decode : Decoder α) (bytes : List UInt8) : Except DecodeError α := do
  let (value, rest) ← (decode bytes).mapError Failure.cause
  finish rest
  return value

/-- Reads `count` values one after the other. -/
def repeated (decode : Decoder α) : (count : Nat) → Decoder (List α)
  | 0, bytes => .ok ([], bytes)
  | count + 1, bytes => do
    let (item, bytes) ← decode bytes
    let (items, bytes) ← repeated decode count bytes
    return (item :: items, bytes)

end Decoder

end LedgerTx
