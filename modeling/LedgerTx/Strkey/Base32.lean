import LedgerTx.Bytes.Utf8

namespace LedgerTx.Base32

/-! # Base32

Five bits a symbol in the alphabet `A … Z 2 … 7`, without padding.  Bits pass through a word of 32 bits,
of which only the lowest `live` are still to be written; higher bits are stale. -/

/-- The symbol for a number below 32. -/
def symbol (n : Nat) : Char :=
  if n < 26 then Char.ofNat (65 + n) else Char.ofNat (24 + n)

/-- The number that a symbol's byte stands for. -/
def symbolValue? (b : UInt8) : Option Nat :=
  if 65 ≤ b ∧ b ≤ 90 then some (b.toNat - 65)
  else if 50 ≤ b ∧ b ≤ 55 then some (b.toNat - 24)
  else none

/-- Bits on their way from bytes to symbols or back. -/
structure Buffer where
  bits : UInt32
  /-- How many of the lowest bits are still to be written. -/
  live : Nat

namespace Buffer

/-- The buffer before any bits. -/
def empty : Buffer := ⟨0, 0⟩

/-- Shifts `width` bits in from the right. -/
def push (buffer : Buffer) (width : Nat) (value : UInt32) : Buffer :=
  ⟨(buffer.bits <<< UInt32.ofNat width) ||| value, buffer.live + width⟩

/-- The highest `width` live bits. -/
def front (buffer : Buffer) (width : Nat) : Nat :=
  (buffer.bits >>> UInt32.ofNat (buffer.live - width)).toNat % (1 <<< width)

/-- The buffer once its highest `width` live bits are written. -/
def pop (buffer : Buffer) (width : Nat) : Buffer :=
  ⟨buffer.bits, buffer.live - width⟩

/-- The live bits, moved up to fill `width` bits with zeros. -/
def padded (buffer : Buffer) (width : Nat) : Nat :=
  (buffer.bits <<< UInt32.ofNat (width - buffer.live)).toNat % (1 <<< width)

end Buffer

/-- Writes whole symbols as long as five bits are live. -/
def drain (buffer : Buffer) : List Char × Buffer :=
  if 5 ≤ buffer.live then
    -- a byte makes at most twelve bits live, so there are two symbols at most
    let (symbols, rest) := drain (buffer.pop 5)
    (symbol (buffer.front 5) :: symbols, rest)
  else
    ([], buffer)
termination_by buffer.live
decreasing_by simp [Buffer.pop]; omega

/-- The symbols for the live bits and the bytes after them. -/
def encodeFrom (buffer : Buffer) : List UInt8 → List Char
  -- what is left is filled up with zeros to one more symbol
  | [] => if 0 < buffer.live then [symbol (buffer.padded 5)] else []
  | b :: rest =>
    let (symbols, buffer) := drain (buffer.push 8 b.toUInt32)
    symbols ++ encodeFrom buffer rest

/-- The bytes in base32. -/
def encode (bytes : List UInt8) : List Char :=
  encodeFrom .empty bytes

/-- The bytes for the live bits and the symbols after them, or the first byte that is no symbol; bits
that fill no byte are dropped. -/
def decodeFrom (buffer : Buffer) : List UInt8 → Except UInt8 (List UInt8)
  | [] => .ok []
  | b :: rest =>
    match symbolValue? b with
    | none => .error b
    | some value =>
      let buffer := buffer.push 5 (UInt32.ofNat value)
      if 8 ≤ buffer.live then do
        let bytes ← decodeFrom (buffer.pop 8) rest
        return UInt8.ofNat (buffer.front 8) :: bytes
      else
        decodeFrom buffer rest

/-- The bytes that a text in base32 spells, or the first byte of the text that is no symbol. -/
def decode (text : List Char) : Except UInt8 (List UInt8) :=
  decodeFrom .empty (Utf8.encode (String.ofList text))

end LedgerTx.Base32
