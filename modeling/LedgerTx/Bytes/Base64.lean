import LedgerTx.Bytes.Utf8

namespace LedgerTx.Base64

/-! # Base64

Three bytes in four symbols, the last group filled up with `=`.  Reading asks for the padding and refuses
bits that no byte holds, so that each byte string has one text. -/

/-- Why a text is not base64; indices count bytes of the text. -/
inductive Fault where
  | badSymbol (byte : UInt8) (index : Nat)
  | badLength (length : Nat)
  | badPadding
  /-- The last symbol carries bits beyond the last byte. -/
  | badLastSymbol (byte : UInt8) (index : Nat)
deriving DecidableEq

/-- What a fault is called in messages. -/
def Fault.message : Fault → String
  | .badSymbol byte index => s!"Invalid symbol {byte}, offset {index}."
  | .badLength length => s!"Invalid input length: {length}"
  | .badPadding => "Invalid padding"
  | .badLastSymbol byte index => s!"Invalid last symbol {byte}, offset {index}."

/-- The symbol for a number below 64. -/
def symbol (n : Nat) : Char :=
  if n < 26 then Char.ofNat (65 + n)
  else if n < 52 then Char.ofNat (71 + n)
  else if n < 62 then Char.ofNat (n - 4)
  else if n = 62 then '+'
  else '/'

/-- The number that a symbol's byte stands for. -/
def symbolValue? (b : UInt8) : Option Nat :=
  if 65 ≤ b ∧ b ≤ 90 then some (b.toNat - 65)
  else if 97 ≤ b ∧ b ≤ 122 then some (b.toNat - 71)
  else if 48 ≤ b ∧ b ≤ 57 then some (b.toNat + 4)
  else if b = 43 then some 62
  else if b = 47 then some 63
  else none

/-- The byte of the padding character. -/
def pad : UInt8 := 61

/-- The bytes in base64. -/
def encode : List UInt8 → List Char
  | a :: b :: c :: rest =>
    let n := (a.toNat * 256 + b.toNat) * 256 + c.toNat
    symbol (n / 262144) :: symbol (n / 4096 % 64) :: symbol (n / 64 % 64) :: symbol (n % 64)
      :: encode rest
  | [a, b] =>
    let n := (a.toNat * 256 + b.toNat) * 4
    [symbol (n / 4096), symbol (n / 64 % 64), symbol (n % 64), '=']
  | [a] =>
    let n := a.toNat * 16
    [symbol (n / 64), symbol (n % 64), '=', '=']
  | [] => []

/-- The value of the symbol at `index`. -/
def readSymbol (index : Nat) (b : UInt8) : Except Fault Nat :=
  match symbolValue? b with
  | some n => .ok n
  | none => .error (.badSymbol b index)

/-- A last group as it is read from left to right. -/
structure Group where
  /-- The symbols so far, each with its byte, last symbol first. -/
  symbols : List (UInt8 × Nat)
  /-- Where the padding begins. -/
  padStart : Option Nat
  padCount : Nat

/-- Takes up the byte at `index`, which is the `place`-th of the last group. -/
def Group.push (group : Group) (place index : Nat) (b : UInt8) : Except Fault Group :=
  if b = pad then
    if place < 2 then .error (.badSymbol pad index)
    else .ok { group with padStart := group.padStart.or (some index), padCount := group.padCount + 1 }
  else
    match group.padStart with
    | some start => .error (.badSymbol pad start)
    | none => do
      let n ← readSymbol index b
      return { group with symbols := (b, n) :: group.symbols }

/-- Takes up the bytes of the last group from its `place`-th on. -/
def Group.read (group : Group) (start place : Nat) : List UInt8 → Except Fault Group
  | [] => .ok group
  | b :: rest => do
    let group ← group.push place (start + place) b
    group.read start (place + 1) rest

/-- The bytes of the last group, which begins at `start`. -/
def Group.toBytes (group : Group) (start : Nat) : Except Fault (List UInt8) :=
  let symbolCount := group.symbols.length
  if symbolCount < 2 then .error (.badLength (start + symbolCount))
  else if (symbolCount + group.padCount) % 4 ≠ 0 then .error .badPadding
  else
    match group.symbols.reverse with
    -- bits that no byte holds must be zero
    | [(_, a), (last, b)] =>
      if b % 16 ≠ 0 then .error (.badLastSymbol last (start + 1))
      else .ok [UInt8.ofNat (a * 4 + b / 16)]
    | [(_, a), (_, b), (last, c)] =>
      if c % 4 ≠ 0 then .error (.badLastSymbol last (start + 2))
      else .ok [UInt8.ofNat (a * 4 + b / 16), UInt8.ofNat (b * 16 + c / 4)]
    | [(_, a), (_, b), (_, c), (_, d)] =>
      .ok [UInt8.ofNat (a * 4 + b / 16), UInt8.ofNat (b * 16 + c / 4), UInt8.ofNat (c * 64 + d)]
    | _ => .ok []

/-- Reads groups from the one that begins at `start` on; only the last may be padded or short. -/
def decodeGroups (start : Nat) : List UInt8 → Except Fault (List UInt8)
  | a :: b :: c :: d :: e :: rest => do
    let a ← readSymbol start a
    let b ← readSymbol (start + 1) b
    let c ← readSymbol (start + 2) c
    let d ← readSymbol (start + 3) d
    let bytes ← decodeGroups (start + 4) (e :: rest)
    return UInt8.ofNat (a * 4 + b / 16) :: UInt8.ofNat (b * 16 + c / 4) :: UInt8.ofNat (c * 64 + d)
      :: bytes
  | last => do
    let group ← Group.read ⟨[], none, 0⟩ start 0 last
    group.toBytes start

/-- The bytes that a text in base64 spells.  A single stray byte at the end is noticed first. -/
def decodeBytes (text : List UInt8) : Except Fault (List UInt8) :=
  match text.getLast? with
  | none => .ok []
  | some last =>
    if text.length % 4 = 1 ∧ last ≠ pad ∧ symbolValue? last = none then
      .error (.badSymbol last (text.length - 1))
    else
      decodeGroups 0 text

/-- The bytes that a text in base64 spells. -/
def decode (text : List Char) : Except Fault (List UInt8) :=
  decodeBytes (Utf8.encode (String.ofList text))

end LedgerTx.Base64
