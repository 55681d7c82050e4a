namespace LedgerTx.Quoted

/-! # Quoted strings

Text between double quotes with backslash escapes, as JSON has it.  Written text escapes quotes,
backslashes and control characters only; reading takes every JSON escape and refuses raw control
characters and halves of surrogate pairs. -/

/-- The number of a hexadecimal digit. -/
def hexValue? (c : Char) : Option Nat :=
  if '0' ≤ c ∧ c ≤ '9' then some (c.toNat - 48)
  else if 'a' ≤ c ∧ c ≤ 'f' then some (c.toNat - 87)
  else if 'A' ≤ c ∧ c ≤ 'F' then some (c.toNat - 55)
  else none

/-- The number that four hexadecimal digits spell. -/
def unit? (a b c d : Char) : Option Nat := do
  return (((← hexValue? a) * 16 + (← hexValue? b)) * 16 + (← hexValue? c)) * 16 + (← hexValue? d)

/-- A digit below 16, in small letters. -/
def hexDigit (n : Nat) : Char :=
  if n < 10 then Char.ofNat (48 + n) else Char.ofNat (87 + n)

/-- How one character is written inside quotes. -/
def escape (c : Char) : List Char :=
  if c = '"' then ['\\', '"']
  else if c = '\\' then ['\\', '\\']
  else if c = '\x08' then ['\\', 'b']
  else if c = '\x0c' then ['\\', 'f']
  else if c = '\n' then ['\\', 'n']
  else if c = '\r' then ['\\', 'r']
  else if c = '\t' then ['\\', 't']
  else if c.toNat < 0x20 then
    ['\\', 'u', '0', '0', hexDigit (c.toNat / 16), hexDigit (c.toNat % 16)]
  else [c]

/-- The text in double quotes. -/
def encode (text : List Char) : List Char :=
  '"' :: text.flatMap escape ++ ['"']

/-- The character that a single letter after a backslash stands for. -/
def simpleEscape? (c : Char) : Option Char :=
  if c = '"' ∨ c = '\\' ∨ c = '/' then some c
  else if c = 'b' then some '\x08'
  else if c = 'f' then some '\x0c'
  else if c = 'n' then some '\n'
  else if c = 'r' then some '\r'
  else if c = 't' then some '\t'
  else none

/-- Reads what follows the opening quote; nothing may stand after the closing one. -/
def decodeBody : List Char → Option (List Char)
  | [] => none
  | '"' :: rest => if rest.isEmpty then some [] else none
  | '\\' :: 'u' :: a :: b :: c :: d :: '\\' :: 'u' :: e :: f :: g :: h :: rest => do
    let high ← unit? a b c d
    -- the first half of a pair must be followed by the second
    if 0xD800 ≤ high ∧ high < 0xDC00 then
      let low ← unit? e f g h
      if 0xDC00 ≤ low ∧ low < 0xE000 then
        let tail ← decodeBody rest
        return Char.ofNat (0x10000 + (high - 0xD800) * 0x400 + (low - 0xDC00)) :: tail
      else none
    else if 0xDC00 ≤ high ∧ high < 0xE000 then none
    -- no half at all, so the second escape stands for itself
    else
      let tail ← decodeBody ('\\' :: 'u' :: e :: f :: g :: h :: rest)
      return Char.ofNat high :: tail
  | '\\' :: 'u' :: a :: b :: c :: d :: rest => do
    let code ← unit? a b c d
    if 0xD800 ≤ code ∧ code < 0xE000 then none
    else
      let tail ← decodeBody rest
      return Char.ofNat code :: tail
  | '\\' :: c :: rest => do
    let char ← simpleEscape? c
    let tail ← decodeBody rest
    return char :: tail
  | c :: rest =>
    if c = '\\' ∨ c.toNat < 0x20 then none
    else do
      let tail ← decodeBody rest
      return c :: tail

/-- The text that a string in double quotes stands for. -/
def decode : List Char → Option (List Char)
  | '"' :: body => decodeBody body
  | _ => none

/-- Splits a text after the closing quote; an escaped quote closes nothing. -/
def spanBody : List Char → List Char × List Char
  | [] => ([], [])
  | '"' :: rest => (['"'], rest)
  | '\\' :: c :: rest => let (body, after) := spanBody rest; ('\\' :: c :: body, after)
  | c :: rest => let (body, after) := spanBody rest; (c :: body, after)

end LedgerTx.Quoted
