namespace LedgerTx.CharLiteral

/-! # Characters in single quotes

How messages show a character of the first 256: as itself where it is visible, else by an escape. -/

/-- Characters below 256 that have no visible shape: controls, the no-break space, the soft hyphen. -/
def isInvisible (c : Char) : Bool :=
  c.toNat < 0x20 || (0x7F ≤ c.toNat && c.toNat ≤ 0xA0) || c.toNat == 0xAD

/-- The character itself, or its escape. -/
def escape (c : Char) : List Char :=
  if c = '\x00' then ['\\', '0']
  else if c = '\t' then ['\\', 't']
  else if c = '\n' then ['\\', 'n']
  else if c = '\r' then ['\\', 'r']
  else if c = '\'' then ['\\', '\'']
  else if c = '\\' then ['\\', '\\']
  else if isInvisible c then ['\\', 'u', '{'] ++ Nat.toDigits 16 c.toNat ++ ['}']
  else [c]

/-- The character between single quotes. -/
def render (c : Char) : String :=
  String.ofList ('\'' :: escape c ++ ['\''])

end LedgerTx.CharLiteral
