namespace LedgerTx.Blank

/-! # Blank characters

The characters with the property White_Space, and cutting them off the ends of a text. -/

/-- Whether a character has the property White_Space. -/
def isBlank (c : Char) : Bool :=
  let n := c.toNat
  (0x09 ≤ n && n ≤ 0x0D) || n == 0x20 || n == 0x85 || n == 0xA0 || n == 0x1680
    || (0x2000 ≤ n && n ≤ 0x200A) || n == 0x2028 || n == 0x2029 || n == 0x202F || n == 0x205F
    || n == 0x3000

/-- A text without the blanks at its front. -/
def trimLeft (text : List Char) : List Char :=
  text.dropWhile isBlank

/-- A text without the blanks at its end. -/
def trimRight (text : List Char) : List Char :=
  (text.reverse.dropWhile isBlank).reverse

/-- A text without the blanks at both ends. -/
def trim (text : List Char) : List Char :=
  trimRight (trimLeft text)

/-- Splits a text at its first blank, which stays with the second part. -/
def spanWord (text : List Char) : List Char × List Char :=
  text.span fun c => !isBlank c

end LedgerTx.Blank
