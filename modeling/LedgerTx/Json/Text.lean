import LedgerTx.Bytes.BigEndian
import LedgerTx.Bytes.Hex
import LedgerTx.Json.Value
import LedgerTx.Text.Decimal
import LedgerTx.Text.Quoted

namespace LedgerTx.Json

/-! # JSON text

A text is read strictly.  It is written in ASCII, other characters as escapes of their UTF-16 units. -/

/-! ## Reading -/

/-- A text without the blanks at its front. -/
def skipBlanks (text : List Char) : List Char :=
  text.dropWhile fun c => c == ' ' || c == '\n' || c == '\r' || c == '\t'

/-- Whether a character may stand in a number. -/
def isNumberChar (c : Char) : Bool :=
  c.isDigit || c == '-' || c == '+' || c == '.' || c == 'e' || c == 'E'

/-- The number of a text; `-0` is no whole number. -/
def numberOf (text : List Char) : Json :=
  match Decimal.intWithin? Int64.minValue.toInt (UInt64.size - 1) text with
  | some i => if i = 0 ∧ text.head? = some '-' then .fraction text else .integer i
  | none => .fraction text

/-- The string at the front of a text, of which the opening quote is read. -/
def readString? (text : List Char) : Option (String × List Char) := do
  let (body, rest) := Quoted.spanBody text
  let s ← Quoted.decode ('"' :: body)
  return (String.ofList s, rest)

/-- A list of fields in which no name stands twice: of fields with one name the last is kept. -/
def lastOfEach : List (String × Json) → List (String × Json)
  | [] => []
  | field :: fields =>
    let rest := lastOfEach fields
    -- a later field of that name hides this one
    if rest.any fun other => other.1 == field.1 then rest else field :: rest

mutual

/-- The value at the front of a text. -/
def readValue? : (fuel : Nat) → List Char → Option (Json × List Char)
  | 0, _ => none
  | fuel + 1, text =>
    match skipBlanks text with
    | '"' :: rest => (readString? rest).map fun (s, rest) => (.string s, rest)
    | '[' :: rest =>
      match skipBlanks rest with
      | ']' :: rest => some (.array [], rest)
      | rest => (readItems? fuel rest).map fun (items, rest) => (.array items, rest)
    | '\x7b' :: rest =>
      match skipBlanks rest with
      | '\x7d' :: rest => some (.object [], rest)
      | rest => (readFields? fuel rest).map fun (fields, rest) => (.object (lastOfEach fields), rest)
    | 't' :: 'r' :: 'u' :: 'e' :: rest => some (.bool true, rest)
    | 'f' :: 'a' :: 'l' :: 's' :: 'e' :: rest => some (.bool false, rest)
    | 'n' :: 'u' :: 'l' :: 'l' :: rest => some (.null, rest)
    | rest =>
      let (number, rest) := rest.span isNumberChar
      if number.isEmpty then none else some (numberOf number, rest)

/-- The items of an array up to its end. -/
def readItems? : (fuel : Nat) → List Char → Option (List Json × List Char)
  | 0, _ => none
  | fuel + 1, text => do
    let (item, rest) ← readValue? fuel text
    match skipBlanks rest with
    | ',' :: rest => do
      let (items, rest) ← readItems? fuel rest
      return (item :: items, rest)
    | ']' :: rest => return ([item], rest)
    | _ => none

/-- The fields of an object up to its end. -/
def readFields? : (fuel : Nat) → List Char → Option (List (String × Json) × List Char)
  | 0, _ => none
  | fuel + 1, text => do
    let '"' :: rest := skipBlanks text | none
    let (name, rest) ← readString? rest
    let ':' :: rest := skipBlanks rest | none
    let (value, rest) ← readValue? fuel rest
    match skipBlanks rest with
    | ',' :: rest => do
      let (fields, rest) ← readFields? fuel rest
      return ((name, value) :: fields, rest)
    | '\x7d' :: rest => return ([(name, value)], rest)
    | _ => none

end

/-- The value that a text spells.  Each character is the first of at most two values or lists. -/
def ofText? (text : String) : Option Json := do
  let chars := text.toList
  let (value, rest) ← readValue? (2 * chars.length + 2) chars
  if (skipBlanks rest).isEmpty then some value else none

/-! ## Writing -/

/-- A UTF-16 unit as an escape. -/
def unitText (n : Nat) : List Char :=
  '\\' :: 'u' :: Hex.encode (BigEndian.ofNat 2 n)

/-- A character inside quotes. -/
def charText (c : Char) : List Char :=
  let n := c.toNat
  if n < 0x7F then Quoted.escape c
  else if n < 0x10000 then unitText n
  -- a pair of surrogates
  else unitText (0xD800 + (n - 0x10000) / 0x400) ++ unitText (0xDC00 + (n - 0x10000) % 0x400)

/-- A string in quotes. -/
def stringText (s : String) : List Char :=
  '"' :: s.toList.flatMap charText ++ ['"']

mutual

/-- The text of a value. -/
def text : Json → List Char
  | .null => ['n', 'u', 'l', 'l']
  | .bool true => ['t', 'r', 'u', 'e']
  | .bool false => ['f', 'a', 'l', 's', 'e']
  | .integer i => Decimal.ofInt i
  | .fraction number => number
  | .string s => stringText s
  | .array items => '[' :: itemsText items
  | .object fields => '\x7b' :: fieldsText fields

/-- The text of items up to the end of their array. -/
def itemsText : List Json → List Char
  | [] => [']']
  | [item] => item.text ++ [']']
  | item :: items => item.text ++ ',' :: itemsText items

/-- The text of fields up to the end of their object. -/
def fieldsText : List (String × Json) → List Char
  | [] => ['\x7d']
  | [(name, value)] => stringText name ++ ':' :: value.text ++ ['\x7d']
  | (name, value) :: fields => stringText name ++ ':' :: value.text ++ ',' :: fieldsText fields

end

end LedgerTx.Json
