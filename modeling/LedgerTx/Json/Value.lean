namespace LedgerTx

/-! # JSON values -/

/-- A JSON value.  A number that is not written as a whole number in the range of 64 bits is kept as it
is written. -/
inductive Json where
  | null
  | bool (b : Bool)
  | integer (i : Int)
  | fraction (text : List Char)
  | string (s : String)
  | array (items : List Json)
  | object (fields : List (String × Json))

namespace Json

variable {α : Type}

/-- A text as a value. -/
def asString? : Json → Option String
  | .string s => some s
  | _ => none

/-- A value that may be null. -/
def orNull (read : Json → Option α) : Json → Option (Option α)
  | .null => some none
  | value => (read value).map some

/-- An array of values of one type. -/
def asList? (read : Json → Option α) : Json → Option (List α)
  | .array items => items.mapM read
  | _ => none

/-- A value or null. -/
def ofOption (write : α → Json) : Option α → Json
  | none => .null
  | some a => write a

end Json

end LedgerTx
