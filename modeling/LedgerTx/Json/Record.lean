import LedgerTx.Json.Value

namespace LedgerTx.Json

/-! # Records

A record stands in JSON as an object, where fields are found by name and others are ignored, or as an
array of exactly its fields in order. -/

variable {α β : Type}

/-- The fields of a record that are still to be read. -/
inductive Fields where
  | named (fields : List (String × Json))
  | listed (items : List Json)

namespace Fields

/-- The fields of a value that is a record. -/
def ofJson? : Json → Option Fields
  | .object fields => some (.named fields)
  | .array items => some (.listed items)
  | _ => none

/-- The value of the next field, which has the given name, if it is there, and the fields after it. -/
def next (name : String) : Fields → Option Json × Fields
  | .named fields => (fields.lookup name, .named fields)
  | .listed [] => (none, .listed [])
  | .listed (item :: items) => (some item, .listed items)

/-- Whether no field is left over. -/
def isDone : Fields → Bool
  | .named _ => true
  | .listed items => items.isEmpty

end Fields

/-- A reader of some fields of a record. -/
abbrev RecordReader (α : Type) := StateT Fields Option α

namespace RecordReader

/-- A field that must be there. -/
def field (name : String) (read : Json → Option α) : RecordReader α := fun fields =>
  match fields.next name with
  | (some value, rest) => (read value).map (·, rest)
  | (none, _) => none

/-- A field that has a default. -/
def fieldOr (default : α) (name : String) (read : Json → Option α) : RecordReader α := fun fields =>
  match fields.next name with
  | (some value, rest) => (read value).map (·, rest)
  | (none, rest) => some (default, rest)

/-- Reads all fields of a record. -/
def readAll (reader : RecordReader α) (fields : Fields) : Option α :=
  match reader fields with
  | some (a, rest) => if rest.isDone then some a else none
  | none => none

/-- Reads a value that is a record. -/
def ofJson? (reader : RecordReader α) (value : Json) : Option α :=
  (Fields.ofJson? value).bind reader.readAll

end RecordReader

end LedgerTx.Json
