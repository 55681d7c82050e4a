namespace LedgerTx

/-! # Closed sets of named constants

Each constant has a number, which stands for it on the wire, and a name, which stands for it in text. -/

/-- A type whose members are numbered and named constants. -/
class Enumeration (κ : Type) where
  /-- What error texts call the set. -/
  title : String
  /-- The constants, in order of declaration. -/
  all : List κ
  /-- The number of a constant. -/
  number : κ → Int32
  /-- The name of a constant. -/
  name : κ → String

namespace Enumeration

variable {κ : Type} [Enumeration κ]

/-- The constant of a number. -/
def ofNumber? (value : Int32) : Option κ :=
  all.find? fun k => number k == value

/-- The constant of a name. -/
def ofName? (text : String) : Option κ :=
  all.find? fun k => name k == text

end Enumeration

/-- A number and a name, without the set that they belong to. -/
structure Constant where
  number : Int32
  name : String
deriving DecidableEq

/-- The number and the name of a constant. -/
def Constant.of {κ : Type} [Enumeration κ] (k : κ) : Constant :=
  ⟨Enumeration.number k, Enumeration.name k⟩

/-- The numbers and names of a whole set, in order of declaration. -/
def Constant.table (κ : Type) [Enumeration κ] : List Constant :=
  (Enumeration.all : List κ).map .of

end LedgerTx
