import LedgerTx.Text.Decimal

namespace LedgerTx.Listing

/-! # Paths

A path names a field's full position in a value: `tx.operations[0].body.paymentOp.amount`. -/

/-- One step from a value into a part of it. -/
inductive Step where
  | field (name : String)
  | item (index : Nat)
deriving DecidableEq

/-- The steps from the whole value to a part, outermost first. -/
structure Path where
  steps : List Step
deriving DecidableEq

namespace Path

/-- The path of the whole value. -/
def root : Path := ⟨[]⟩

/-- The path of a named part. -/
def field (path : Path) (name : String) : Path :=
  ⟨path.steps ++ [.field name]⟩

/-- The path of an element. -/
def item (path : Path) (index : Nat) : Path :=
  ⟨path.steps ++ [.item index]⟩

/-- A step as it is written after another. -/
def stepText : Step → List Char
  | .field name => '.' :: name.toList
  | .item index => '[' :: Decimal.ofNat index ++ [']']

/-- A path as it is written; no point stands before the first name. -/
def text (path : Path) : List Char :=
  match path.steps with
  | .field name :: rest => name.toList ++ rest.flatMap stepText
  | steps => steps.flatMap stepText

end Path

end LedgerTx.Listing
