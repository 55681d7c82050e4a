import LedgerTx.Operation.Basic
import LedgerTx.Transaction.Envelope

namespace LedgerTx.Schema

/-! # The sets of constants

All sets of constants that stand on the wire, by their names. -/

/-- A set of constants, without the type that they make up. -/
structure ConstantSet where
  table : List Constant

namespace ConstantSet

/-- The constants of a type. -/
def of (κ : Type) [Enumeration κ] : ConstantSet :=
  ⟨Constant.table κ⟩

/-- The constant of a number. -/
def ofNumber? (set : ConstantSet) (number : Int32) : Option Constant :=
  set.table.find? fun constant => constant.number == number

/-- The constant of a name. -/
def ofName? (set : ConstantSet) (name : String) : Option Constant :=
  set.table.find? fun constant => constant.name == name

end ConstantSet

/-- The name of a type's set and the set. -/
def entry (κ : Type) [Enumeration κ] : String × ConstantSet :=
  (Enumeration.title κ, .of κ)

/-- The sets by their names. -/
def constantSets : List (String × ConstantSet) := [
  entry PublicKeyKind,
  entry KeyKind,
  entry AssetKind,
  entry PoolKind,
  entry MemoKind,
  entry PreconditionKind,
  entry EnvelopeKind,
  entry OperationKind,
  entry PredicateKind,
  entry ClaimantKind,
  entry RevokeKind,
  entry BalanceIdKind,
  entry LedgerKeyKind,
  entry Durability,
  entry BodyKind,
  entry Contract.ValueKind,
  entry Contract.ErrorKind,
  entry Contract.AddressKind,
  entry Contract.ExecutableKind,
  entry Contract.HostFunctionKind,
  entry Contract.IdSourceKind,
  entry Contract.FunctionKind,
  entry Contract.CredentialsKind]

/-- The set of a name. -/
def constantSet? (name : String) : Option ConstantSet :=
  constantSets.lookup name

end LedgerTx.Schema
