import LedgerTx.Contract.Resources
import LedgerTx.Operation.Basic
import LedgerTx.Transaction.Memo
import LedgerTx.Transaction.Preconditions

namespace LedgerTx

/-! # Transactions

A transaction is a list of operations that are applied together or not at all.  The legacy form differs
in three fields, each of which stands on the wire as some value of the current field does. -/

/-- The most operations in one transaction. -/
def maxOperations : Nat := 100

/-! ## Contract data -/

/-- The versions of what follows the operations of a transaction. -/
inductive TransactionVersion where
  | v0
  | v1
deriving DecidableEq

instance : Enumeration TransactionVersion where
  title := "TransactionExt"
  all := [.v0, .v1]
  number
    | .v0 => 0
    | .v1 => 1
  name
    | .v0 => "0"
    | .v1 => "1"

/-- What a transaction of some version holds after its operations. -/
def TransactionVersion.Payload : TransactionVersion → Type
  | .v0 => Unit
  | .v1 => SorobanData

/-- Contract data as the version that has it and the data. -/
def SorobanData.optionView : Bijection (Option SorobanData) (Sigma TransactionVersion.Payload) where
  forth
    | none => ⟨.v0, ()⟩
    | some data => ⟨.v1, data⟩
  back
    | ⟨.v0, ()⟩ => none
    | ⟨.v1, data⟩ => some data
  back_forth d := by cases d <;> rfl
  forth_back := fun ⟨k, b⟩ => by cases k <;> rfl

/-- The version and, in the first, the data. -/
def SorobanData.optionLayout : Layout (Option SorobanData) :=
  .map optionView <| .sigma (.under "ext" (.under "v" (.version TransactionVersion))) fun
    | .v0 => .unit
    | .v1 => .under "sorobanData" SorobanData.layout

/-! ## The current form -/

/-- A transaction without its signatures. -/
structure Transaction where
  source : MuxedAccount
  fee : UInt32
  sequence : Int64
  preconditions : Preconditions
  memo : Memo
  operations : List Operation
  sorobanData : Option SorobanData

namespace Transaction

/-- The source, fee and sequence number, when and why it is applied, the operations, and contract data. -/
def layout : Layout Transaction :=
  .map ⟨fun t => (t.source, t.fee, t.sequence, t.preconditions, t.memo, t.operations, t.sorobanData),
    fun v => ⟨v.1, v.2.1, v.2.2.1, v.2.2.2.1, v.2.2.2.2.1, v.2.2.2.2.2.1, v.2.2.2.2.2.2⟩,
    fun _ => rfl, fun _ => rfl⟩ <|
    .field "sourceAccount" MuxedAccount.layout <|
    .field "fee" .uint32 <|
    .field "seqNum" .int64 <|
    .field "cond" Preconditions.layout <|
    .field "memo" Memo.layout <|
    .field "operations" (.list maxOperations Operation.layout) <|
    SorobanData.optionLayout

end Transaction

/-! ## The legacy form -/

/-- A transaction of the legacy form: its source is a bare key, it knows time bounds only, and it runs no
contracts. -/
structure LegacyTransaction where
  sourceKey : Bytes32
  fee : UInt32
  sequence : Int64
  timeBounds : Option TimeBounds
  memo : Memo
  operations : List Operation
  ext : Extension

namespace LegacyTransaction

/-- The same transaction in the current form. -/
def toTransaction (legacy : LegacyTransaction) : Transaction where
  source := .plain legacy.sourceKey
  fee := legacy.fee
  sequence := legacy.sequence
  preconditions := .ofTimeBounds legacy.timeBounds
  memo := legacy.memo
  operations := legacy.operations
  sorobanData := none

/-- The fields of the current form, with the three that differ. -/
def layout : Layout LegacyTransaction :=
  .map ⟨fun t => (t.sourceKey, t.fee, t.sequence, t.timeBounds, t.memo, t.operations, t.ext),
    fun v => ⟨v.1, v.2.1, v.2.2.1, v.2.2.2.1, v.2.2.2.2.1, v.2.2.2.2.2.1, v.2.2.2.2.2.2⟩,
    fun _ => rfl, fun _ => rfl⟩ <|
    .field "sourceAccountEd25519" .accountKey <|
    .field "fee" .uint32 <|
    .field "seqNum" .int64 <|
    .field "timeBounds" (.option TimeBounds.layout) <|
    .field "memo" Memo.layout <|
    .field "operations" (.list maxOperations Operation.layout) <|
    .under "ext" Extension.layout

end LegacyTransaction

end LedgerTx
