import LedgerTx.Transaction.Envelope

namespace LedgerTx

/-! # Drafts

A draft says what a transaction shall hold and what each operation may cost.  The fee of the transaction
is the cost of one operation times their number. -/

/-- The lowest fee for one operation. -/
def minBaseFee : UInt32 := 100

/-- A transaction to be. -/
structure Draft where
  source : MuxedAccount
  sequence : Int64
  baseFee : UInt32 := minBaseFee
  memo : Memo := .none
  preconditions : Preconditions := .none
  operations : List Operation := []
  sorobanData : Option SorobanData := none

namespace Draft

/-- The length of a memo's text, in bytes. -/
def memoLength : Memo → Nat
  | .text s => (Utf8.encode s).length
  | _ => 0

/-- The transaction of a draft. -/
def build (draft : Draft) : Except ArgumentError Transaction := do
  -- of several faults the first in this order is reported
  let count := draft.operations.length
  if count = 0 then throw .noOperations
  if maxOperations < count then throw (.tooManyOperations maxOperations count)
  if draft.baseFee < minBaseFee then throw (.baseFeeTooLow minBaseFee draft.baseFee)
  let length := memoLength draft.memo
  if Memo.maxText < length then throw (.memoTooLong Memo.maxText length)
  let fee := draft.baseFee.toNat * count
  if UInt32.size ≤ fee then throw .feeOverflow
  return {
    source := draft.source
    fee := UInt32.ofNat fee
    sequence := draft.sequence
    preconditions := draft.preconditions
    memo := draft.memo
    operations := draft.operations
    sorobanData := draft.sorobanData }

end Draft

end LedgerTx
