import LedgerTx.Transaction.Envelope

namespace LedgerTx.FeeBump

/-! # Fee bumps

A fee bump counts as one operation more than it wraps, and must pay at least the rate of the wrapped
transaction for each. -/

/-- The fee for one operation of a transaction, rounded down. -/
def baseFee (tx : Transaction) : Nat :=
  tx.fee.toNat / tx.operations.length

/-- The lowest fee of a bump of a transaction, as far as the rate is concerned. -/
def minimum (tx : Transaction) : Nat :=
  (tx.operations.length + 1) * baseFee tx

/-- Wraps a signed transaction.  The fee must keep the rate, and must not be below the fee inside. -/
def build (feeSource : MuxedAccount) (fee : Int64) (inner : Signed Transaction) :
    Except ArgumentError FeeBump := do
  let tx := inner.tx
  let count := tx.operations.length
  if count = 0 then throw .innerWithoutOperations
  -- the rate is rounded down, so a fee at the rate may still be below the fee inside
  if fee.toInt < minimum tx then
    throw (.bumpBelowMinimum fee.toInt (minimum tx) count (baseFee tx))
  if fee.toInt < tx.fee.toNat then throw (.bumpBelowInner fee.toInt tx.fee)
  return { feeSource, fee, inner, ext := .v0 }

end LedgerTx.FeeBump
