import LedgerTx.Proofs.Wire.Decoder
import LedgerTx.Transaction.Draft
import LedgerTx.Transaction.FeeBump

namespace LedgerTx

/-! # What is built

When a transaction is built from a draft, when a fee bump is built around a transaction, and what they
hold then. -/

/-- A transaction is built if the number of operations, the fee and the memo keep their limits. -/
theorem Draft.build_eq_ok {draft : Draft} {tx : Transaction} :
    draft.build = .ok tx ↔ draft.operations.length ≠ 0 ∧ draft.operations.length ≤ maxOperations
      ∧ minBaseFee ≤ draft.baseFee ∧ memoLength draft.memo ≤ Memo.maxText
      ∧ draft.baseFee.toNat * draft.operations.length < UInt32.size
      ∧ tx = {
        source := draft.source
        fee := UInt32.ofNat (draft.baseFee.toNat * draft.operations.length)
        sequence := draft.sequence
        preconditions := draft.preconditions
        memo := draft.memo
        operations := draft.operations
        sorobanData := draft.sorobanData } := by
  unfold build
  simp only [Except.guard_bind_eq_ok, Except.pure_eq_ok, Nat.not_lt, Nat.not_le, UInt32.not_lt, Ne]

/-- A fee bump is built if its fee keeps the rate of the transaction inside and is not below its fee. -/
theorem FeeBump.build_eq_ok {feeSource : MuxedAccount} {fee : Int64} {inner : Signed Transaction}
    {bump : FeeBump} :
    build feeSource fee inner = .ok bump ↔ inner.tx.operations.length ≠ 0
      ∧ (minimum inner.tx : Int) ≤ fee.toInt ∧ (inner.tx.fee.toNat : Int) ≤ fee.toInt
      ∧ bump = { feeSource, fee, inner, ext := .v0 } := by
  unfold build
  simp only [Except.guard_bind_eq_ok, Except.pure_eq_ok, Int.not_lt, Ne]

end LedgerTx
