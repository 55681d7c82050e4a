import LedgerTx.Proofs.Orderly.Operation
import LedgerTx.Transaction.Envelope

namespace LedgerTx

open Layout

/-! # Lines of transactions and envelopes in order -/

/-! ## Memos and preconditions -/

/-- Each kind of memo has one part, and no memo has none. -/
theorem Memo.orderly : Orderly layout layout := by
  refine .union .constant fun k => ?_
  cases k with
  | none => exact .unit
  | text => exact .under (.text _) (by decide)
  | id => exact .under .uint64 (by decide)
  | _ => exact .under (.fixed 32) (by decide)

theorem TimeBounds.orderly : Orderly layout layout :=
  .record (.map (.field .time (.under .time))) (by decide)

theorem LedgerBounds.orderly : Orderly layout layout :=
  .record (.map (.field .uint32 (.under .uint32))) (by decide)

theorem Conditions.orderly : Orderly layout layout := by
  have hfields : Fields ["timeBounds", "ledgerBounds", "minSeqNum", "minSeqAge", "minSeqLedgerGap",
      "extraSigners"] layout layout :=
    .map (.field (.option TimeBounds.orderly) (.field (.option LedgerBounds.orderly)
      (.field (.option .int64) (.field .uint64 (.field .uint32 (.under (.list SignerKey.orderly _)))))))
  exact .record hfields (by decide)

theorem Preconditions.orderly : Orderly layout layout := by
  refine .union .constant fun k => ?_
  cases k with
  | none => exact .unit
  | time => exact .under TimeBounds.orderly (by decide)
  | v2 => exact .under Conditions.orderly (by decide)

/-! ## Transactions -/

/-- A version number and the contract data stand where the fields of the transaction do. -/
theorem SorobanData.option_fields : Fields ["ext", "sorobanData"] optionLayout optionLayout := by
  refine .map (.sigma (.under (.under .version rfl)) fun k => ?_)
  cases k with
  | v0 => exact .sublist .unit (List.nil_sublist _)
  | v1 => exact .under SorobanData.orderly

/-- The contract data has its version beside the other fields, under a name of its own. -/
theorem Transaction.orderly : Orderly layout layout := by
  have hfields : Fields ["sourceAccount", "fee", "seqNum", "cond", "memo", "operations", "ext",
      "sorobanData"] layout layout :=
    .map (.field MuxedAccount.orderly (.field .uint32 (.field .int64 (.field Preconditions.orderly
      (.field Memo.orderly (.field (.list Operation.orderly _) SorobanData.option_fields))))))
  exact .record hfields (by decide)

theorem LegacyTransaction.orderly : Orderly layout layout := by
  have hfields : Fields ["sourceAccountEd25519", "fee", "seqNum", "timeBounds", "memo", "operations",
      "ext"] layout layout :=
    .map (.field accountKey_orderly (.field .uint32 (.field .int64 (.field (.option TimeBounds.orderly)
      (.field Memo.orderly (.field (.list Operation.orderly _) (.under Extension.orderly)))))))
  exact .record hfields (by decide)

/-! ## Envelopes -/

/-- What is signed and the signatures are two parts. -/
theorem Signed.fields {τ : Type} {tx : Layout τ} (h : Orderly tx tx) :
    Fields ["tx", "signatures"] (layout tx) (layout tx) :=
  .map (.field h (.under (.list DecoratedSignature.orderly _)))

theorem FeeBump.inner_orderly : Orderly innerLayout innerLayout := by
  have hfields : Fields ["type", "tx", "signatures"] innerLayout innerLayout :=
    .map (.field .arms (Signed.fields Transaction.orderly))
  exact .record hfields (by decide)

theorem FeeBump.orderly : Orderly layout layout :=
  .record (.map (.field MuxedAccount.orderly (.field .int64 (.field inner_orderly
    (.under Extension.orderly))))) (by decide)

/-- An envelope stands at the root, with its tag beside the transaction unless it pays another fee. -/
theorem Envelope.orderly : Orderly layout layout := by
  refine .union .arms fun k => ?_
  cases k with
  | legacy => exact ⟨_, Signed.fields LegacyTransaction.orderly, by decide⟩
  | transaction => exact ⟨_, Signed.fields Transaction.orderly, by decide⟩
  | feeBump =>
    exact .under (.record (Signed.fields FeeBump.orderly) (by decide)) (by decide)

end LedgerTx
