import LedgerTx.Proofs.Asset
import LedgerTx.Proofs.Layout.Orderly
import LedgerTx.Signer.Basic

namespace LedgerTx

open Layout

/-! # Lines of accounts and assets in order

Single values stand on one line.  Of a record or a union, all that is left to check is that the names of
its parts are distinct, and that none of them is the mark of an option. -/

/-! ## Single values -/

namespace Layout.OrderlyAt

variable {κ : Type} [Enumeration κ]

theorem uint32 : Orderly Layout.uint32 Layout.uint32 :=
  .line .number

theorem uint64 : Orderly Layout.uint64 Layout.uint64 :=
  .line .number

theorem int32 : Orderly Layout.int32 Layout.int32 :=
  .line .number

theorem int64 : Orderly Layout.int64 Layout.int64 :=
  .line .number

theorem bool : Orderly Layout.bool Layout.bool :=
  .line .token

/-- Amounts and times are numbers, printed another way. -/
theorem amount : Orderly Layout.amount Layout.amount :=
  .line .number

theorem time : Orderly Layout.time Layout.time :=
  .line .number

theorem signedTime : Orderly Layout.signedTime Layout.signedTime :=
  .line .number

theorem fixed (n : Nat) : Orderly (Layout.fixed n) (Layout.fixed n) :=
  .line .token

theorem bytes (max : Nat) : Orderly (Layout.bytes max) (Layout.bytes max) :=
  .line .token

theorem text (max : Nat) : Orderly (Layout.text max) (Layout.text max) :=
  .line ⟨_, _, rfl⟩

theorem symbol (max : Nat) : Orderly (Layout.symbol max) (Layout.symbol max) :=
  .line ⟨_, _, rfl⟩

theorem version : Orderly (Layout.version κ) (Layout.version κ) :=
  .line ⟨_, _, rfl⟩

theorem constant : Orderly (Layout.constant κ) (Layout.constant κ) :=
  .line .named

/-- Names of a set that may grow. -/
theorem openConstant (title : String) (last : κ) :
    Orderly (Layout.openConstant title last) (Layout.openConstant title last) :=
  .line .named

theorem arms {τ : Type} {title : String} {constantOf : τ → κ} {arm? : κ → Option τ}
    {refuse : String → LineError} :
    Orderly (Layout.arms title constantOf arm? refuse) (Layout.arms title constantOf arm? refuse) :=
  .line .arms

end Layout.OrderlyAt

/-! ## Accounts -/

theorem AccountId.orderly : Orderly layout layout :=
  .line .parsed

theorem Layout.accountKey_orderly : Orderly accountKey accountKey :=
  .line .parsed

theorem MuxedAccount.orderly : Orderly layout layout :=
  .line .parsed

theorem SignerKey.orderly : Orderly layout layout :=
  .line .parsed

theorem AccountSigner.orderly : Orderly layout layout :=
  .record (.map (.field SignerKey.orderly (.under .uint32))) (by decide)

theorem DecoratedSignature.orderly : Orderly layout layout :=
  .record (.map (.field (.fixed 4) (.under (.bytes maxLength)))) (by decide)

/-! ## Assets -/

theorem AssetCode.orderly : Orderly layout layout :=
  .line ⟨_, _, rfl⟩

theorem Asset.orderly : Orderly layout layout :=
  .line ⟨_, _, rfl⟩

/-- The hash of a pool stands on the line of the asset itself, unlike the parts of a pool to be trusted. -/
theorem TrustLineAsset.orderly : Orderly layout layout :=
  .line ⟨_, _, rfl⟩

/-- The parts of the pool are below the name of its kind, beside the tag. -/
theorem PoolParameters.orderly : Orderly layout layout := by
  have hfields : Fields ["type", "constantProduct"] layout layout :=
    .map (.field .constant (.under (.record (.field Asset.orderly (.field Asset.orderly (.under .int32)))
      (by decide))))
  exact .record hfields (by decide)

/-- A pool has its tag where an asset would have its line, so the two never clash. -/
theorem ChangeTrustAsset.orderly : Orderly layout layout := by
  have hplain : Asset.form.Single := ⟨_, _, rfl⟩
  have hmark : Orderly (⟨.unit, poolShareMark⟩ : Layout Unit) ⟨.unit, poolShareMark⟩ := .line .arms
  have hpool : Orderly poolLayout poolLayout :=
    .record (.pair (.under hmark) (.under PoolParameters.orderly)) (by decide)
  exact .either hplain hpool

theorem Price.orderly : Orderly layout layout :=
  .record (.map (.field .int32 (.under .int32))) (by decide)

end LedgerTx
