import LedgerTx.Operation.Basic
import LedgerTx.Proofs.Orderly.Contract

namespace LedgerTx

open Layout

/-! # Lines of operations in order -/

/-! ## Conditions of claims -/

namespace Predicate

/-- The conditions below a condition stand in parts of it, each beside the mark of an option at most. -/
theorem step_orderly {first second : Layout Predicate} (h : Orderly first second) :
    Orderly (step first) (step second) := by
  refine .union .constant fun k => ?_
  cases k with
  | unconditional => exact .unit
  | and => exact .under (.list h _) (by decide)
  | or => exact .under (.list h _) (by decide)
  | not => exact .under (.option h) (by decide)
  | beforeAbsoluteTime => exact .under .signedTime (by decide)
  | beforeRelativeTime => exact .under .int64 (by decide)

/-- By levels, the lines of every condition are in order, with a limit to the levels. -/
theorem orderly : Orderly layout layout :=
  .recursiveUpTo step_orderly maxLevels .nestedTooDeeply depth

end Predicate

/-- The account and the condition are below the name of the version, beside the tag. -/
theorem Claimant.orderly : Orderly layout layout := by
  have hfields : Fields ["type", "v0"] layout layout :=
    .map (.field .constant (.under (.record (.field AccountId.orderly (.under Predicate.orderly))
      (by decide))))
  exact .record hfields (by decide)

/-! ## Bodies -/

/-- Most operations are records of single values with names of their own. -/
theorem CreateAccount.orderly : Orderly layout layout :=
  .record (.map (.field AccountId.orderly (.under .amount))) (by decide)

/-- All nine options may be missing, and each has its own mark below its name. -/
theorem SetOptions.orderly : Orderly layout layout := by
  have hfields : Fields ["inflationDest", "clearFlags", "setFlags", "masterWeight", "lowThreshold",
      "medThreshold", "highThreshold", "homeDomain", "signer"] layout layout :=
    .map (.field (.option AccountId.orderly) (.field (.option .uint32) (.field (.option .uint32)
      (.field (.option .uint32) (.field (.option .uint32) (.field (.option .uint32)
        (.field (.option .uint32) (.field (.option (.text _)) (.under (.option AccountSigner.orderly))))))))))
  exact .record hfields (by decide)

theorem ManageData.orderly : Orderly layout layout :=
  .record (.map (.field (.text _) (.under (.option (.bytes _))))) (by decide)

theorem BumpSequence.orderly : Orderly layout layout :=
  .record (.map (.under .int64)) (by decide)

theorem Payment.orderly : Orderly layout layout :=
  .record (.map (.field MuxedAccount.orderly (.field Asset.orderly (.under .amount)))) (by decide)

/-- The assets between stand in a list at the end. -/
theorem PathPaymentReceive.orderly : Orderly layout layout := by
  have hfields : Fields ["sendAsset", "sendMax", "destination", "destAsset", "destAmount", "path"]
      layout layout :=
    .map (.field Asset.orderly (.field .amount (.field MuxedAccount.orderly (.field Asset.orderly
      (.field .amount (.under (.list Asset.orderly _)))))))
  exact .record hfields (by decide)

/-- The same order of parts, with other names for the amounts. -/
theorem PathPaymentSend.orderly : Orderly layout layout := by
  have hfields : Fields ["sendAsset", "sendAmount", "destination", "destAsset", "destMin", "path"]
      layout layout :=
    .map (.field Asset.orderly (.field .amount (.field MuxedAccount.orderly (.field Asset.orderly
      (.field .amount (.under (.list Asset.orderly _)))))))
  exact .record hfields (by decide)

theorem CreateClaimableBalance.orderly : Orderly layout layout :=
  .record (.map (.field Asset.orderly (.field .amount (.under (.list Claimant.orderly _))))) (by decide)

theorem ClaimClaimableBalance.orderly : Orderly layout layout :=
  .record (.map (.under BalanceId.orderly)) (by decide)

/-- The numbers of the price stand below its name. -/
theorem ManageSellOffer.orderly : Orderly layout layout :=
  .record (.map (.field Asset.orderly (.field Asset.orderly (.field .amount (.field Price.orderly
    (.under .int64)))))) (by decide)

theorem ManageBuyOffer.orderly : Orderly layout layout :=
  .record (.map (.field Asset.orderly (.field Asset.orderly (.field .amount (.field Price.orderly
    (.under .int64)))))) (by decide)

theorem CreatePassiveOffer.orderly : Orderly layout layout :=
  .record (.map (.field Asset.orderly (.field Asset.orderly (.field .amount (.under Price.orderly)))))
    (by decide)

theorem PoolDeposit.orderly : Orderly layout layout :=
  .record (.map (.field (.fixed 32) (.field .amount (.field .amount (.field Price.orderly
    (.under Price.orderly)))))) (by decide)

theorem PoolWithdraw.orderly : Orderly layout layout :=
  .record (.map (.field (.fixed 32) (.field .amount (.field .amount (.under .amount))))) (by decide)

theorem ChangeTrust.orderly : Orderly layout layout :=
  .record (.map (.field ChangeTrustAsset.orderly (.under .amount))) (by decide)

theorem AllowTrust.orderly : Orderly layout layout :=
  .record (.map (.field AccountId.orderly (.field AssetCode.orderly (.under .uint32)))) (by decide)

theorem SetTrustLineFlags.orderly : Orderly layout layout :=
  .record (.map (.field AccountId.orderly (.field Asset.orderly (.field .uint32 (.under .uint32)))))
    (by decide)

theorem Clawback.orderly : Orderly layout layout :=
  .record (.map (.field Asset.orderly (.field MuxedAccount.orderly (.under .amount)))) (by decide)

theorem ClawbackClaimableBalance.orderly : Orderly layout layout :=
  .record (.map (.under BalanceId.orderly)) (by decide)

theorem BeginSponsoring.orderly : Orderly layout layout :=
  .record (.map (.under AccountId.orderly)) (by decide)

theorem RevokeSponsorship.orderly : Orderly layout layout := by
  refine .union .constant fun k => ?_
  cases k with
  | ledgerEntry => exact .under LedgerKey.orderly (by decide)
  | signer =>
    exact .under (.record (.field AccountId.orderly (.under SignerKey.orderly)) (by decide)) (by decide)

theorem BumpFootprintExpiration.orderly : Orderly layout layout :=
  .record (.map (.field Extension.orderly (.under .uint32))) (by decide)

theorem RestoreFootprint.orderly : Orderly layout layout :=
  .record (.map (.under Extension.orderly)) (by decide)

/-- Each kind of operation has a part of its own beside the tag, if it has any. -/
theorem OperationBody.orderly : Orderly layout layout := by
  refine .union .constant fun k => ?_
  cases k with
  | createAccount => exact .under CreateAccount.orderly (by decide)
  | payment => exact .under Payment.orderly (by decide)
  | pathPaymentReceive => exact .under PathPaymentReceive.orderly (by decide)
  | manageSellOffer => exact .under ManageSellOffer.orderly (by decide)
  | createPassiveOffer => exact .under CreatePassiveOffer.orderly (by decide)
  | setOptions => exact .under SetOptions.orderly (by decide)
  | changeTrust => exact .under ChangeTrust.orderly (by decide)
  | allowTrust => exact .under AllowTrust.orderly (by decide)
  | accountMerge => exact .under MuxedAccount.orderly (by decide)
  | inflation | endSponsoring => exact .unit
  | manageData => exact .under ManageData.orderly (by decide)
  | bumpSequence => exact .under BumpSequence.orderly (by decide)
  | manageBuyOffer => exact .under ManageBuyOffer.orderly (by decide)
  | pathPaymentSend => exact .under PathPaymentSend.orderly (by decide)
  | createClaimableBalance => exact .under CreateClaimableBalance.orderly (by decide)
  | claimClaimableBalance => exact .under ClaimClaimableBalance.orderly (by decide)
  | beginSponsoring => exact .under BeginSponsoring.orderly (by decide)
  | revokeSponsorship => exact .under RevokeSponsorship.orderly (by decide)
  | clawback => exact .under Clawback.orderly (by decide)
  | clawbackClaimableBalance => exact .under ClawbackClaimableBalance.orderly (by decide)
  | setTrustLineFlags => exact .under SetTrustLineFlags.orderly (by decide)
  | poolDeposit => exact .under PoolDeposit.orderly (by decide)
  | poolWithdraw => exact .under PoolWithdraw.orderly (by decide)
  | invokeHostFunction => exact .under Contract.HostCall.orderly (by decide)
  | bumpFootprintExpiration => exact .under BumpFootprintExpiration.orderly (by decide)
  | restoreFootprint => exact .under RestoreFootprint.orderly (by decide)

/-- The source may be missing, and the body stands in a part below. -/
theorem Operation.orderly : Orderly layout layout :=
  .record (.map (.field (.option MuxedAccount.orderly) (.under OperationBody.orderly))) (by decide)

end LedgerTx
