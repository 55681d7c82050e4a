import LedgerTx.Contract.Authorization
import LedgerTx.Contract.Resources
import LedgerTx.Proofs.Orderly.Asset

namespace LedgerTx

open Layout

/-! # Lines of contract values, calls and ledger keys in order -/

namespace Contract

/-! ## Values -/

theorem Error.orderly : Orderly layout layout :=
  .record (.map (.field .constant (.under .int32))) (by decide)

theorem Address.orderly : Orderly layout layout := by
  refine .union .constant fun k => ?_
  cases k with
  | account => exact .under AccountId.orderly (by decide)
  | contract => exact .under (.line .parsed) (by decide)

theorem Executable.orderly : Orderly layout layout := by
  refine .union .constant fun k => ?_
  cases k with
  | wasm => exact .under (.fixed 32) (by decide)
  | token => exact .unit

theorem UInt128.orderly : Orderly layout layout :=
  .record (.map (.field .uint64 (.under .uint64))) (by decide)

theorem Int128.orderly : Orderly layout layout :=
  .record (.map (.field .int64 (.under .uint64))) (by decide)

theorem UInt256.orderly : Orderly layout layout :=
  .record (.map (.field .uint64 (.field .uint64 (.field .uint64 (.under .uint64))))) (by decide)

theorem Int256.orderly : Orderly layout layout :=
  .record (.map (.field .int64 (.field .uint64 (.field .uint64 (.under .uint64))))) (by decide)

section

variable {ν : Type} {first second : Layout ν}

theorem Entry.orderly (h : Orderly first second) : Orderly (layout first) (layout second) :=
  .record (.map (.field h (.under h))) (by decide)

/-- The executable and the storage are two parts, and the storage may be missing. -/
theorem Instance.orderly (h : Orderly first second) : Orderly (layout first) (layout second) :=
  .record (.map (.field Executable.orderly (.under (.option (.list (Entry.orderly h) _))))) (by decide)

end

namespace Value

/-- The values inside a value stand in parts of it. -/
theorem step_orderly {first second : Layout Value} (h : Orderly first second) :
    Orderly (step first) (step second) := by
  refine .union .constant fun k => ?_
  cases k with
  | bool => exact .under .bool (by decide)
  | void | instanceKey => exact .unit
  | error => exact .under Error.orderly (by decide)
  | uint32 => exact .under .uint32 (by decide)
  | int32 => exact .under .int32 (by decide)
  | uint64 | timepoint | duration => exact .under .uint64 (by decide)
  | int64 => exact .under .int64 (by decide)
  | uint128 => exact .under UInt128.orderly (by decide)
  | int128 => exact .under Int128.orderly (by decide)
  | uint256 => exact .under UInt256.orderly (by decide)
  | int256 => exact .under Int256.orderly (by decide)
  | bytes => exact .under (.bytes _) (by decide)
  | string => exact .under (.text _) (by decide)
  | symbol => exact .under (.symbol _) (by decide)
  | vec => exact .under (.option (.list h _)) (by decide)
  | map => exact .under (.option (.list (Entry.orderly h) _)) (by decide)
  | address => exact .under Address.orderly (by decide)
  | contractInstance => exact .under (Instance.orderly h) (by decide)
  | nonceKey => exact .under (.under .int64 rfl) (by decide)

/-- By levels, the lines of every contract value are in order. -/
theorem orderly : Orderly layout layout :=
  .recursive step_orderly depth

end Value

/-! ## Calls -/

theorem IdSource.orderly : Orderly layout layout := by
  refine .union .constant fun k => ?_
  cases k with
  | fromAddress =>
    exact .under (.record (.field Address.orderly (.under (.fixed 32))) (by decide)) (by decide)
  | fromAsset => exact .under Asset.orderly (by decide)

theorem Creation.orderly : Orderly layout layout :=
  .record (.map (.field IdSource.orderly (.under Executable.orderly))) (by decide)

/-- Each kind of function has one part with a name of its own. -/
theorem HostFunction.orderly : Orderly layout layout := by
  refine .union .constant fun k => ?_
  cases k with
  | invoke => exact .under (.list Value.orderly _) (by decide)
  | create => exact .under Creation.orderly (by decide)
  | upload => exact .under (.bytes _) (by decide)

theorem FunctionCall.orderly : Orderly layout layout :=
  .record (.map (.field Address.orderly (.field (.symbol _) (.under (.list Value.orderly _))))) (by decide)

theorem Function.orderly : Orderly layout layout := by
  refine .union .constant fun k => ?_
  cases k with
  | contract => exact .under FunctionCall.orderly (by decide)
  | create => exact .under Creation.orderly (by decide)

namespace Invocation

/-- The calls below the root stand in a part of it. -/
theorem step_orderly {first second : Layout Invocation} (h : Orderly first second) :
    Orderly (step first) (step second) :=
  .record (.map (.field Function.orderly (.under (.list h _)))) (by decide)

/-- By levels, the lines of every tree of calls are in order. -/
theorem orderly : Orderly layout layout :=
  .recursive step_orderly depth

end Invocation

/-! ## Authorizations -/

theorem AddressCredentials.orderly : Orderly layout layout := by
  have hfields : Fields ["address", "nonce", "signatureExpirationLedger", "signatureArgs"] layout layout :=
    .map (.field Address.orderly (.field .int64 (.field .uint32 (.under (.list Value.orderly _)))))
  exact .record hfields (by decide)

theorem Credentials.orderly : Orderly layout layout := by
  refine .union .constant fun k => ?_
  cases k with
  | sourceAccount => exact .unit
  | address => exact .under AddressCredentials.orderly (by decide)

theorem Authorization.orderly : Orderly layout layout :=
  .record (.map (.field Credentials.orderly (.under Invocation.orderly))) (by decide)

theorem HostCall.orderly : Orderly layout layout :=
  .record (.map (.field HostFunction.orderly (.under (.list Authorization.orderly _)))) (by decide)

end Contract

/-! ## Ledger keys -/

theorem BalanceId.orderly : Orderly layout layout :=
  .record (.map (.field .constant (.under (.fixed 32)))) (by decide)

theorem ConfigSetting.orderly : Orderly layout layout :=
  .line .named

theorem Durability.orderly : Orderly layout layout :=
  .openConstant _ _

theorem BodyKind.orderly : Orderly layout layout :=
  .openConstant _ _

/-- Each kind of key has one part, in which its own parts have distinct names. -/
theorem LedgerKey.orderly : Orderly layout layout := by
  refine .union (.openConstant _ _) fun k => ?_
  cases k with
  | account => exact .under (.under AccountId.orderly rfl) (by decide)
  | trustLine =>
    exact .under (.record (.field AccountId.orderly (.under TrustLineAsset.orderly)) (by decide))
      (by decide)
  | offer => exact .under (.record (.field AccountId.orderly (.under .int64)) (by decide)) (by decide)
  | data => exact .under (.record (.field AccountId.orderly (.under (.text _))) (by decide)) (by decide)
  | claimableBalance => exact .under (.under BalanceId.orderly rfl) (by decide)
  | liquidityPool => exact .under (.under (.fixed 32) rfl) (by decide)
  | contractData =>
    exact .under (.record (.field Contract.Address.orderly (.field Contract.Value.orderly
      (.field Durability.orderly (.under BodyKind.orderly)))) (by decide)) (by decide)
  | contractCode =>
    exact .under (.record (.field (.fixed 32) (.under BodyKind.orderly)) (by decide)) (by decide)
  | configSetting => exact .under (.under ConfigSetting.orderly rfl) (by decide)

/-! ## Resources -/

theorem Extension.orderly : Orderly layout layout :=
  .record (.under .version) (by decide)

theorem Footprint.orderly : Orderly layout layout :=
  .record (.map (.field (.list LedgerKey.orderly _) (.under (.list LedgerKey.orderly _)))) (by decide)

theorem Resources.orderly : Orderly layout layout := by
  have hfields : Fields ["footprint", "instructions", "readBytes", "writeBytes", "contractEventsSizeBytes"]
      layout layout :=
    .map (.field Footprint.orderly (.field .uint32 (.field .uint32 (.field .uint32 (.under .uint32)))))
  exact .record hfields (by decide)

theorem SorobanData.orderly : Orderly layout layout :=
  .record (.map (.field Extension.orderly (.field Resources.orderly (.under .int64)))) (by decide)

end LedgerTx
