import LedgerTx.Ledger.Key

namespace LedgerTx

/-! # Trust lines and clawbacks -/

/-- Sets the limit of a line of trust; limit 0 removes the line. -/
structure ChangeTrust where
  line : ChangeTrustAsset
  limit : Int64

/-- The line and then the limit. -/
def ChangeTrust.layout : Layout ChangeTrust :=
  .map ⟨fun o => (o.line, o.limit), fun v => ⟨v.1, v.2⟩, fun _ => rfl, fun _ => rfl⟩ <|
    .field "line" ChangeTrustAsset.layout <|
    .under "limit" .amount

/-- Lets an account hold an asset of the source account. -/
structure AllowTrust where
  trustor : AccountId
  asset : AssetCode
  authorize : UInt32

/-- The account, the code of the asset and the permission. -/
def AllowTrust.layout : Layout AllowTrust :=
  .map ⟨fun o => (o.trustor, o.asset, o.authorize), fun v => ⟨v.1, v.2.1, v.2.2⟩,
    fun _ => rfl, fun _ => rfl⟩ <|
    .field "trustor" AccountId.layout <|
    .field "asset" AssetCode.layout <|
    .under "authorize" .uint32

/-- Changes the flags of an account's line of trust. -/
structure SetTrustLineFlags where
  trustor : AccountId
  asset : Asset
  clearFlags : UInt32
  setFlags : UInt32

/-- The account, the asset and the flags. -/
def SetTrustLineFlags.layout : Layout SetTrustLineFlags :=
  .map ⟨fun o => (o.trustor, o.asset, o.clearFlags, o.setFlags),
    fun v => ⟨v.1, v.2.1, v.2.2.1, v.2.2.2⟩, fun _ => rfl, fun _ => rfl⟩ <|
    .field "trustor" AccountId.layout <|
    .field "asset" Asset.layout <|
    .field "clearFlags" .uint32 <|
    .under "setFlags" .uint32

/-- Takes an amount back from an account. -/
structure Clawback where
  asset : Asset
  holder : MuxedAccount
  amount : Int64

/-- The asset, the account and the amount. -/
def Clawback.layout : Layout Clawback :=
  .map ⟨fun o => (o.asset, o.holder, o.amount), fun v => ⟨v.1, v.2.1, v.2.2⟩,
    fun _ => rfl, fun _ => rfl⟩ <|
    .field "asset" Asset.layout <|
    .field "from" MuxedAccount.layout <|
    .under "amount" .amount

/-- Takes a claimable balance back. -/
structure ClawbackClaimableBalance where
  balance : BalanceId

/-- The balance. -/
def ClawbackClaimableBalance.layout : Layout ClawbackClaimableBalance :=
  .map ⟨fun o => o.balance, fun v => ⟨v⟩, fun _ => rfl, fun _ => rfl⟩ <|
    .under "balanceID" BalanceId.layout

end LedgerTx
