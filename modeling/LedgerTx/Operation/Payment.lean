import LedgerTx.Ledger.Key
import LedgerTx.Operation.Claim

namespace LedgerTx

/-! # Payments and claimable balances -/

/-- Pays an asset. -/
structure Payment where
  destination : MuxedAccount
  asset : Asset
  amount : Int64

/-- The recipient, the asset and the amount. -/
def Payment.layout : Layout Payment :=
  .map ⟨fun o => (o.destination, o.asset, o.amount), fun v => ⟨v.1, v.2.1, v.2.2⟩,
    fun _ => rfl, fun _ => rfl⟩ <|
    .field "destination" MuxedAccount.layout <|
    .field "asset" Asset.layout <|
    .under "amount" .amount

/-- The greatest number of assets between the one sent and the one received. -/
def maxPaymentPath : Nat := 5

/-- Pays an exact amount of one asset with at most some amount of another. -/
structure PathPaymentReceive where
  sendAsset : Asset
  sendMax : Int64
  destination : MuxedAccount
  destAsset : Asset
  destAmount : Int64
  path : List Asset

/-- What is sent, who receives what, and the assets between. -/
def PathPaymentReceive.layout : Layout PathPaymentReceive :=
  .map
    ⟨fun o => (o.sendAsset, o.sendMax, o.destination, o.destAsset, o.destAmount, o.path),
      fun v => ⟨v.1, v.2.1, v.2.2.1, v.2.2.2.1, v.2.2.2.2.1, v.2.2.2.2.2⟩,
      fun _ => rfl, fun _ => rfl⟩ <|
    .field "sendAsset" Asset.layout <|
    .field "sendMax" .amount <|
    .field "destination" MuxedAccount.layout <|
    .field "destAsset" Asset.layout <|
    .field "destAmount" .amount <|
    .under "path" (.list maxPaymentPath Asset.layout)

/-- Pays at least some amount of one asset with an exact amount of another. -/
structure PathPaymentSend where
  sendAsset : Asset
  sendAmount : Int64
  destination : MuxedAccount
  destAsset : Asset
  destMin : Int64
  path : List Asset

/-- What is sent, who receives what, and the assets between. -/
def PathPaymentSend.layout : Layout PathPaymentSend :=
  .map
    ⟨fun o => (o.sendAsset, o.sendAmount, o.destination, o.destAsset, o.destMin, o.path),
      fun v => ⟨v.1, v.2.1, v.2.2.1, v.2.2.2.1, v.2.2.2.2.1, v.2.2.2.2.2⟩,
      fun _ => rfl, fun _ => rfl⟩ <|
    .field "sendAsset" Asset.layout <|
    .field "sendAmount" .amount <|
    .field "destination" MuxedAccount.layout <|
    .field "destAsset" Asset.layout <|
    .field "destMin" .amount <|
    .under "path" (.list maxPaymentPath Asset.layout)

/-- Sets an amount aside for claimants. -/
structure CreateClaimableBalance where
  asset : Asset
  amount : Int64
  claimants : List Claimant

namespace CreateClaimableBalance

/-- The greatest number of claimants. -/
def maxClaimants : Nat := 10

/-- The asset, the amount and the claimants. -/
def layout : Layout CreateClaimableBalance :=
  .map ⟨fun o => (o.asset, o.amount, o.claimants), fun v => ⟨v.1, v.2.1, v.2.2⟩,
    fun _ => rfl, fun _ => rfl⟩ <|
    .field "asset" Asset.layout <|
    .field "amount" .amount <|
    .under "claimants" (.list maxClaimants Claimant.layout)

end CreateClaimableBalance

/-- Claims a balance. -/
structure ClaimClaimableBalance where
  balance : BalanceId

/-- The balance. -/
def ClaimClaimableBalance.layout : Layout ClaimClaimableBalance :=
  .map ⟨fun o => o.balance, fun v => ⟨v⟩, fun _ => rfl, fun _ => rfl⟩ <|
    .under "balanceID" BalanceId.layout

end LedgerTx
