import LedgerTx.Contract.Authorization
import LedgerTx.Operation.Account
import LedgerTx.Operation.Footprint
import LedgerTx.Operation.Payment
import LedgerTx.Operation.Sponsorship
import LedgerTx.Operation.Trading
import LedgerTx.Operation.Trust

namespace LedgerTx

/-! # Operations

An operation is a body of one of 27 kinds, and the account that it acts for where that is not the source
of the transaction.  An operation of an unknown kind can not be skipped, so reading one fails. -/

/-- The kinds of operations. -/
inductive OperationKind where
  | createAccount
  | payment
  | pathPaymentReceive
  | manageSellOffer
  | createPassiveOffer
  | setOptions
  | changeTrust
  | allowTrust
  | accountMerge
  | inflation
  | manageData
  | bumpSequence
  | manageBuyOffer
  | pathPaymentSend
  | createClaimableBalance
  | claimClaimableBalance
  | beginSponsoring
  | endSponsoring
  | revokeSponsorship
  | clawback
  | clawbackClaimableBalance
  | setTrustLineFlags
  | poolDeposit
  | poolWithdraw
  | invokeHostFunction
  | bumpFootprintExpiration
  | restoreFootprint
deriving DecidableEq

instance : Enumeration OperationKind where
  title := "OperationType"
  all := [.createAccount, .payment, .pathPaymentReceive, .manageSellOffer, .createPassiveOffer,
    .setOptions, .changeTrust, .allowTrust, .accountMerge, .inflation, .manageData, .bumpSequence,
    .manageBuyOffer, .pathPaymentSend, .createClaimableBalance, .claimClaimableBalance,
    .beginSponsoring, .endSponsoring, .revokeSponsorship, .clawback, .clawbackClaimableBalance,
    .setTrustLineFlags, .poolDeposit, .poolWithdraw, .invokeHostFunction, .bumpFootprintExpiration,
    .restoreFootprint]
  number
    | .createAccount => 0
    | .payment => 1
    | .pathPaymentReceive => 2
    | .manageSellOffer => 3
    | .createPassiveOffer => 4
    | .setOptions => 5
    | .changeTrust => 6
    | .allowTrust => 7
    | .accountMerge => 8
    | .inflation => 9
    | .manageData => 10
    | .bumpSequence => 11
    | .manageBuyOffer => 12
    | .pathPaymentSend => 13
    | .createClaimableBalance => 14
    | .claimClaimableBalance => 15
    | .beginSponsoring => 16
    | .endSponsoring => 17
    | .revokeSponsorship => 18
    | .clawback => 19
    | .clawbackClaimableBalance => 20
    | .setTrustLineFlags => 21
    | .poolDeposit => 22
    | .poolWithdraw => 23
    | .invokeHostFunction => 24
    | .bumpFootprintExpiration => 25
    | .restoreFootprint => 26
  name
    | .createAccount => "CREATE_ACCOUNT"
    | .payment => "PAYMENT"
    | .pathPaymentReceive => "PATH_PAYMENT_STRICT_RECEIVE"
    | .manageSellOffer => "MANAGE_SELL_OFFER"
    | .createPassiveOffer => "CREATE_PASSIVE_SELL_OFFER"
    | .setOptions => "SET_OPTIONS"
    | .changeTrust => "CHANGE_TRUST"
    | .allowTrust => "ALLOW_TRUST"
    | .accountMerge => "ACCOUNT_MERGE"
    | .inflation => "INFLATION"
    | .manageData => "MANAGE_DATA"
    | .bumpSequence => "BUMP_SEQUENCE"
    | .manageBuyOffer => "MANAGE_BUY_OFFER"
    | .pathPaymentSend => "PATH_PAYMENT_STRICT_SEND"
    | .createClaimableBalance => "CREATE_CLAIMABLE_BALANCE"
    | .claimClaimableBalance => "CLAIM_CLAIMABLE_BALANCE"
    | .beginSponsoring => "BEGIN_SPONSORING_FUTURE_RESERVES"
    | .endSponsoring => "END_SPONSORING_FUTURE_RESERVES"
    | .revokeSponsorship => "REVOKE_SPONSORSHIP"
    | .clawback => "CLAWBACK"
    | .clawbackClaimableBalance => "CLAWBACK_CLAIMABLE_BALANCE"
    | .setTrustLineFlags => "SET_TRUST_LINE_FLAGS"
    | .poolDeposit => "LIQUIDITY_POOL_DEPOSIT"
    | .poolWithdraw => "LIQUIDITY_POOL_WITHDRAW"
    | .invokeHostFunction => "INVOKE_HOST_FUNCTION"
    | .bumpFootprintExpiration => "BUMP_FOOTPRINT_EXPIRATION"
    | .restoreFootprint => "RESTORE_FOOTPRINT"

/-- What an operation does. -/
inductive OperationBody where
  | createAccount (op : CreateAccount)
  | payment (op : Payment)
  | pathPaymentReceive (op : PathPaymentReceive)
  | manageSellOffer (op : ManageSellOffer)
  | createPassiveOffer (op : CreatePassiveOffer)
  | setOptions (op : SetOptions)
  | changeTrust (op : ChangeTrust)
  | allowTrust (op : AllowTrust)
  /-- Moves the whole balance to another account and closes the account. -/
  | accountMerge (destination : MuxedAccount)
  /-- Runs the inflation of the native asset. -/
  | inflation
  | manageData (op : ManageData)
  | bumpSequence (op : BumpSequence)
  | manageBuyOffer (op : ManageBuyOffer)
  | pathPaymentSend (op : PathPaymentSend)
  | createClaimableBalance (op : CreateClaimableBalance)
  | claimClaimableBalance (op : ClaimClaimableBalance)
  | beginSponsoring (op : BeginSponsoring)
  /-- Ends the sponsoring that another account began. -/
  | endSponsoring
  | revokeSponsorship (op : RevokeSponsorship)
  | clawback (op : Clawback)
  | clawbackClaimableBalance (op : ClawbackClaimableBalance)
  | setTrustLineFlags (op : SetTrustLineFlags)
  | poolDeposit (op : PoolDeposit)
  | poolWithdraw (op : PoolWithdraw)
  | invokeHostFunction (call : Contract.HostCall)
  | bumpFootprintExpiration (op : BumpFootprintExpiration)
  | restoreFootprint (op : RestoreFootprint)

namespace OperationBody

/-- What a body of some kind holds. -/
def Payload : OperationKind → Type
  | .createAccount => CreateAccount
  | .payment => Payment
  | .pathPaymentReceive => PathPaymentReceive
  | .manageSellOffer => ManageSellOffer
  | .createPassiveOffer => CreatePassiveOffer
  | .setOptions => SetOptions
  | .changeTrust => ChangeTrust
  | .allowTrust => AllowTrust
  | .accountMerge => MuxedAccount
  | .inflation => Unit
  | .manageData => ManageData
  | .bumpSequence => BumpSequence
  | .manageBuyOffer => ManageBuyOffer
  | .pathPaymentSend => PathPaymentSend
  | .createClaimableBalance => CreateClaimableBalance
  | .claimClaimableBalance => ClaimClaimableBalance
  | .beginSponsoring => BeginSponsoring
  | .endSponsoring => Unit
  | .revokeSponsorship => RevokeSponsorship
  | .clawback => Clawback
  | .clawbackClaimableBalance => ClawbackClaimableBalance
  | .setTrustLineFlags => SetTrustLineFlags
  | .poolDeposit => PoolDeposit
  | .poolWithdraw => PoolWithdraw
  | .invokeHostFunction => Contract.HostCall
  | .bumpFootprintExpiration => BumpFootprintExpiration
  | .restoreFootprint => RestoreFootprint

/-- A body as its kind and what that kind holds. -/
def view : Bijection OperationBody (Sigma Payload) where
  forth
    | .createAccount op => ⟨.createAccount, op⟩
    | .payment op => ⟨.payment, op⟩
    | .pathPaymentReceive op => ⟨.pathPaymentReceive, op⟩
    | .manageSellOffer op => ⟨.manageSellOffer, op⟩
    | .createPassiveOffer op => ⟨.createPassiveOffer, op⟩
    | .setOptions op => ⟨.setOptions, op⟩
    | .changeTrust op => ⟨.changeTrust, op⟩
    | .allowTrust op => ⟨.allowTrust, op⟩
    | .accountMerge destination => ⟨.accountMerge, destination⟩
    | .inflation => ⟨.inflation, ()⟩
    | .manageData op => ⟨.manageData, op⟩
    | .bumpSequence op => ⟨.bumpSequence, op⟩
    | .manageBuyOffer op => ⟨.manageBuyOffer, op⟩
    | .pathPaymentSend op => ⟨.pathPaymentSend, op⟩
    | .createClaimableBalance op => ⟨.createClaimableBalance, op⟩
    | .claimClaimableBalance op => ⟨.claimClaimableBalance, op⟩
    | .beginSponsoring op => ⟨.beginSponsoring, op⟩
    | .endSponsoring => ⟨.endSponsoring, ()⟩
    | .revokeSponsorship op => ⟨.revokeSponsorship, op⟩
    | .clawback op => ⟨.clawback, op⟩
    | .clawbackClaimableBalance op => ⟨.clawbackClaimableBalance, op⟩
    | .setTrustLineFlags op => ⟨.setTrustLineFlags, op⟩
    | .poolDeposit op => ⟨.poolDeposit, op⟩
    | .poolWithdraw op => ⟨.poolWithdraw, op⟩
    | .invokeHostFunction call => ⟨.invokeHostFunction, call⟩
    | .bumpFootprintExpiration op => ⟨.bumpFootprintExpiration, op⟩
    | .restoreFootprint op => ⟨.restoreFootprint, op⟩
  back
    | ⟨.createAccount, op⟩ => .createAccount op
    | ⟨.payment, op⟩ => .payment op
    | ⟨.pathPaymentReceive, op⟩ => .pathPaymentReceive op
    | ⟨.manageSellOffer, op⟩ => .manageSellOffer op
    | ⟨.createPassiveOffer, op⟩ => .createPassiveOffer op
    | ⟨.setOptions, op⟩ => .setOptions op
    | ⟨.changeTrust, op⟩ => .changeTrust op
    | ⟨.allowTrust, op⟩ => .allowTrust op
    | ⟨.accountMerge, destination⟩ => .accountMerge destination
    | ⟨.inflation, ()⟩ => .inflation
    | ⟨.manageData, op⟩ => .manageData op
    | ⟨.bumpSequence, op⟩ => .bumpSequence op
    | ⟨.manageBuyOffer, op⟩ => .manageBuyOffer op
    | ⟨.pathPaymentSend, op⟩ => .pathPaymentSend op
    | ⟨.createClaimableBalance, op⟩ => .createClaimableBalance op
    | ⟨.claimClaimableBalance, op⟩ => .claimClaimableBalance op
    | ⟨.beginSponsoring, op⟩ => .beginSponsoring op
    | ⟨.endSponsoring, ()⟩ => .endSponsoring
    | ⟨.revokeSponsorship, op⟩ => .revokeSponsorship op
    | ⟨.clawback, op⟩ => .clawback op
    | ⟨.clawbackClaimableBalance, op⟩ => .clawbackClaimableBalance op
    | ⟨.setTrustLineFlags, op⟩ => .setTrustLineFlags op
    | ⟨.poolDeposit, op⟩ => .poolDeposit op
    | ⟨.poolWithdraw, op⟩ => .poolWithdraw op
    | ⟨.invokeHostFunction, call⟩ => .invokeHostFunction call
    | ⟨.bumpFootprintExpiration, op⟩ => .bumpFootprintExpiration op
    | ⟨.restoreFootprint, op⟩ => .restoreFootprint op
  back_forth b := by cases b <;> rfl
  forth_back := fun ⟨k, b⟩ => by cases k <;> rfl

/-- The kind of a body. -/
def kind (body : OperationBody) : OperationKind :=
  (view.forth body).1

/-- The layout of what bodies hold. -/
def payload : (kind : OperationKind) → Layout (Payload kind)
  | .createAccount => .under "createAccountOp" CreateAccount.layout
  | .payment => .under "paymentOp" Payment.layout
  | .pathPaymentReceive => .under "pathPaymentStrictReceiveOp" PathPaymentReceive.layout
  | .manageSellOffer => .under "manageSellOfferOp" ManageSellOffer.layout
  | .createPassiveOffer => .under "createPassiveSellOfferOp" CreatePassiveOffer.layout
  | .setOptions => .under "setOptionsOp" SetOptions.layout
  | .changeTrust => .under "changeTrustOp" ChangeTrust.layout
  | .allowTrust => .under "allowTrustOp" AllowTrust.layout
  | .accountMerge => .under "destination" MuxedAccount.layout
  | .inflation => .unit
  | .manageData => .under "manageDataOp" ManageData.layout
  | .bumpSequence => .under "bumpSequenceOp" BumpSequence.layout
  | .manageBuyOffer => .under "manageBuyOfferOp" ManageBuyOffer.layout
  | .pathPaymentSend => .under "pathPaymentStrictSendOp" PathPaymentSend.layout
  | .createClaimableBalance => .under "createClaimableBalanceOp" CreateClaimableBalance.layout
  | .claimClaimableBalance => .under "claimClaimableBalanceOp" ClaimClaimableBalance.layout
  | .beginSponsoring => .under "beginSponsoringFutureReservesOp" BeginSponsoring.layout
  | .endSponsoring => .unit
  | .revokeSponsorship => .under "revokeSponsorshipOp" RevokeSponsorship.layout
  | .clawback => .under "clawbackOp" Clawback.layout
  | .clawbackClaimableBalance => .under "clawbackClaimableBalanceOp" ClawbackClaimableBalance.layout
  | .setTrustLineFlags => .under "setTrustLineFlagsOp" SetTrustLineFlags.layout
  | .poolDeposit => .under "liquidityPoolDepositOp" PoolDeposit.layout
  | .poolWithdraw => .under "liquidityPoolWithdrawOp" PoolWithdraw.layout
  | .invokeHostFunction => .under "invokeHostFunctionOp" Contract.HostCall.layout
  | .bumpFootprintExpiration => .under "bumpFootprintExpirationOp" BumpFootprintExpiration.layout
  | .restoreFootprint => .under "restoreFootprintOp" RestoreFootprint.layout

/-- The kind of the body and what that kind holds. -/
def layout : Layout OperationBody :=
  .map view (.sigma (.under "type" (.constant OperationKind)) payload)

end OperationBody

/-- An operation and the account that it acts for, if that is not the source of the transaction. -/
structure Operation where
  source : Option MuxedAccount
  body : OperationBody

namespace Operation

/-- The operation that acts for the source of the transaction. -/
def ofBody (body : OperationBody) : Operation :=
  ⟨none, body⟩

/-- The kind of an operation. -/
def kind (operation : Operation) : OperationKind :=
  operation.body.kind

/-- The account and then the body. -/
def layout : Layout Operation :=
  .map ⟨fun o => (o.source, o.body), fun v => ⟨v.1, v.2⟩, fun _ => rfl, fun _ => rfl⟩ <|
    .field "sourceAccount" (.option MuxedAccount.layout) <|
    .under "body" OperationBody.layout

end Operation

end LedgerTx
