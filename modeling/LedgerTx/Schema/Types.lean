import LedgerTx.Schema.Summary

namespace LedgerTx.Schema

/-! # The wire types

All types that have a wire form of their own, by their names. -/

/-- A wire type. -/
structure WireType where
  {Value : Type}
  codec : Codec Value
  /-- What is told of a value, if anything. -/
  summary : Value → Option Json

namespace WireType

variable {α : Type}

/-- A type of which nothing is told. -/
def plain (codec : Codec α) : WireType :=
  ⟨codec, fun _ => none⟩

/-- A type with a summary. -/
def told (codec : Codec α) (summary : α → Json) : WireType :=
  ⟨codec, fun a => some (summary a)⟩

/-- A type with a layout. -/
def of (layout : Layout α) : WireType :=
  plain layout.wire

/-- A type with a layout and a summary. -/
def summed (layout : Layout α) (summary : α → Json) : WireType :=
  told layout.wire summary

/-- A set of constants. -/
def constants (κ : Type) [Enumeration κ] : WireType :=
  plain (.constant κ)

end WireType

open WireType

/-- Numbers, truth values and bytes. -/
def scalarTypes : List (String × WireType) := [
  ("u32", told .uint32 fun v => Summary.number v.toNat),
  ("i32", told .int32 fun v => Summary.number v.toInt),
  ("u64", told .uint64 fun v => Summary.number v.toNat),
  ("i64", told .int64 fun v => Summary.number v.toInt),
  ("bool", told .bool .bool),
  ("opaque4", plain (.fixed 4)),
  ("opaque12", plain (.fixed 12)),
  ("opaque32", plain (.fixed 32))]

/-- Accounts and signatures. -/
def accountTypes : List (String × WireType) := [
  ("PublicKey", told AccountId.codec fun account => .string account.address),
  ("MuxedAccount", told MuxedAccount.codec fun account => .object (Summary.muxedAccount account)),
  ("SignerKey", told SignerKey.codec fun key => .string key.strkey),
  ("Signer", summed AccountSigner.layout Summary.accountSigner),
  ("DecoratedSignature", summed DecoratedSignature.layout Summary.signature)]

/-- Assets. -/
def assetTypes : List (String × WireType) := [
  ("AlphaNum4", told (CreditAsset.codec 4) fun c => .string (AssetCode.text c.code.toList)),
  ("AlphaNum12", told (CreditAsset.codec 12) fun c => .string (AssetCode.text c.code.toList)),
  ("Asset", told Asset.codec Summary.asset),
  ("TrustLineAsset", of TrustLineAsset.layout),
  ("LiquidityPoolParameters", of PoolParameters.layout),
  ("ChangeTrustAsset", of ChangeTrustAsset.layout),
  ("AssetCode", told AssetCode.codec Summary.assetCode),
  ("Price", summed Price.layout fun p => .array [.integer p.n.toInt, .integer p.d.toInt])]

/-- Contract values and ledger keys. -/
def valueTypes : List (String × WireType) := [
  ("ScError", summed Contract.Error.layout fun e =>
    .array [Summary.name e.kind, .integer e.code.toInt]),
  ("ScAddress", summed Contract.Address.layout fun a => Summary.name a.kind),
  ("ContractExecutable", of Contract.Executable.layout),
  ("UInt128Parts", summed Contract.UInt128.layout fun v => Summary.number v.toNat),
  ("Int128Parts", summed Contract.Int128.layout fun v => Summary.number v.toInt),
  ("UInt256Parts", of Contract.UInt256.layout),
  ("Int256Parts", of Contract.Int256.layout),
  ("ScVal", summed Contract.Value.layout fun v => Summary.name v.kind),
  ("ScMapEntry", of (Contract.Entry.layout Contract.Value.layout)),
  ("ScContractInstance", of (Contract.Instance.layout Contract.Value.layout)),
  ("ClaimableBalanceId", of BalanceId.layout),
  ("LedgerKey", summed LedgerKey.layout fun k => Summary.name k.kind)]

/-- Operations. -/
def operationTypes : List (String × WireType) := [
  ("ClaimPredicate", summed Predicate.layout fun p => Summary.name p.kind),
  ("BoxedPredicate", of Predicate.layout),
  ("Claimant", of Claimant.layout),
  ("CreateAccountOp", of CreateAccount.layout),
  ("PaymentOp", of Payment.layout),
  ("PathPaymentStrictReceiveOp", of PathPaymentReceive.layout),
  ("PathPaymentStrictSendOp", of PathPaymentSend.layout),
  ("ManageSellOfferOp", of ManageSellOffer.layout),
  ("ManageBuyOfferOp", of ManageBuyOffer.layout),
  ("CreatePassiveSellOfferOp", of CreatePassiveOffer.layout),
  ("SetOptionsOp", of SetOptions.layout),
  ("ChangeTrustOp", of ChangeTrust.layout),
  ("AllowTrustOp", of AllowTrust.layout),
  ("ManageDataOp", of ManageData.layout),
  ("BumpSequenceOp", of BumpSequence.layout),
  ("CreateClaimableBalanceOp", of CreateClaimableBalance.layout),
  ("ClaimClaimableBalanceOp", of ClaimClaimableBalance.layout),
  ("BeginSponsoringFutureReservesOp", of BeginSponsoring.layout),
  ("RevokeSponsorshipOp", of RevokeSponsorship.layout),
  ("ClawbackOp", of Clawback.layout),
  ("ClawbackClaimableBalanceOp", of ClawbackClaimableBalance.layout),
  ("SetTrustLineFlagsOp", of SetTrustLineFlags.layout),
  ("LiquidityPoolDepositOp", of PoolDeposit.layout),
  ("LiquidityPoolWithdrawOp", of PoolWithdraw.layout),
  ("InvokeHostFunctionOp", of Contract.HostCall.layout),
  ("BumpFootprintExpirationOp", of BumpFootprintExpiration.layout),
  ("RestoreFootprintOp", of RestoreFootprint.layout),
  ("OperationBody", summed OperationBody.layout fun b => Summary.name b.kind),
  ("Operation", summed Operation.layout Summary.operation)]

/-- Contract calls and what they need. -/
def contractTypes : List (String × WireType) := [
  ("ExtensionPoint", of Extension.layout),
  ("ContractIdPreimage", of Contract.IdSource.layout),
  ("CreateContractArgs", of Contract.Creation.layout),
  ("HostFunction", summed Contract.HostFunction.layout fun f => Summary.name f.kind),
  ("SorobanAuthorizedFunction", of Contract.Function.layout),
  ("SorobanAuthorizedInvocation", of Contract.Invocation.layout),
  ("SorobanCredentials", of Contract.Credentials.layout),
  ("SorobanAuthorizationEntry", of Contract.Authorization.layout),
  ("LedgerFootprint", summed Footprint.layout Summary.footprint),
  ("SorobanResources", of Resources.layout),
  ("SorobanTransactionData", of SorobanData.layout),
  ("HashIdPreimage", plain HashPreimage.codec)]

/-- Transactions and envelopes. -/
def transactionTypes : List (String × WireType) := [
  ("Memo", summed Memo.layout fun m => Summary.name m.kind),
  ("TimeBounds", summed TimeBounds.layout Summary.timeBounds),
  ("LedgerBounds", summed LedgerBounds.layout Summary.ledgerBounds),
  ("PreconditionsV2", of Conditions.layout),
  ("Preconditions", summed Preconditions.layout Summary.preconditions),
  ("TransactionExt", of SorobanData.optionLayout),
  ("Transaction", of Transaction.layout),
  ("TransactionV0", summed LegacyTransaction.layout fun legacy =>
    Summary.hex (Transaction.layout.wire.encode legacy.toTransaction)),
  ("TransactionV0Envelope", of (Signed.layout LegacyTransaction.layout)),
  ("TransactionV1Envelope", of (Signed.layout Transaction.layout)),
  ("FeeBumpInnerTx", of FeeBump.innerLayout),
  ("FeeBumpTransaction", of FeeBump.layout),
  ("FeeBumpTransactionEnvelope", of (Signed.layout FeeBump.layout)),
  ("TransactionEnvelope", summed Envelope.layout Summary.envelope),
  ("TaggedTransaction", plain Subject.codec),
  ("TransactionSignaturePayload", plain SignaturePayload.codec)]

/-- Sets of constants. -/
def constantTypes : List (String × WireType) := [
  ("OperationType", told (.constant OperationKind) Summary.name),
  ("EnvelopeType", told (.constant EnvelopeKind) Summary.name),
  ("CryptoKeyType", told (.constant KeyKind) Summary.name),
  ("PublicKeyType", constants PublicKeyKind),
  ("AssetType", constants AssetKind),
  ("LiquidityPoolType", constants PoolKind),
  ("MemoType", constants MemoKind),
  ("PreconditionType", constants PreconditionKind),
  ("ClaimPredicateType", constants PredicateKind),
  ("ClaimantType", constants ClaimantKind),
  ("RevokeSponsorshipType", constants RevokeKind),
  ("ClaimableBalanceIdType", constants BalanceIdKind),
  ("LedgerEntryType", constants LedgerKeyKind),
  ("ContractDataDurability", constants Durability),
  ("ContractEntryBodyType", constants BodyKind),
  ("ScValType", constants Contract.ValueKind),
  ("ScErrorType", constants Contract.ErrorKind),
  ("ScAddressType", constants Contract.AddressKind),
  ("ContractExecutableType", constants Contract.ExecutableKind),
  ("HostFunctionType", constants Contract.HostFunctionKind),
  ("ContractIdPreimageType", constants Contract.IdSourceKind),
  ("SorobanAuthorizedFunctionType", constants Contract.FunctionKind),
  ("SorobanCredentialsType", constants Contract.CredentialsKind)]

/-- The types by their names. -/
def wireTypes : List (String × WireType) :=
  scalarTypes ++ accountTypes ++ assetTypes ++ valueTypes ++ operationTypes ++ contractTypes
    ++ transactionTypes ++ constantTypes

/-- The type of a name. -/
def wireType? (name : String) : Option WireType :=
  wireTypes.lookup name

end LedgerTx.Schema
