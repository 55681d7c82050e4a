import LedgerTx.Proofs.Parts.Transaction
import LedgerTx.Schema.Types

namespace LedgerTx

/-! # All wire types

Every type of the schema is put together from codecs of single values, so the laws of codecs hold of it.
Only ledger keys let unknown kinds through; of all other types the bytes are those of the value alone. -/

variable {lenient : Bool}

/-! ## Hashed data -/

/-- A transaction or a fee bump behind its tag, of which ledger keys make the codec lenient. -/
theorem Subject.codec_composed : Codec.Composed true codec := by
  refine .map (.sigma (.arms ?_ ?_) ?_)
  · intro arm
    cases arm <;> rfl
  · intro kind arm h
    cases kind <;> cases h <;> rfl
  · intro arm
    cases arm with
    | transaction => exact Transaction.hasParts.wire
    | feeBump => exact FeeBump.hasParts.wire

theorem SignaturePayload.codec_composed : Codec.Composed true codec :=
  .map (.pair (.fixed 32) Subject.codec_composed)

theorem AuthorizationPreimage.codec_composed : Codec.Composed lenient codec :=
  .map (.pair (.fixed 32) (.pair .int64 (.pair .uint32 Contract.Invocation.hasParts.wire)))

theorem ContractIdPreimage.codec_composed : Codec.Composed lenient codec :=
  .map (.pair (.fixed 32) Contract.IdSource.hasParts.wire)

/-- Each of the two stands behind a tag of its own. -/
theorem HashPreimage.codec_composed : Codec.Composed lenient codec := by
  refine .map (.sigma (.arms ?_ ?_) ?_)
  · intro arm
    cases arm <;> rfl
  · intro kind arm h
    cases kind <;> cases h <;> rfl
  · intro arm
    cases arm with
    | contractId => exact ContractIdPreimage.codec_composed
    | authorization => exact AuthorizationPreimage.codec_composed

namespace Schema

/-! ## The table -/

/-- The types that hold ledger keys. -/
def ledgerKeyTypes : List String := [
  "LedgerKey", "RevokeSponsorshipOp", "OperationBody", "Operation", "LedgerFootprint",
  "SorobanResources", "SorobanTransactionData", "TransactionExt", "Transaction", "TransactionV0",
  "TransactionV0Envelope", "TransactionV1Envelope", "FeeBumpInnerTx", "FeeBumpTransaction",
  "FeeBumpTransactionEnvelope", "TransactionEnvelope", "TaggedTransaction",
  "TransactionSignaturePayload"]

/-- A type that lets unknown kinds through only if its name says that it holds ledger keys. -/
def Lawful (entry : String × WireType) : Prop :=
  Codec.Composed (ledgerKeyTypes.contains entry.1) entry.2.codec

/-- Single values are laid out by codecs that are composed by themselves. -/
theorem scalarTypes_lawful : ∀ entry ∈ scalarTypes, Lawful entry := by
  simp only [scalarTypes, List.forall_mem_cons]
  exact ⟨.uint32, .int32, .uint64, .int64, .bool, .fixed 4, .fixed 12, .fixed 32,
    fun entry h => absurd h List.not_mem_nil⟩

theorem accountTypes_lawful : ∀ entry ∈ accountTypes, Lawful entry := by
  simp only [accountTypes, List.forall_mem_cons]
  exact ⟨AccountId.codec_composed, MuxedAccount.codec_composed, SignerKey.codec_composed,
    AccountSigner.hasParts.wire, DecoratedSignature.hasParts.wire,
    fun entry h => absurd h List.not_mem_nil⟩

/-- Assets, pools and prices hold no ledger keys. -/
theorem assetTypes_lawful : ∀ entry ∈ assetTypes, Lawful entry := by
  simp only [assetTypes, List.forall_mem_cons]
  exact ⟨CreditAsset.codec_composed 4, CreditAsset.codec_composed 12, Asset.codec_composed,
    TrustLineAsset.hasParts.wire, PoolParameters.hasParts.wire, ChangeTrustAsset.hasParts.wire,
    AssetCode.codec_composed, Price.hasParts.wire, fun entry h => absurd h List.not_mem_nil⟩

open Contract in
/-- Among contract values and what they name, only the ledger key itself is lenient. -/
theorem valueTypes_lawful : ∀ entry ∈ valueTypes, Lawful entry := by
  simp only [valueTypes, List.forall_mem_cons]
  exact ⟨Error.hasParts.wire, Address.hasParts.wire, Executable.hasParts.wire, UInt128.hasParts.wire,
    Int128.hasParts.wire, UInt256.hasParts.wire, Int256.hasParts.wire, Value.hasParts.wire,
    (Entry.hasParts Value.hasParts).wire, (Instance.hasParts Value.hasParts).wire,
    BalanceId.hasParts.wire, LedgerKey.hasParts.wire, fun entry h => absurd h List.not_mem_nil⟩

/-- Among operations, only those that revoke a sponsorship hold ledger keys. -/
theorem operationTypes_lawful : ∀ entry ∈ operationTypes, Lawful entry := by
  simp only [operationTypes, List.forall_mem_cons]
  exact ⟨Predicate.hasParts.wire, Predicate.hasParts.wire, Claimant.hasParts.wire,
    CreateAccount.hasParts.wire, Payment.hasParts.wire, PathPaymentReceive.hasParts.wire,
    PathPaymentSend.hasParts.wire, ManageSellOffer.hasParts.wire, ManageBuyOffer.hasParts.wire,
    CreatePassiveOffer.hasParts.wire, SetOptions.hasParts.wire, ChangeTrust.hasParts.wire,
    AllowTrust.hasParts.wire, ManageData.hasParts.wire, BumpSequence.hasParts.wire,
    CreateClaimableBalance.hasParts.wire, ClaimClaimableBalance.hasParts.wire,
    BeginSponsoring.hasParts.wire, RevokeSponsorship.hasParts.wire, Clawback.hasParts.wire,
    ClawbackClaimableBalance.hasParts.wire, SetTrustLineFlags.hasParts.wire,
    PoolDeposit.hasParts.wire, PoolWithdraw.hasParts.wire, Contract.HostCall.hasParts.wire,
    BumpFootprintExpiration.hasParts.wire, RestoreFootprint.hasParts.wire,
    OperationBody.hasParts.wire, Operation.hasParts.wire, fun entry h => absurd h List.not_mem_nil⟩

/-- Footprints hold ledger keys, and so does all that holds a footprint. -/
theorem contractTypes_lawful : ∀ entry ∈ contractTypes, Lawful entry := by
  simp only [contractTypes, List.forall_mem_cons]
  exact ⟨Extension.hasParts.wire, Contract.IdSource.hasParts.wire, Contract.Creation.hasParts.wire,
    Contract.HostFunction.hasParts.wire, Contract.Function.hasParts.wire,
    Contract.Invocation.hasParts.wire, Contract.Credentials.hasParts.wire,
    Contract.Authorization.hasParts.wire, Footprint.hasParts.wire, Resources.hasParts.wire,
    SorobanData.hasParts.wire, HashPreimage.codec_composed, fun entry h => absurd h List.not_mem_nil⟩

/-- Transactions of every kind may hold ledger keys. -/
theorem transactionTypes_lawful : ∀ entry ∈ transactionTypes, Lawful entry := by
  simp only [transactionTypes, List.forall_mem_cons]
  exact ⟨Memo.hasParts.wire, TimeBounds.hasParts.wire, LedgerBounds.hasParts.wire,
    Conditions.hasParts.wire, Preconditions.hasParts.wire, SorobanData.optionHasParts.wire,
    Transaction.hasParts.wire, LegacyTransaction.hasParts.wire,
    (Signed.hasParts LegacyTransaction.hasParts).wire, (Signed.hasParts Transaction.hasParts).wire,
    FeeBump.innerHasParts.wire, FeeBump.hasParts.wire, (Signed.hasParts FeeBump.hasParts).wire,
    Envelope.hasParts.wire, Subject.codec_composed, SignaturePayload.codec_composed,
    fun entry h => absurd h List.not_mem_nil⟩

/-- Constants are strict. -/
theorem constantTypes_lawful : ∀ entry ∈ constantTypes, Lawful entry := by
  simp only [constantTypes, List.forall_mem_cons]
  exact ⟨.constant OperationKind, .constant EnvelopeKind, .constant KeyKind, .constant PublicKeyKind,
    .constant AssetKind, .constant PoolKind, .constant MemoKind, .constant PreconditionKind,
    .constant PredicateKind, .constant ClaimantKind, .constant RevokeKind, .constant BalanceIdKind,
    .constant LedgerKeyKind, .constant Durability, .constant BodyKind, .constant Contract.ValueKind,
    .constant Contract.ErrorKind, .constant Contract.AddressKind, .constant Contract.ExecutableKind,
    .constant Contract.HostFunctionKind, .constant Contract.IdSourceKind,
    .constant Contract.FunctionKind, .constant Contract.CredentialsKind,
    fun entry h => absurd h List.not_mem_nil⟩

/-- All types of the schema are put together from codecs of single values. -/
theorem wireTypes_lawful : ∀ entry ∈ wireTypes, Lawful entry := by
  intro entry h
  simp only [wireTypes, List.mem_append] at h
  -- the table is eight tables in a row
  rcases h with ((((((h | h) | h) | h) | h) | h) | h) | h
  · exact scalarTypes_lawful entry h
  · exact accountTypes_lawful entry h
  · exact assetTypes_lawful entry h
  · exact valueTypes_lawful entry h
  · exact operationTypes_lawful entry h
  · exact contractTypes_lawful entry h
  · exact transactionTypes_lawful entry h
  · exact constantTypes_lawful entry h

/-- A type that is found by its name stands in the table under that name. -/
theorem mem_wireTypes_of_wireType? {name : String} {type : WireType} (h : wireType? name = some type) :
    (name, type) ∈ wireTypes := by
  rcases List.lookup_eq_some_iff.mp h with ⟨front, back, heq, -⟩
  rw [heq]
  exact List.mem_append_right _ (List.mem_cons_self ..)

theorem lawful_of_wireType? {name : String} {type : WireType} (h : wireType? name = some type) :
    Codec.Composed (ledgerKeyTypes.contains name) type.codec :=
  wireTypes_lawful _ (mem_wireTypes_of_wireType? h)

/-! ## Reading what was written -/

/-- A value that keeps the limits of its type is read back from its bytes, whatever follows them.  Byte
strings of a fixed size, of which the table has three, are read back whatever their size. -/
theorem decode_encode_append :
    (∀ {name : String} {type : WireType}, wireType? name = some type → ∀ {v : type.Value},
      type.codec.fits .standard v = true →
        (∀ rest, type.codec.decode .standard (type.codec.encode v ++ rest) = .ok (v, rest))
          ∧ type.codec.decodeWhole (type.codec.encode v) = .ok v)
    ∧ ∀ (n : Nat) (v : FixedBytes n),
      (∀ rest, (Codec.fixed n).decode .standard ((Codec.fixed n).encode v ++ rest) = .ok (v, rest))
        ∧ (Codec.fixed n).decodeWhole ((Codec.fixed n).encode v) = .ok v := by
  constructor
  · intro name type h v hfits
    have hcodec := lawful_of_wireType? h
    exact ⟨hcodec.decode_encode hfits, hcodec.decodeWhole_encode hfits⟩
  · intro n v
    have hcodec : Codec.Composed false (.fixed n) := .fixed n
    exact ⟨hcodec.decode_encode rfl, hcodec.decodeWhole_encode rfl⟩

/-- A vector of two values with a byte behind it. -/
theorem decode_encode_append_vec :
    Contract.Value.layout.wire.decode .standard
        (Contract.Value.layout.wire.encode (.vec (some [.symbol "a", .uint32 7])) ++ [1])
      = .ok (.vec (some [.symbol "a", .uint32 7]), [1]) := by
  have hvalue : wireType? "ScVal"
      = some (.summed Contract.Value.layout fun v => Summary.name v.kind) := rfl
  have hfits : Contract.Value.layout.wire.fits .standard (.vec (some [.symbol "a", .uint32 7])) = true := rfl
  exact (decode_encode_append.1 hvalue hfits).1 [1]

/-! ## One wire form -/

/-- What is read has as many bytes as the value, and the value is read back from its own bytes.  These are
the bytes that were read exactly if all kinds in them are known, so always in types without ledger
keys, and in byte strings of a fixed size. -/
theorem encode_of_decodeWhole :
    (∀ {name : String} {type : WireType}, wireType? name = some type →
      ∀ {bytes : List UInt8} {v : type.Value}, type.codec.decodeWhole bytes = .ok v →
        (type.codec.encode v).length = bytes.length
          ∧ type.codec.decodeWhole (type.codec.encode v) = .ok v
          ∧ (type.codec.encode v = bytes ↔
            ∃ w, Decoder.whole (type.codec.decode .strict) bytes = .ok w)
          ∧ (name ∉ ledgerKeyTypes → type.codec.encode v = bytes))
    ∧ ∀ {n : Nat} {bytes : List UInt8} {v : FixedBytes n}, (Codec.fixed n).decodeWhole bytes = .ok v →
      (Codec.fixed n).encode v = bytes
        ∧ ∃ w, Decoder.whole ((Codec.fixed n).decode .strict) bytes = .ok w := by
  constructor
  · intro name type h bytes v hread
    have hcodec := lawful_of_wireType? h
    rcases hcodec.length_and_decodeWhole_encode hread with ⟨hlength, hown⟩
    refine ⟨hlength, hown, hcodec.encode_eq_iff hread, fun hnone => ?_⟩
    have hstrict : ledgerKeyTypes.contains name = false := by
      rw [← Bool.not_eq_true, List.contains_iff_mem]
      exact hnone
    rw [hstrict] at hcodec
    exact hcodec.encode_eq hread
  · intro n bytes v hread
    have hcodec : Codec.Composed false (.fixed n) := .fixed n
    have heq := hcodec.encode_eq hread
    exact ⟨heq, (hcodec.encode_eq_iff hread).mp heq⟩

/-- A key with an unknown kind of body is read, but no strict reader accepts it. -/
theorem encode_of_decodeWhole_unknownBody :
    ¬∃ w, Decoder.whole (LedgerKey.layout.wire.decode .strict)
      ([0, 0, 0, 7] ++ List.replicate 32 1 ++ [0, 0, 0, 9]) = .ok w := by
  have hkey : wireType? "LedgerKey"
      = some (.summed LedgerKey.layout fun k => Summary.name k.kind) := rfl
  have hread : LedgerKey.layout.wire.decodeWhole ([0, 0, 0, 7] ++ List.replicate 32 1 ++ [0, 0, 0, 9])
      = .ok (.contractCode ⟨List.replicate 32 1, rfl⟩ .expirationExtension) := rfl
  have hother : LedgerKey.layout.wire.encode (.contractCode ⟨List.replicate 32 1, rfl⟩ .expirationExtension)
      ≠ [0, 0, 0, 7] ++ List.replicate 32 1 ++ [0, 0, 0, 9] := by decide
  intro hstrict
  exact hother ((encode_of_decodeWhole.1 hkey hread).2.2.1.mpr hstrict)

end Schema

end LedgerTx
