import LedgerTx.Proofs.Schema.Types
import LedgerTx.Proofs.Wire.Repeated

namespace LedgerTx

/-! # Reading wire types always advances

What is read takes whole groups of four bytes, one at least, so a list reads no more values than the input
can hold, whatever its count says, and a recursive type goes no deeper. -/

/-! ## Hashed data -/

/-- What is signed has a tag of four bytes, and the rest is aligned. -/
theorem Subject.codec_aligned : Codec.Aligned codec := by
  refine .map (.sigma .arms fun arm => ?_) _
  cases arm with
  | transaction => exact Transaction.hasParts.aligned
  | feeBump => exact FeeBump.hasParts.aligned

theorem SignaturePayload.codec_aligned : Codec.Aligned codec :=
  .map (.pair .fixed32 Subject.codec_aligned) _

theorem AuthorizationPreimage.codec_aligned : Codec.Aligned codec :=
  .map (.pair .fixed32 (.pair .int64 (.pair .uint32 Contract.Invocation.hasParts.aligned))) _

theorem ContractIdPreimage.codec_aligned : Codec.Aligned codec :=
  .map (.pair .fixed32 Contract.IdSource.hasParts.aligned) _

theorem HashPreimage.codec_aligned : Codec.Aligned codec := by
  refine .map (.sigma .arms fun arm => ?_) _
  cases arm with
  | contractId => exact ContractIdPreimage.codec_aligned
  | authorization => exact AuthorizationPreimage.codec_aligned

namespace Schema

/-! ## The table -/

/-- Numbers and bytes of a fixed size, of which all sizes in the table are multiples of four. -/
theorem scalarTypes_aligned : ∀ entry ∈ scalarTypes, Codec.Aligned entry.2.codec := by
  simp only [scalarTypes, List.forall_mem_cons]
  exact ⟨.uint32, .int32, .uint64, .int64, .bool, .fixed4, .fixed12, .fixed32,
    fun entry h => absurd h List.not_mem_nil⟩

theorem accountTypes_aligned : ∀ entry ∈ accountTypes, Codec.Aligned entry.2.codec := by
  simp only [accountTypes, List.forall_mem_cons]
  exact ⟨AccountId.hasParts.aligned, MuxedAccount.hasParts.aligned, SignerKey.hasParts.aligned,
    AccountSigner.hasParts.aligned, DecoratedSignature.hasParts.aligned,
    fun entry h => absurd h List.not_mem_nil⟩

theorem assetTypes_aligned : ∀ entry ∈ assetTypes, Codec.Aligned entry.2.codec := by
  simp only [assetTypes, List.forall_mem_cons]
  exact ⟨CreditAsset.codec_aligned .fixed4, CreditAsset.codec_aligned .fixed12, Asset.hasParts.aligned,
    TrustLineAsset.hasParts.aligned, PoolParameters.hasParts.aligned, ChangeTrustAsset.hasParts.aligned,
    AssetCode.hasParts.aligned, Price.hasParts.aligned, fun entry h => absurd h List.not_mem_nil⟩

open Contract in
/-- Contract values and ledger keys. -/
theorem valueTypes_aligned : ∀ entry ∈ valueTypes, Codec.Aligned entry.2.codec := by
  simp only [valueTypes, List.forall_mem_cons]
  exact ⟨Error.hasParts.aligned, Address.hasParts.aligned, Executable.hasParts.aligned,
    UInt128.hasParts.aligned, Int128.hasParts.aligned, UInt256.hasParts.aligned, Int256.hasParts.aligned,
    Value.hasParts.aligned, (Entry.hasParts Value.hasParts).aligned,
    (Instance.hasParts Value.hasParts).aligned, BalanceId.hasParts.aligned, LedgerKey.hasParts.aligned,
    fun entry h => absurd h List.not_mem_nil⟩

/-- Operations and what they hold. -/
theorem operationTypes_aligned : ∀ entry ∈ operationTypes, Codec.Aligned entry.2.codec := by
  simp only [operationTypes, List.forall_mem_cons]
  exact ⟨Predicate.hasParts.aligned, Predicate.hasParts.aligned, Claimant.hasParts.aligned,
    CreateAccount.hasParts.aligned, Payment.hasParts.aligned, PathPaymentReceive.hasParts.aligned,
    PathPaymentSend.hasParts.aligned, ManageSellOffer.hasParts.aligned, ManageBuyOffer.hasParts.aligned,
    CreatePassiveOffer.hasParts.aligned, SetOptions.hasParts.aligned, ChangeTrust.hasParts.aligned,
    AllowTrust.hasParts.aligned, ManageData.hasParts.aligned, BumpSequence.hasParts.aligned,
    CreateClaimableBalance.hasParts.aligned, ClaimClaimableBalance.hasParts.aligned,
    BeginSponsoring.hasParts.aligned, RevokeSponsorship.hasParts.aligned, Clawback.hasParts.aligned,
    ClawbackClaimableBalance.hasParts.aligned, SetTrustLineFlags.hasParts.aligned,
    PoolDeposit.hasParts.aligned, PoolWithdraw.hasParts.aligned, Contract.HostCall.hasParts.aligned,
    BumpFootprintExpiration.hasParts.aligned, RestoreFootprint.hasParts.aligned,
    OperationBody.hasParts.aligned, Operation.hasParts.aligned, fun entry h => absurd h List.not_mem_nil⟩

/-- Calls, authorizations and resources. -/
theorem contractTypes_aligned : ∀ entry ∈ contractTypes, Codec.Aligned entry.2.codec := by
  simp only [contractTypes, List.forall_mem_cons]
  exact ⟨Extension.hasParts.aligned, Contract.IdSource.hasParts.aligned, Contract.Creation.hasParts.aligned,
    Contract.HostFunction.hasParts.aligned, Contract.Function.hasParts.aligned,
    Contract.Invocation.hasParts.aligned, Contract.Credentials.hasParts.aligned,
    Contract.Authorization.hasParts.aligned, Footprint.hasParts.aligned, Resources.hasParts.aligned,
    SorobanData.hasParts.aligned, HashPreimage.codec_aligned, fun entry h => absurd h List.not_mem_nil⟩

/-- Transactions, envelopes and what is hashed of them. -/
theorem transactionTypes_aligned : ∀ entry ∈ transactionTypes, Codec.Aligned entry.2.codec := by
  simp only [transactionTypes, List.forall_mem_cons]
  exact ⟨Memo.hasParts.aligned, TimeBounds.hasParts.aligned, LedgerBounds.hasParts.aligned,
    Conditions.hasParts.aligned, Preconditions.hasParts.aligned, SorobanData.optionHasParts.aligned,
    Transaction.hasParts.aligned, LegacyTransaction.hasParts.aligned,
    (Signed.hasParts LegacyTransaction.hasParts).aligned, (Signed.hasParts Transaction.hasParts).aligned,
    FeeBump.innerHasParts.aligned, FeeBump.hasParts.aligned, (Signed.hasParts FeeBump.hasParts).aligned,
    Envelope.hasParts.aligned, Subject.codec_aligned, SignaturePayload.codec_aligned,
    fun entry h => absurd h List.not_mem_nil⟩

/-- Constants, which are numbers of four bytes. -/
theorem constantTypes_aligned : ∀ entry ∈ constantTypes, Codec.Aligned entry.2.codec := by
  simp only [constantTypes, List.forall_mem_cons]
  have h : ∀ (κ : Type) [Enumeration κ], Codec.Aligned (.constant κ) := fun _ _ => .constant
  exact ⟨h OperationKind, h EnvelopeKind, h KeyKind, h PublicKeyKind, h AssetKind, h PoolKind, h MemoKind,
    h PreconditionKind, h PredicateKind, h ClaimantKind, h RevokeKind, h BalanceIdKind, h LedgerKeyKind,
    h Durability, h BodyKind, h Contract.ValueKind, h Contract.ErrorKind, h Contract.AddressKind,
    h Contract.ExecutableKind, h Contract.HostFunctionKind, h Contract.IdSourceKind,
    h Contract.FunctionKind, h Contract.CredentialsKind, fun entry h => absurd h List.not_mem_nil⟩

/-- All types of the schema come in groups of four bytes. -/
theorem wireTypes_aligned : ∀ entry ∈ wireTypes, Codec.Aligned entry.2.codec := by
  intro entry h
  simp only [wireTypes, List.mem_append] at h
  -- the table is eight tables in a row
  rcases h with ((((((h | h) | h) | h) | h) | h) | h) | h
  · exact scalarTypes_aligned entry h
  · exact accountTypes_aligned entry h
  · exact assetTypes_aligned entry h
  · exact valueTypes_aligned entry h
  · exact operationTypes_aligned entry h
  · exact contractTypes_aligned entry h
  · exact transactionTypes_aligned entry h
  · exact constantTypes_aligned entry h

/-- No type is read from nothing. -/
theorem wireTypes_decode_nil :
    ∀ entry ∈ wireTypes, (entry.2.codec.decode .standard []).isOk = false := by
  decide +kernel

/-! ## Every type -/

variable {name : String} {type : WireType}

/-- What is not read from nothing takes a whole group. -/
theorem takes_four_of_wireType? (h : wireType? name = some type) :
    Takes 4 (type.codec.decode .standard) := by
  have hmem := mem_wireTypes_of_wireType? h
  refine (lawful_of_wireType? h).takes_four (wireTypes_aligned _ hmem) fun r hread => ?_
  have hnone := wireTypes_decode_nil _ hmem
  rw [hread] at hnone
  cases hnone

/-- A value that is read takes as many bytes as its own encoding, which are groups of four, one at least,
and are there.  So whatever count stands before a list, its values are read or tried at most once more
than what is left has groups, and a list that is read has at most as many values as there are groups.
Recursive types are read by their steps, no deeper than the bytes can fill. -/
theorem decode_advances :
    (∀ {name : String} {type : WireType}, wireType? name = some type →
      (∀ {bytes v rest}, type.codec.decode .standard bytes = .ok (v, rest) →
        rest <:+ bytes ∧ bytes.length = (type.codec.encode v).length + rest.length
          ∧ 4 ∣ (type.codec.encode v).length ∧ 4 ≤ (type.codec.encode v).length)
      ∧ ∀ {max : Nat} {bytes : List UInt8} {count : Nat} {mid : List UInt8},
          (Codec.count "array" max).decode .standard bytes = .ok (count, mid) →
            (Codec.list max type.codec).decode .standard bytes
                = (Decoder.repeatedCounted (type.codec.decode .standard) count mid).2
              ∧ (Decoder.repeatedCounted (type.codec.decode .standard) count mid).1 ≤ mid.length / 4 + 1
              ∧ ∀ {vs rest}, (Codec.list max type.codec).decode .standard bytes = .ok (vs, rest) →
                  vs.length = count ∧ count ≤ mid.length / 4)
    ∧ Layout.Unfolds Contract.Value.step Contract.Value.layout
    ∧ Layout.Unfolds Predicate.step Predicate.layout
    ∧ Layout.Unfolds Contract.Invocation.step Contract.Invocation.layout := by
  refine ⟨fun {name type} h => ⟨?_, ?_⟩, Contract.Value.recursion.unfolds,
    Predicate.recursion.unfolds_upTo _ _, Contract.Invocation.recursion.unfolds⟩
  · intro bytes v rest hread
    have hlength := ((lawful_of_wireType? h).fits_and_length hread).2
    obtain ⟨hsuffix, hfour⟩ := takes_four_of_wireType? h hread
    exact ⟨hsuffix, hlength, (wireTypes_aligned _ (mem_wireTypes_of_wireType? h)).dvd_length v, by omega⟩
  · intro max bytes count mid hcount
    have htakes := takes_four_of_wireType? h
    -- once the count is known, the values are read one after the other
    have hlist : (Codec.list max type.codec).decode .standard bytes
        = Decoder.repeated (type.codec.decode .standard) count mid := by
      show ((Codec.count "array" max).decode .standard bytes >>= _) = _
      rw [hcount]
      rfl
    refine ⟨?_, Decoder.repeatedCounted_fst_le htakes count mid, fun {vs rest} hread => ?_⟩
    · rw [hlist, Decoder.repeatedCounted_snd]
    · rw [hlist] at hread
      exact ⟨Codec.length_of_repeated_eq_ok hread, Decoder.count_le_of_repeated htakes hread⟩

/-- A list that claims to have as many values as a count can say, with two words behind its count. -/
theorem decode_advances_maxCount :
    (Decoder.repeatedCounted (Contract.Value.layout.wire.decode .standard) 4294967295
      [0, 0, 0, 1, 0, 0, 0, 1]).1 ≤ 3 := by
  have hvalue : wireType? "ScVal"
      = some (.summed Contract.Value.layout fun v => Summary.name v.kind) := rfl
  have hcount : (Codec.count "array" Layout.unbounded).decode .standard
      [255, 255, 255, 255, 0, 0, 0, 1, 0, 0, 0, 1] = .ok (4294967295, [0, 0, 0, 1, 0, 0, 0, 1]) := rfl
  exact ((decode_advances.1 hvalue).2 hcount).2.1

end Schema

end LedgerTx
