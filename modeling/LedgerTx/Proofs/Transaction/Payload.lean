import LedgerTx.Proofs.Schema.Types
import LedgerTx.Proofs.Transaction.Envelope
import LedgerTx.Transaction.Signed

namespace LedgerTx

/-! # What signatures cover

The bytes that are signed are written from the transaction that was read, not taken from the input.  They
are the input's own bytes exactly if all kinds of ledger keys in it are known. -/

/-! ## Bytes of envelopes -/

namespace Envelope

/-- Whether all kinds of ledger keys in the bytes of an envelope are known. -/
def KnownKinds (bytes : List UInt8) : Prop :=
  ∃ envelope, Decoder.whole (layout.wire.decode .strict) bytes = .ok envelope

/-- Where the bytes of an envelope hold what is signed: after the kind of the envelope, and before the
signatures. -/
structure Splits {τ : Type} (tx : Layout τ) (signed : Signed τ) (kind body bytes : List UInt8) : Prop where
  bytes_eq : bytes = kind ++ (body ++ Signed.signaturesCodec.encode signed.signatures)
  /-- The body is what is read as the transaction. -/
  decode_eq : tx.wire.decode .standard (body ++ Signed.signaturesCodec.encode signed.signatures)
    = .ok (signed.tx, Signed.signaturesCodec.encode signed.signatures)

variable {τ : Type} {tx : Layout τ} {signed : Signed τ} {kind body rest bytes : List UInt8}
  {envelope : Envelope}

/-- Bytes that are signed are those of the input exactly if all kinds in the input are known, and as many
in any case. -/
structure Covers (bytes signed own : List UInt8) : Prop where
  length_eq : signed.length = own.length
  eq_iff : signed = own ↔ KnownKinds bytes

/-- What follows the kind of an envelope splits into what is signed and the signatures. -/
theorem exists_splits (htx : Codec.Composed true tx.wire)
    (h : (Signed.layout tx).wire.decode .standard rest = .ok (signed, [])) (kind : List UInt8) :
    ∃ body, Splits tx signed kind body (kind ++ rest) := by
  rcases Signed.decode_eq_ok.mp h with ⟨mid, hbody, hsignatures⟩
  -- signatures are strict, so their bytes are their own
  have hmid : mid = Signed.signaturesCodec.encode signed.signatures := by
    have hbytes := Signed.signaturesCodec_composed.bytes_eq_encode_append (Or.inl rfl) hsignatures
    rw [List.append_nil] at hbytes
    exact hbytes
  rcases htx.rest_suffix hbody with ⟨body, rfl⟩
  rw [hmid] at hbody ⊢
  exact ⟨body, rfl, hbody⟩

/-- Whatever stands before it, what is signed covers the input's own bytes of it. -/
theorem Splits.covers (hsplits : Splits tx signed kind body bytes)
    (hread : layout.wire.decodeWhole bytes = .ok envelope)
    (hwrite : layout.wire.encode envelope = kind ++ (Signed.layout tx).wire.encode signed)
    (front : List UInt8) : Covers bytes (front ++ tx.wire.encode signed.tx) (front ++ body) := by
  rw [Signed.encode_eq] at hwrite
  constructor
  · have hlength := (hasParts.wire.length_and_decodeWhole_encode hread).1
    rw [hwrite, hsplits.bytes_eq] at hlength
    simp only [List.length_append] at hlength ⊢
    omega
  -- the kind and the signatures are the same in any case
  · have hiff := hasParts.wire.encode_eq_iff hread
    rw [hwrite] at hiff
    unfold KnownKinds
    rw [← hiff, hsplits.bytes_eq, List.append_cancel_left_eq, List.append_cancel_left_eq,
      List.append_cancel_right_eq]

end Envelope

/-! ## Bytes that are signed -/

namespace Transaction

/-- A transaction that revokes the sponsorship of an account. -/
def revoking : Transaction where
  source := .plain ⟨List.replicate 32 1, rfl⟩
  fee := 100
  sequence := 1
  preconditions := .none
  memo := .none
  operations := [.ofBody (.revokeSponsorship (.ledgerEntry (.account ⟨⟨List.replicate 32 2, rfl⟩⟩)))]
  sorobanData := none

/-- The bytes of the transaction, with another kind of ledger key in place of that of accounts. -/
def revokingBytes (kind : UInt8) : List UInt8 :=
  [0, 0, 0, 0] ++ List.replicate 32 1 ++ [0, 0, 0, 100] ++ [0, 0, 0, 0, 0, 0, 0, 1] ++ [0, 0, 0, 0]
    ++ [0, 0, 0, 0] ++ [0, 0, 0, 1] ++ [0, 0, 0, 0] ++ [0, 0, 0, 18] ++ [0, 0, 0, 0] ++ [0, 0, 0, kind]
    ++ [0, 0, 0, 0] ++ List.replicate 32 2 ++ [0, 0, 0, 0]

end Transaction

namespace Signed

open Transaction

/-- A transaction is signed behind the network's id and its kind. -/
theorem signatureBase_transaction (signed : Signed Transaction) (network : Network) :
    signed.signatureBase network
      = network.id.toList ++ ([0, 0, 0, 2] ++ Transaction.layout.wire.encode signed.tx) := by
  have hkind : (Codec.constant EnvelopeKind).encode .transaction = [0, 0, 0, 2] := rfl
  show network.id.toList ++ ((Codec.constant EnvelopeKind).encode .transaction ++ _) = _
  rw [hkind]
  rfl

/-- A fee bump is signed likewise, with its own kind. -/
theorem signatureBase_feeBump (signed : Signed FeeBump) (network : Network) :
    signed.signatureBase network
      = network.id.toList ++ ([0, 0, 0, 5] ++ FeeBump.layout.wire.encode signed.tx) := by
  have hkind : (Codec.constant EnvelopeKind).encode .feeBump = [0, 0, 0, 5] := rfl
  show network.id.toList ++ ((Codec.constant EnvelopeKind).encode .feeBump ++ _) = _
  rw [hkind]
  rfl

/-- An envelope is read from the base64 of its bytes, and the bytes that are signed are the network, the
kind and the input's own bytes exactly if all kinds of ledger keys in it are known.  The legacy form is
signed in the current one. -/
theorem signatureBase_covers (network : Network) (bytes : List UInt8) :
    (∀ {signed}, Envelope.layout.wire.decodeWhole bytes = .ok (.transaction signed) →
      ofBase64 (String.ofList (Base64.encode bytes)) = .ok signed
        ∧ ∃ body, Envelope.Splits Transaction.layout signed [0, 0, 0, 2] body bytes
          ∧ Envelope.Covers bytes (signed.signatureBase network)
              (network.id.toList ++ ([0, 0, 0, 2] ++ body)))
    ∧ (∀ {legacy}, Envelope.layout.wire.decodeWhole bytes = .ok (.legacy legacy) →
      ∃ signed, ofBase64 (String.ofList (Base64.encode bytes)) = .ok signed
        ∧ ∃ body, Envelope.Splits LegacyTransaction.layout legacy [0, 0, 0, 0] body bytes
          ∧ Envelope.Covers bytes (signed.signatureBase network)
              (network.id.toList ++ ([0, 0, 0, 2] ++ ([0, 0, 0, 0] ++ body))))
    ∧ ∀ {signed}, Envelope.layout.wire.decodeWhole bytes = .ok (.feeBump signed) →
      bumpOfBase64 (String.ofList (Base64.encode bytes)) = .ok signed
        ∧ ∃ body, Envelope.Splits FeeBump.layout signed [0, 0, 0, 5] body bytes
          ∧ Envelope.Covers bytes (signed.signatureBase network)
              (network.id.toList ++ ([0, 0, 0, 5] ++ body)) := by
  refine ⟨fun {signed} hread => ?_, fun {legacy} hread => ?_, fun {signed} hread => ?_⟩
  -- the current form: what is signed is the network and the bytes before the signatures
  · have htext := ofBase64_eq_ok.mpr ⟨_, Codec.ofBase64_encode.mpr hread, rfl⟩
    rcases Envelope.decode_arm .transaction hread with ⟨rest, rfl, hrest⟩
    rcases Envelope.exists_splits Transaction.hasParts.wire hrest [0, 0, 0, 2] with ⟨body, hsplits⟩
    have hcovers := hsplits.covers hread (Envelope.encode_arm .transaction signed)
      (network.id.toList ++ [0, 0, 0, 2])
    rw [List.append_assoc, List.append_assoc, ← signatureBase_transaction] at hcovers
    exact ⟨htext, body, hsplits, hcovers⟩
  -- the legacy form: the kind of key of the source comes before its bytes
  · have htext := ofBase64_eq_ok.mpr ⟨_, Codec.ofBase64_encode.mpr hread, rfl⟩
    rcases Envelope.decode_arm .legacy hread with ⟨rest, rfl, hrest⟩
    rcases Envelope.exists_splits LegacyTransaction.hasParts.wire hrest [0, 0, 0, 0] with ⟨body, hsplits⟩
    have hcovers := hsplits.covers hread (Envelope.encode_arm .legacy legacy)
      (network.id.toList ++ ([0, 0, 0, 2] ++ [0, 0, 0, 0]))
    simp only [List.append_assoc, ← LegacyTransaction.encode_toTransaction] at hcovers
    refine ⟨⟨legacy.tx.toTransaction, legacy.signatures⟩, htext, body, hsplits, ?_⟩
    rw [signatureBase_transaction]
    exact hcovers
  -- the fee bump, with its own kind
  · have htext := bumpOfBase64_eq_ok.mpr (Codec.ofBase64_encode.mpr hread)
    rcases Envelope.decode_arm .feeBump hread with ⟨rest, rfl, hrest⟩
    rcases Envelope.exists_splits FeeBump.hasParts.wire hrest [0, 0, 0, 5] with ⟨body, hsplits⟩
    have hcovers := hsplits.covers hread (Envelope.encode_arm .feeBump signed)
      (network.id.toList ++ [0, 0, 0, 5])
    rw [List.append_assoc, List.append_assoc, ← signatureBase_feeBump] at hcovers
    exact ⟨htext, body, hsplits, hcovers⟩

/-- A key of the kind of accounts is signed as it was read; the legacy form of a transaction and a fee
bump are read too. -/
theorem signatureBase_covers_revoking :
    let legacy : Signed LegacyTransaction :=
      .unsigned ⟨⟨List.replicate 32 1, rfl⟩, 100, 1, none, .none, revoking.operations, .v0⟩
    let bump : Signed FeeBump := .unsigned ⟨revoking.source, 200, .unsigned revoking, .v0⟩
    (∃ body, Envelope.Splits Transaction.layout (.unsigned revoking) [0, 0, 0, 2] body
        ([0, 0, 0, 2] ++ (revokingBytes 0 ++ [0, 0, 0, 0]))
      ∧ (unsigned revoking).signatureBase .mainNet
        = Network.mainNet.id.toList ++ ([0, 0, 0, 2] ++ body))
    ∧ (∃ signed, ofBase64 (Envelope.legacy legacy).toBase64 = .ok signed)
    ∧ bumpOfBase64 (Envelope.feeBump bump).toBase64 = .ok bump := by
  intro legacy bump
  have hread : Envelope.layout.wire.decodeWhole ([0, 0, 0, 2] ++ (revokingBytes 0 ++ [0, 0, 0, 0]))
      = .ok (.transaction (.unsigned revoking)) := rfl
  have hlegacy := Envelope.hasParts.wire.decodeWhole_encode (v := .legacy legacy) rfl
  have hbump := Envelope.hasParts.wire.decodeWhole_encode (v := .feeBump bump) rfl
  refine ⟨?_, ?_, ((signatureBase_covers .mainNet _).2.2 hbump).1⟩
  · rcases ((signatureBase_covers .mainNet _).1 hread).2 with ⟨body, hsplits, hcovers⟩
    exact ⟨body, hsplits, hcovers.eq_iff.mpr ⟨_, rfl⟩⟩
  · rcases (signatureBase_covers .mainNet _).2.1 hlegacy with ⟨signed, htext, -⟩
    exact ⟨signed, htext⟩

/-- A key of an unknown kind is read as that of an account, and signed as such. -/
theorem signatureBase_revoking_ne :
    Envelope.layout.wire.decodeWhole ([0, 0, 0, 2] ++ (revokingBytes 9 ++ [0, 0, 0, 0]))
        = .ok (.transaction (.unsigned revoking))
      ∧ ofBase64 (String.ofList (Base64.encode ([0, 0, 0, 2] ++ (revokingBytes 9 ++ [0, 0, 0, 0]))))
        = .ok (.unsigned revoking)
      ∧ ∀ network, (unsigned revoking).signatureBase network
        ≠ network.id.toList ++ ([0, 0, 0, 2] ++ revokingBytes 9) := by
  have hread : Envelope.layout.wire.decodeWhole ([0, 0, 0, 2] ++ (revokingBytes 9 ++ [0, 0, 0, 0]))
      = .ok (.transaction (.unsigned revoking)) := rfl
  have htext := ofBase64_eq_ok.mpr ⟨_, Codec.ofBase64_encode.mpr hread, rfl⟩
  have hwrite : Transaction.layout.wire.encode revoking = revokingBytes 0 := rfl
  refine ⟨hread, htext, fun network heq => ?_⟩
  -- behind the network and the kind, the bytes differ in the kind of the key
  rw [signatureBase_transaction, List.append_cancel_left_eq, List.append_cancel_left_eq,
    Signed.unsigned, hwrite] at heq
  revert heq
  decide

end Signed

/-! ## Different payloads -/

/-- What is hashed can be told from its bytes, however long its strings and lists are, as long as four
bytes can count them. -/
theorem payload_injective :
    (∀ {payload payload' : SignaturePayload}, Subject.codec.fits .unlimited payload.subject = true →
      Subject.codec.fits .unlimited payload'.subject = true →
      SignaturePayload.codec.encode payload = SignaturePayload.codec.encode payload' →
        payload.networkId = payload'.networkId ∧ payload.subject = payload'.subject)
    ∧ (∀ {τ τ' : Type} [Signable τ] [Signable τ'] {signed : Signed τ} {signed' : Signed τ'}
        {network network' : Network}, Subject.codec.fits .unlimited (Signable.subject signed.tx) = true →
      Subject.codec.fits .unlimited (Signable.subject signed'.tx) = true →
      signed.signatureBase network = signed'.signatureBase network' →
        network.id = network'.id ∧ Signable.subject signed.tx = Signable.subject signed'.tx)
    ∧ ∀ {preimage preimage' : HashPreimage}, HashPreimage.codec.fits .unlimited preimage = true →
      HashPreimage.codec.fits .unlimited preimage' = true →
      HashPreimage.codec.encode preimage = HashPreimage.codec.encode preimage' → preimage = preimage' := by
  have hpayload : ∀ {payload payload' : SignaturePayload},
      Subject.codec.fits .unlimited payload.subject = true →
      Subject.codec.fits .unlimited payload'.subject = true →
      SignaturePayload.codec.encode payload = SignaturePayload.codec.encode payload' → payload = payload' :=
    fun hfits hfits' heq => SignaturePayload.codec_composed.encode_inj hfits hfits' heq
  refine ⟨fun hfits hfits' heq => ?_, fun hfits hfits' heq => ?_, fun hfits hfits' heq => ?_⟩
  · rw [hpayload hfits hfits' heq]
    -- network and subject are the fields of the payload
    exact ⟨rfl, rfl⟩
  · exact SignaturePayload.mk.inj (hpayload hfits hfits' heq)
  -- the preimages of ids and authorizations are told by their kind
  · have hpreimage : Codec.Composed false HashPreimage.codec := HashPreimage.codec_composed
    exact hpreimage.encode_inj hfits hfits' heq

/-- A memo that is too long to be read is told apart like any other; signatures are not part of what is
signed. -/
theorem payload_injective_longMemo :
    let long : Transaction :=
      { Transaction.revoking with memo := .text (String.ofList (List.replicate 29 'a')) }
    let zeros : Bytes32 := ⟨List.replicate 32 0, rfl⟩
    let ones : Bytes32 := ⟨List.replicate 32 1, rfl⟩
    let signed : Signed Transaction := ⟨long, [⟨⟨[0, 0, 0, 0], rfl⟩, []⟩]⟩
    let preimage : HashPreimage := .contractId ⟨zeros, .fromAsset .native⟩
    let preimage' : HashPreimage := .contractId ⟨.ofListPadded 32 [], .fromAsset .native⟩
    Transaction.layout.wire.fits .standard long = false
      ∧ SignaturePayload.codec.encode ⟨zeros, .transaction long⟩
        ≠ SignaturePayload.codec.encode ⟨ones, .transaction long⟩
      ∧ (zeros = .ofListPadded 32 [] ∧ Subject.transaction long = .transaction signed.tx)
      ∧ (Network.mainNet.id = Network.mainNet.id
        ∧ Signable.subject signed.tx = Signable.subject (Signed.unsigned long).tx)
      ∧ preimage = preimage' := by
  intro long zeros ones signed preimage preimage'
  have hfits : Subject.codec.fits .unlimited (.transaction long) = true := rfl
  have hpayload : SignaturePayload.codec.encode ⟨zeros, .transaction long⟩
      = SignaturePayload.codec.encode ⟨.ofListPadded 32 [], .transaction signed.tx⟩ := rfl
  have hbase : signed.signatureBase .mainNet = (Signed.unsigned long).signatureBase .mainNet := rfl
  have hpreimage : HashPreimage.codec.encode preimage = HashPreimage.codec.encode preimage' := rfl
  refine ⟨rfl, fun heq => ?_, ?_, ?_, ?_⟩
  · have hids : zeros = ones := (payload_injective.1 hfits hfits heq).1
    revert hids
    decide
  · exact payload_injective.1 hfits hfits hpayload
  · exact payload_injective.2.1 hfits hfits hbase
  · exact payload_injective.2.2 rfl rfl hpreimage

end LedgerTx
