import LedgerTx.Proofs.Transaction.Limits
import LedgerTx.Proofs.Transaction.Payload

namespace LedgerTx

/-! # The legacy form in the current one

A transaction of the legacy form is signed as the transaction of the current form that does the same.  On
the wire the two differ in four zeros at the front only: the kind of key that the legacy form leaves out.
The flag of its time bounds is read as the kind of preconditions, and its reserved slot as the version of
contract data. -/

variable {rules : Rules} {bytes rest : List UInt8}

/-! ## Fields that differ -/

/-- After the kind of key, an account is read as its bare key. -/
theorem MuxedAccount.decode_plain {key : Bytes32} :
    layout.wire.decode rules ([0, 0, 0, 0] ++ bytes) = .ok (.plain key, rest) ↔
      (Codec.fixed 32).decode rules bytes = .ok (key, rest) := by
  have hcodec : Codec.Composed false layout.wire := codec_composed
  have hkind : (Codec.constant KeyKind).encode .ed25519 = [0, 0, 0, 0] := rfl
  have hencode : layout.wire.encode (.plain key) = [0, 0, 0, 0] ++ (Codec.fixed 32).encode key := by
    rw [← hkind]
    rfl
  rw [hcodec.decode_eq_ok_iff, Codec.fixed_decode_eq_ok, hencode, List.append_assoc,
    List.append_cancel_left_eq]
  exact and_iff_right (MuxedAccount.fits _)

/-- Preconditions are read as time bounds where the flag of optional time bounds is read. -/
theorem Preconditions.decode_ofTimeBounds {timeBounds : Option TimeBounds} :
    layout.wire.decode rules bytes = .ok (.ofTimeBounds timeBounds, rest) ↔
      (Codec.option TimeBounds.layout.wire).decode rules bytes = .ok (timeBounds, rest) := by
  have hcodec : Codec.Composed false layout.wire := hasParts.wire
  have hoption : Codec.Composed false (Codec.option TimeBounds.layout.wire) :=
    .option TimeBounds.hasParts.wire
  have hfits : layout.wire.fits rules (.ofTimeBounds timeBounds)
      = (Codec.option TimeBounds.layout.wire).fits rules timeBounds := by
    cases timeBounds with
    | none => rfl
    | some bounds => rfl
  rw [hcodec.decode_eq_ok_iff, hoption.decode_eq_ok_iff, hfits, encode_ofTimeBounds]

/-- What follows the version of contract data on the wire. -/
def TransactionVersion.codec : (version : TransactionVersion) → Codec version.Payload
  | .v0 => .unit
  | .v1 => SorobanData.layout.wire

/-- The version of contract data stands in front of the data. -/
theorem SorobanData.optionLayout_wire :
    optionLayout.wire
      = .map optionView (.sigma (.constant TransactionVersion) TransactionVersion.codec) := by
  simp only [optionLayout, Layout.map, Layout.sigma, Layout.under, Layout.version]
  refine congrArg (fun codec => Codec.map optionView (.sigma _ codec)) (funext fun version => ?_)
  cases version with
  | v0 => rfl
  | v1 => rfl

/-- Contract data is read as none where a reserved slot is read. -/
theorem SorobanData.decode_none {ext : Extension} :
    optionLayout.wire.decode rules bytes = .ok (none, rest) ↔
      Extension.layout.wire.decode rules bytes = .ok (ext, rest) := by
  have hext : Codec.Composed false Extension.layout.wire := Extension.hasParts.wire
  have hversion : Codec.Composed false (Codec.constant TransactionVersion) := .constant _
  have hencode : (Codec.constant TransactionVersion).encode .v0 = Extension.layout.wire.encode ext :=
    (List.append_nil _).symm.trans (encode_none ext)
  rw [hext.decode_eq_ok_iff, ← hencode, optionLayout_wire, Codec.map_decode_eq_ok,
    Codec.sigma_decode_eq_ok]
  constructor
  · rintro ⟨mid, htag, hunit⟩
    -- nothing follows the version if it says that there is no data
    obtain rfl := Codec.unit_decode_eq_ok.mp hunit
    exact ⟨Extension.fits ext, (hversion.decode_eq_ok_iff.mp htag).2⟩
  · rintro ⟨-, hbytes⟩
    exact ⟨rest, hversion.decode_eq_ok_iff.mpr ⟨rfl, hbytes⟩, Codec.unit_decode_eq_ok.mpr rfl⟩

/-! ## Transactions -/

/-- Two pairs are read alike if their first parts are, and then their second parts. -/
theorem Codec.pair_decode_congr {α β α' β' : Type} {first : Codec α} {second : Codec β}
    {first' : Codec α'} {second' : Codec β'} {v : α × β} {v' : α' × β'} {bytes' : List UInt8}
    (hfirst : ∀ mid, first.decode rules bytes = .ok (v.1, mid) ↔
      first'.decode rules bytes' = .ok (v'.1, mid))
    (hsecond : ∀ mid, second.decode rules mid = .ok (v.2, rest) ↔
      second'.decode rules mid = .ok (v'.2, rest)) :
    (pair first second).decode rules bytes = .ok (v, rest) ↔
      (pair first' second').decode rules bytes' = .ok (v', rest) := by
  rw [pair_decode_eq_ok, pair_decode_eq_ok]
  exact exists_congr fun mid => and_congr (hfirst mid) (hsecond mid)

namespace LegacyTransaction

/-- The same bytes are read as the legacy form and, after the kind of key, as the current form. -/
theorem decode_toTransaction {legacy : LegacyTransaction} :
    Transaction.layout.wire.decode rules ([0, 0, 0, 0] ++ bytes) = .ok (legacy.toTransaction, rest) ↔
      layout.wire.decode rules bytes = .ok (legacy, rest) := by
  refine Codec.map_decode_eq_ok.trans (Iff.trans ?_ Codec.map_decode_eq_ok.symm)
  refine Codec.pair_decode_congr (fun _ => MuxedAccount.decode_plain) fun _ => ?_
  -- the fee and the sequence number
  refine Codec.pair_decode_congr (fun _ => Iff.rfl) fun _ => ?_
  refine Codec.pair_decode_congr (fun _ => Iff.rfl) fun _ => ?_
  refine Codec.pair_decode_congr (fun _ => Preconditions.decode_ofTimeBounds) fun _ => ?_
  -- the memo and the operations
  refine Codec.pair_decode_congr (fun _ => Iff.rfl) fun _ => ?_
  exact Codec.pair_decode_congr (fun _ => Iff.rfl) fun _ => SorobanData.decode_none

/-- The same holds of bytes that are read to their end. -/
theorem decodeWhole_toTransaction {legacy : LegacyTransaction} :
    Transaction.layout.wire.decodeWhole ([0, 0, 0, 0] ++ bytes) = .ok legacy.toTransaction ↔
      layout.wire.decodeWhole bytes = .ok legacy :=
  Decoder.whole_eq_ok.trans (decode_toTransaction.trans Decoder.whole_eq_ok.symm)

/-- A transaction that was read in an envelope is read back from its own bytes. -/
theorem decodeWhole_encode_of_ofBase64 {text : String} {legacy : Signed LegacyTransaction}
    (h : Envelope.ofBase64 text = .ok (.legacy legacy)) :
    layout.wire.decodeWhole (layout.wire.encode legacy.tx) = .ok legacy.tx := by
  obtain ⟨bytes, -, hread⟩ := Codec.ofBase64_eq_ok.mp h
  have henvelope := Envelope.hasParts.wire.readable_iff.mp ⟨bytes, hread⟩
  have hsigned := (Envelope.fits_arm .legacy legacy).symm.trans henvelope
  exact hasParts.wire.decodeWhole_encode (Signed.fits_iff.mp hsigned).1

/-- The current form of a legacy transaction has the same bytes after a kind of key, and the same bytes
are read as the one and as the other.  So a legacy envelope is signed over the transaction that is in it,
and what is signed is read as the current form of that. -/
theorem signed_as_current :
    (∀ legacy : LegacyTransaction, Transaction.layout.wire.encode legacy.toTransaction
      = [0, 0, 0, 0] ++ layout.wire.encode legacy)
    ∧ (∀ (bytes : List UInt8) (legacy : LegacyTransaction),
      Transaction.layout.wire.decodeWhole ([0, 0, 0, 0] ++ bytes) = .ok legacy.toTransaction ↔
        layout.wire.decodeWhole bytes = .ok legacy)
    ∧ ∀ {text : String} {legacy : Signed LegacyTransaction},
      Envelope.ofBase64 text = .ok (.legacy legacy) →
        ∃ signed, Signed.ofBase64 text = .ok signed
          ∧ signed.tx = legacy.tx.toTransaction ∧ signed.signatures = legacy.signatures
          ∧ (∀ network, signed.signatureBase network
            = network.id.toList ++ ([0, 0, 0, 2] ++ ([0, 0, 0, 0] ++ layout.wire.encode legacy.tx)))
          ∧ Transaction.layout.wire.decodeWhole (Transaction.layout.wire.encode signed.tx)
            = .ok legacy.tx.toTransaction := by
  refine ⟨encode_toTransaction, fun bytes legacy => decodeWhole_toTransaction, ?_⟩
  intro text legacy hread
  refine ⟨⟨legacy.tx.toTransaction, legacy.signatures⟩, Signed.ofBase64_eq_ok.mpr ⟨_, hread, rfl⟩, rfl,
    rfl, fun network => ?_, ?_⟩
  -- what is signed is the current form, of which the bytes are known
  · rw [Signed.signatureBase_transaction, encode_toTransaction]
  · rw [encode_toTransaction]
    exact decodeWhole_toTransaction.mpr (decodeWhole_encode_of_ofBase64 hread)

/-- A legacy transaction with time bounds and a memo, already signed once. -/
theorem signed_as_current_bounded :
    let tx : LegacyTransaction :=
      ⟨⟨List.replicate 32 4, rfl⟩, 100, 1, some ⟨1, 2⟩, .text "lifted", [.ofBody .inflation], .v0⟩
    let legacy : Signed LegacyTransaction := ⟨tx, [⟨⟨[1, 2, 3, 4], rfl⟩, [5]⟩]⟩
    Envelope.ofBase64 (Envelope.legacy legacy).toBase64 = .ok (.legacy legacy)
      ∧ ∃ signed, Signed.ofBase64 (Envelope.legacy legacy).toBase64 = .ok signed
        ∧ signed.tx = tx.toTransaction ∧ signed.signatures = legacy.signatures
        ∧ (∀ network, signed.signatureBase network
          = network.id.toList ++ ([0, 0, 0, 2] ++ ([0, 0, 0, 0] ++ layout.wire.encode tx)))
        ∧ Transaction.layout.wire.decodeWhole (Transaction.layout.wire.encode signed.tx)
          = .ok tx.toTransaction := by
  intro tx legacy
  have hread := Envelope.hasParts.wire.ofBase64_toBase64 (v := .legacy legacy) rfl
  exact ⟨hread, signed_as_current.2.2 hread⟩

end LegacyTransaction

end LedgerTx
