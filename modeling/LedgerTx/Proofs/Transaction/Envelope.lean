import LedgerTx.Proofs.Parts.Transaction
import LedgerTx.Proofs.Wire.Text
import LedgerTx.Transaction.Text

namespace LedgerTx

/-! # Envelopes on the wire

An envelope is its kind, what is signed, and the signatures, one after the other. -/

/-! ## Kinds and signatures -/

/-- How signatures stand in an envelope. -/
def Signed.signaturesCodec : Codec (List DecoratedSignature) :=
  .list maxSignatures DecoratedSignature.layout.wire

theorem Signed.signaturesCodec_composed : Codec.Composed false signaturesCodec :=
  .list _ DecoratedSignature.hasParts.wire

variable {τ : Type} {tx : Layout τ} {signed : Signed τ} {rules : Rules} {bytes rest : List UInt8}

theorem Signed.encode_eq :
    (layout tx).wire.encode signed
      = tx.wire.encode signed.tx ++ signaturesCodec.encode signed.signatures := rfl

theorem Signed.fits_iff :
    (layout tx).wire.fits rules signed = true ↔
      tx.wire.fits rules signed.tx = true ∧ signaturesCodec.fits rules signed.signatures = true :=
  Bool.and_eq_true_iff

/-- What is signed is read first, and the signatures from what is left. -/
theorem Signed.decode_eq_ok :
    (layout tx).wire.decode rules bytes = .ok (signed, rest) ↔
      ∃ mid, tx.wire.decode rules bytes = .ok (signed.tx, mid)
        ∧ signaturesCodec.decode rules mid = .ok (signed.signatures, rest) :=
  Codec.map_decode_eq_ok.trans Codec.pair_decode_eq_ok

namespace Envelope

/-- What follows the kind of an envelope. -/
def Arm.codec : (arm : Arm) → Codec arm.Payload
  | .legacy => (Signed.layout LegacyTransaction.layout).wire
  | .transaction => (Signed.layout Transaction.layout).wire
  | .feeBump => (Signed.layout FeeBump.layout).wire

/-- On the wire the kind stands in front of its payload. -/
theorem layout_wire :
    layout.wire = .map view (.sigma (.arms "TransactionEnvelope" Arm.kind Arm.ofKind?) Arm.codec) := by
  simp only [layout, Layout.map, Layout.sigma, Layout.under, Layout.arms]
  refine congrArg (fun codec => Codec.map view (.sigma _ codec)) (funext fun arm => ?_)
  cases arm with
  | legacy => rfl
  | transaction => rfl
  | feeBump => rfl

/-- An envelope is read as its arm says. -/
theorem decode_arm (arm : Arm) {payload : arm.Payload}
    (h : layout.wire.decodeWhole bytes = .ok (view.back ⟨arm, payload⟩)) :
    ∃ rest, bytes = (Codec.constant EnvelopeKind).encode arm.kind ++ rest
      ∧ arm.codec.decode .standard rest = .ok (payload, []) := by
  replace h := Decoder.whole_eq_ok.mp h
  rw [layout_wire, Codec.map_decode_eq_ok, view.forth_back, Codec.sigma_decode_eq_ok] at h
  rcases h with ⟨rest, harm, hpayload⟩
  rcases Codec.arms_decode_eq_ok.mp harm with ⟨kind, hkind, hsome⟩
  -- each kind has one arm
  have heq : arm.kind = kind := by
    cases kind <;> cases hsome <;> rfl
  rcases Codec.constant_decode_eq_ok.mp hkind with ⟨-, hbytes⟩
  exact ⟨rest, by rw [heq]; exact hbytes, hpayload⟩

/-- An envelope is written as its arm says. -/
theorem encode_arm (arm : Arm) (payload : arm.Payload) :
    layout.wire.encode (view.back ⟨arm, payload⟩)
      = (Codec.constant EnvelopeKind).encode arm.kind ++ arm.codec.encode payload := by
  rw [layout_wire]
  show (Codec.sigma _ Arm.codec).encode (view.forth (view.back ⟨arm, payload⟩)) = _
  rw [view.forth_back]
  rfl

/-- The kind of an envelope has no limits. -/
theorem fits_arm (arm : Arm) (payload : arm.Payload) :
    layout.wire.fits rules (view.back ⟨arm, payload⟩) = arm.codec.fits rules payload := by
  rw [layout_wire]
  show (true && (Arm.codec (view.forth (view.back ⟨arm, payload⟩)).1).fits rules _) = _
  rw [view.forth_back]
  exact Bool.true_and _

end Envelope

/-! ## Fee bumps -/

/-- A fee bump holds the bytes of an envelope as they are. -/
theorem FeeBump.encode_eq (bump : FeeBump) :
    layout.wire.encode bump = MuxedAccount.layout.wire.encode bump.feeSource
      ++ (Codec.int64.encode bump.fee
        ++ (Envelope.layout.wire.encode (.transaction bump.inner) ++ [0, 0, 0, 0])) := by
  have hinner : innerLayout.wire.encode bump.inner
      = Envelope.layout.wire.encode (.transaction bump.inner) :=
    (Envelope.encode_arm .transaction bump.inner).symm
  -- there is one version of the extension, which is four zeros
  have hext : Extension.layout.wire.encode bump.ext = [0, 0, 0, 0] := by
    cases bump.ext
    rfl
  rw [← hinner, ← hext]
  rfl

/-! ## Signed transactions as text -/

namespace Signed

variable {text : String}

/-- A transaction is read from an envelope of either form. -/
theorem ofBase64_eq_ok {signed : Signed Transaction} :
    ofBase64 text = .ok signed ↔
      ∃ envelope, Envelope.ofBase64 text = .ok envelope ∧ ofEnvelope envelope = .ok signed := by
  constructor
  · intro h
    rcases Except.bind_eq_ok.mp h with ⟨envelope, henvelope, h⟩
    exact ⟨envelope, henvelope, Except.mapError_eq_ok.mp (Except.mapError_eq_ok.mp h)⟩
  · rintro ⟨envelope, henvelope, h⟩
    -- errors are only wrapped, so results are the same
    refine Except.bind_eq_ok.mpr ⟨envelope, henvelope, ?_⟩
    exact Except.mapError_eq_ok.mpr (Except.mapError_eq_ok.mpr h)

/-- A fee bump is read from an envelope of its own kind only. -/
theorem bumpOfBase64_eq_ok {signed : Signed FeeBump} :
    bumpOfBase64 text = .ok signed ↔ Envelope.ofBase64 text = .ok (.feeBump signed) := by
  constructor
  · intro h
    rcases Except.bind_eq_ok.mp h with ⟨envelope, henvelope, h⟩
    replace h := Except.mapError_eq_ok.mp (Except.mapError_eq_ok.mp h)
    cases envelope with
    | feeBump signed' =>
      cases h
      exact henvelope
    -- transactions are refused
    | legacy _ => cases h
    | transaction _ => cases h
  · intro h
    exact Except.bind_eq_ok.mpr ⟨_, h, rfl⟩

end Signed

/-! ## The legacy form -/

/-- Optional time bounds stand on the wire as the preconditions that they set. -/
theorem Preconditions.encode_ofTimeBounds (timeBounds : Option TimeBounds) :
    layout.wire.encode (.ofTimeBounds timeBounds)
      = (Codec.option TimeBounds.layout.wire).encode timeBounds := by
  cases timeBounds with
  | none => rfl
  | some bounds => rfl

/-- No contract data stands on the wire as a reserved slot. -/
theorem SorobanData.encode_none (ext : Extension) :
    optionLayout.wire.encode none = Extension.layout.wire.encode ext := by
  cases ext
  rfl

/-- Each of the three fields that differ stands on the wire as some value of the current field. -/
theorem LegacyTransaction.encode_toTransaction (legacy : LegacyTransaction) :
    Transaction.layout.wire.encode legacy.toTransaction
      = [0, 0, 0, 0] ++ LegacyTransaction.layout.wire.encode legacy := by
  rcases legacy with ⟨key, fee, sequence, timeBounds, memo, operations, ext⟩
  have hzero : (Codec.constant KeyKind).encode .ed25519 = [0, 0, 0, 0] := rfl
  show ((Codec.constant KeyKind).encode .ed25519 ++ key.toList) ++ (_ ++ (_
    ++ (Preconditions.layout.wire.encode (.ofTimeBounds timeBounds)
      ++ (_ ++ (_ ++ SorobanData.optionLayout.wire.encode none))))) = _
  rw [hzero, Preconditions.encode_ofTimeBounds, SorobanData.encode_none ext, List.append_assoc]
  rfl

end LedgerTx
