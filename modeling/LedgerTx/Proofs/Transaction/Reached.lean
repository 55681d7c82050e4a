import LedgerTx.Proofs.Transaction.Build
import LedgerTx.Proofs.Transaction.Limits

namespace LedgerTx

/-! # Transactions that can be reached

Whatever is done to a transaction that was read or built from what was read, it can be read back from its
own text.  The invariant is that the transaction keeps the limits that reading sets. -/

/-! ## Ways to get a transaction -/

/-- Whether some bytes are read as the parts of a draft; its memo may be any. -/
structure Draft.Readable (draft : Draft) : Prop where
  preconditions : Preconditions.layout.wire.Readable draft.preconditions
  operations : ∀ operation ∈ draft.operations, Operation.layout.wire.Readable operation
  sorobanData : ∀ data ∈ draft.sorobanData, SorobanData.layout.wire.Readable data

namespace Signed

/-- The transactions that can be reached. -/
inductive Reached : Signed Transaction → Prop
  /-- By reading an envelope of either form. -/
  | ofBase64 {text : String} {signed : Signed Transaction} (h : ofBase64 text = .ok signed) : Reached signed
  /-- By reading a transaction without signatures. -/
  | ofBytes {tx : Transaction} (h : Transaction.layout.wire.Readable tx) : Reached (.unsigned tx)
  | build {draft : Draft} {tx : Transaction} (hdraft : draft.Readable) (h : draft.build = .ok tx) :
      Reached (.unsigned tx)
  /-- By an edit, which may fail. -/
  | edit {signed : Signed Transaction} (edit : Edit) (h : Reached signed) (hedit : edit.Readable) :
      Reached ((Signed.edit edit).call signed).2

/-- The fee bumps of a transaction that can be reached. -/
inductive BumpReached (inner : Signed Transaction) : Signed FeeBump → Prop
  | build {feeSource : MuxedAccount} {fee : Int64} {bump : FeeBump} (hinner : Reached inner)
      (h : FeeBump.build feeSource fee inner = .ok bump) : BumpReached inner (.unsigned bump)
  /-- By an endorsement, which may fail. -/
  | endorse {signed : Signed FeeBump} (endorsement : Endorsement) (h : BumpReached inner signed) :
      BumpReached inner ((Signed.endorse endorsement).call signed).2

/-! ## Limits are kept -/

theorem fits_unsigned {τ : Type} {tx : Layout τ} {body : τ} (h : tx.wire.fits .standard body = true) :
    (layout tx).wire.fits .standard (.unsigned body) = true :=
  fits_iff.mpr ⟨h, rfl⟩

/-- A transaction that is read keeps the limits, in the legacy form too. -/
theorem fits_of_ofBase64 {text : String} {signed : Signed Transaction} (h : ofBase64 text = .ok signed) :
    (layout Transaction.layout).wire.fits .standard signed = true := by
  rcases ofBase64_eq_ok.mp h with ⟨envelope, henvelope, hsigned⟩
  rcases Codec.ofBase64_eq_ok.mp henvelope with ⟨bytes, -, hread⟩
  have hfits := Envelope.hasParts.wire.readable_iff.mp ⟨bytes, hread⟩
  cases envelope with
  | transaction signed' =>
    cases hsigned
    exact (Envelope.fits_arm .transaction signed).symm.trans hfits
  -- the legacy form keeps its limits when it is lifted
  | legacy legacy =>
    cases hsigned
    have hlegacy := (Envelope.fits_arm .legacy legacy).symm.trans hfits
    rcases fits_iff.mp hlegacy with ⟨htx, hsignatures⟩
    exact fits_iff.mpr ⟨LegacyTransaction.fits_toTransaction htx, hsignatures⟩
  | feeBump _ => cases hsigned

/-- Building checks the memo and the number of operations, and the rest was read. -/
theorem fits_of_build {draft : Draft} {tx : Transaction} (hdraft : draft.Readable)
    (h : draft.build = .ok tx) : Transaction.layout.wire.fits .standard tx = true := by
  rcases Draft.build_eq_ok.mp h with ⟨-, hcount, -, hmemo, -, rfl⟩
  refine Transaction.fits_iff.mpr ⟨?_, ?_, ?_, ?_⟩
  · have hcodec : Codec.Composed true Preconditions.layout.wire := Preconditions.hasParts.wire
    exact hcodec.readable_iff.mp hdraft.preconditions
  · -- of all memos only texts have a length
    cases hkind : draft.memo with
    | text text =>
      rw [hkind] at hmemo
      exact Memo.fits_text.mpr hmemo
    | none | id _ | hash _ | «return» _ => rfl
  · refine Codec.list_fits_iff.mpr ⟨hcount, fun operation hmem => ?_⟩
    exact Operation.hasParts.wire.readable_iff.mp (hdraft.operations operation hmem)
  · cases hdata : draft.sorobanData with
    | none => rfl
    | some data => exact SorobanData.hasParts.wire.readable_iff.mp (hdraft.sorobanData data hdata)

/-- Every transaction that can be reached keeps the limits. -/
theorem Reached.fits {signed : Signed Transaction} (h : Reached signed) :
    (layout Transaction.layout).wire.fits .standard signed = true := by
  induction h with
  | ofBase64 h => exact fits_of_ofBase64 h
  | ofBytes h => exact fits_unsigned (Transaction.hasParts.wire.readable_iff.mp h)
  | build hdraft h => exact fits_unsigned (fits_of_build hdraft h)
  | edit edit _ hedit ih => exact fits_edit ih hedit

/-- A fee bump adds no limits, so it keeps those that the transaction inside keeps. -/
theorem BumpReached.fits {inner : Signed Transaction} {signed : Signed FeeBump}
    (h : BumpReached inner signed) :
    (layout FeeBump.layout).wire.fits .standard signed = true := by
  induction h with
  | build hinner h =>
    rcases FeeBump.build_eq_ok.mp h with ⟨-, -, -, rfl⟩
    exact fits_unsigned (FeeBump.fits_eq.trans hinner.fits)
  | endorse endorsement _ ih => exact fits_endorse ih endorsement

/-- A fee bump holds what it was built around. -/
theorem BumpReached.inner_eq {inner : Signed Transaction} {signed : Signed FeeBump}
    (h : BumpReached inner signed) : signed.tx.inner = inner := by
  induction h with
  | build _ h =>
    rcases FeeBump.build_eq_ok.mp h with ⟨-, -, -, rfl⟩
    rfl
  | endorse endorsement _ ih =>
    rw [tx_endorse]
    exact ih

/-! ## Reading back -/

/-- Signatures keep their number and their length. -/
structure Bounded {τ : Type} (signed : Signed τ) : Prop where
  length_le : signed.signatures.length ≤ maxSignatures
  signature_length_le : ∀ entry ∈ signed.signatures, entry.signature.length ≤ DecoratedSignature.maxLength

/-- The limits of signatures are among those that reading sets. -/
theorem bounded_of_fits {τ : Type} {tx : Layout τ} {signed : Signed τ}
    (h : (layout tx).wire.fits .standard signed = true) : Bounded signed := by
  rcases signaturesCodec_fits_iff.mp (fits_iff.mp h).2 with ⟨hlength, hsignatures⟩
  exact ⟨hlength, hsignatures⟩

/-- Every transaction that can be reached is read back from its own text, and so is every fee bump, of
which the text holds the bytes of the envelope inside. -/
theorem reached_reads_back :
    (∀ {signed}, Reached signed → Bounded signed
      ∧ ofBase64 (Envelope.transaction signed).toBase64 = .ok signed)
    ∧ ∀ {inner signed}, BumpReached inner signed → Bounded signed
      ∧ bumpOfBase64 (Envelope.feeBump signed).toBase64 = .ok signed
      ∧ signed.tx.inner = inner
      ∧ Envelope.layout.wire.encode (.feeBump signed)
        = [0, 0, 0, 5] ++ (MuxedAccount.layout.wire.encode signed.tx.feeSource
          ++ (Codec.int64.encode signed.tx.fee
            ++ (Envelope.layout.wire.encode (.transaction inner) ++ [0, 0, 0, 0]))
          ++ signaturesCodec.encode signed.signatures) := by
  constructor
  · intro signed h
    have hfits : Envelope.layout.wire.fits .standard (.transaction signed) = true :=
      (Envelope.fits_arm .transaction signed).trans h.fits
    -- what keeps the limits is read back
    have hread := Envelope.hasParts.wire.ofBase64_toBase64 hfits
    exact ⟨bounded_of_fits h.fits, ofBase64_eq_ok.mpr ⟨_, hread, rfl⟩⟩
  · intro inner signed h
    have hfits : Envelope.layout.wire.fits .standard (.feeBump signed) = true :=
      (Envelope.fits_arm .feeBump signed).trans h.fits
    have hread := Envelope.hasParts.wire.ofBase64_toBase64 hfits
    refine ⟨bounded_of_fits h.fits, bumpOfBase64_eq_ok.mpr hread, h.inner_eq, ?_⟩
    -- the envelope inside is written as it was
    rw [← h.inner_eq, ← FeeBump.encode_eq]
    exact Envelope.encode_arm .feeBump signed

/-- A transaction that is built and gets a signature, and a fee bump around it that gets one too. -/
theorem reached_reads_back_built :
    let account : MuxedAccount := .plain ⟨List.replicate 32 1, rfl⟩
    let draft : Draft := { source := account, sequence := 1, operations := [.ofBody .inflation] }
    let tx : Transaction := ⟨account, 100, 1, .none, .none, [.ofBody .inflation], none⟩
    let entry : DecoratedSignature := ⟨⟨[1, 2, 3, 4], rfl⟩, [5]⟩
    let bump : FeeBump := ⟨account, 200, ⟨tx, [entry]⟩, .v0⟩
    draft.build = .ok tx ∧ FeeBump.build account 200 ⟨tx, [entry]⟩ = .ok bump
      ∧ ofBase64 (Envelope.transaction ⟨tx, [entry]⟩).toBase64 = .ok ⟨tx, [entry]⟩
      ∧ bumpOfBase64 (Envelope.feeBump ⟨bump, [entry]⟩).toBase64 = .ok ⟨bump, [entry]⟩ := by
  intro account draft tx entry bump
  have hdraft : draft.Readable := by
    refine ⟨⟨[0, 0, 0, 0], rfl⟩, fun operation hmem => ?_, fun data hdata => ?_⟩
    · rw [List.mem_singleton.mp hmem]
      exact Operation.hasParts.wire.readable_iff.mpr rfl
    · cases hdata
  have hbuild : draft.build = .ok tx := rfl
  have hbump : FeeBump.build account 200 ⟨tx, [entry]⟩ = .ok bump :=
    FeeBump.build_eq_ok.mpr ⟨by decide, by decide, by decide, rfl⟩
  have hsigned : Reached ⟨tx, [entry]⟩ := .edit (.endorse (.add entry)) (.build hdraft hbuild) trivial
  have hbumped : BumpReached ⟨tx, [entry]⟩ ⟨bump, [entry]⟩ := .endorse (.add entry) (.build hsigned hbump)
  exact ⟨hbuild, hbump, (reached_reads_back.1 hsigned).2, (reached_reads_back.2 hbumped).2.1⟩

end Signed

end LedgerTx
