import LedgerTx.Proofs.Call
import LedgerTx.Transaction.Edit

namespace LedgerTx

/-! # What edits do

For each kind of edit: when it succeeds, and what it makes of the signed transaction then. -/

variable {τ : Type}

/-! ## Endorsements -/

namespace Endorsement

/-- The entry that an endorsement adds to the signatures of a subject.  A signer signs the SHA-256 hash of
the bytes of the network's id and the subject, whatever signatures there are, and the hint of the entry is
the end of the signer's key. -/
inductive Makes (subject : Subject) : Endorsement → DecoratedSignature → Prop
  | sign {signer : Signer} {network : Network} {signature : FixedBytes 64}
      (h : signer.sign (Sha256.hash (SignaturePayload.codec.encode ⟨network.id, subject⟩)).toList
        = .ok signature) :
      Makes subject (.sign signer network) ⟨signer.publicKey.last 4 (by decide), signature.toList⟩
  | add {signature : DecoratedSignature} : Makes subject (.add signature) signature

/-- Why an endorsement fails, where `subject` tells what of a value is signed. -/
inductive Refused (subject : τ → Subject) (signed : Signed τ) : Endorsement → Error → Prop
  | signer {signer : Signer} {network : Network} {cause : Error}
      (h : signer.sign
        (Sha256.hash (SignaturePayload.codec.encode ⟨network.id, subject signed.tx⟩)).toList
        = .error cause) :
      Refused subject signed (.sign signer network) cause
  | full {endorsement : Endorsement} {entry : DecoratedSignature}
      (h : endorsement.Makes (subject signed.tx) entry)
      (hfull : Signed.maxSignatures ≤ signed.signatures.length) :
      Refused subject signed endorsement (.value (.argument (.tooManySignatures Signed.maxSignatures)))
  | tooLong {endorsement : Endorsement} {entry : DecoratedSignature}
      (h : endorsement.Makes (subject signed.tx) entry)
      (hroom : signed.signatures.length < Signed.maxSignatures)
      (hlong : DecoratedSignature.maxLength < entry.signature.length) :
      Refused subject signed endorsement (.value (.argument
        (.signatureTooLong DecoratedSignature.maxLength entry.signature.length)))

end Endorsement

/-- A signer decorates what it signs with the hint of its key. -/
theorem Signer.signDecorated_eq {signer : Signer} {message : List UInt8} :
    signer.signDecorated message =
      match signer.sign message with
      | .ok signature => .ok ⟨signer.hint, signature.toList⟩
      | .error cause => .error cause := by
  rw [signDecorated]
  cases signer.sign message with
  | ok signature => rfl
  | error cause => rfl

namespace Signed

open Endorsement

/-- A signature is added if there is room for it and it is not too long. -/
theorem call_addSignature {signed : Signed τ} {signature : DecoratedSignature} :
    (addSignature signature).call signed =
      if maxSignatures ≤ signed.signatures.length then
        (.error (.value (.argument (.tooManySignatures maxSignatures))), signed)
      else if DecoratedSignature.maxLength < signature.signature.length then
        (.error (.value (.argument
          (.signatureTooLong DecoratedSignature.maxLength signature.signature.length))), signed)
      else (.ok (), { signed with signatures := signed.signatures ++ [signature] }) := by
  simp only [addSignature, Method.call_get_bind, Method.call_ite, Method.call_throw_bind, Method.call_set]

section

variable [Signable τ] {signed after : Signed τ} {endorsement : Endorsement} {entry : DecoratedSignature}
  {cause : Error}

/-- The hash covers the network and the subject, and no signatures. -/
theorem hash_eq (signed : Signed τ) (network : Network) :
    signed.hash network
      = Sha256.hash (SignaturePayload.codec.encode ⟨network.id, Signable.subject signed.tx⟩) :=
  rfl

/-- What a signer makes is added like a signature that was made elsewhere. -/
theorem call_sign {signer : Signer} {network : Network} :
    (sign signer network).call signed =
      match signer.sign
        (Sha256.hash (SignaturePayload.codec.encode ⟨network.id, Signable.subject signed.tx⟩)).toList with
      | .ok signature => (addSignature ⟨signer.hint, signature.toList⟩).call signed
      | .error cause => (.error cause, signed) := by
  rw [sign, Method.call_get_bind, Method.call_lift_bind, Signer.signDecorated_eq, ← hash_eq]
  -- the hash must not be worked out
  generalize signer.sign (signed.hash network).toList = result
  cases result with
  | ok signature => rfl
  | error cause => rfl

/-- An entry that a signer makes is added like any other. -/
theorem call_endorse_of_makes (h : endorsement.Makes (Signable.subject signed.tx) entry) :
    (endorse endorsement).call signed = (addSignature entry).call signed := by
  cases h with
  | add => rfl
  | sign hsign =>
    rw [endorse, call_sign, hsign]
    rfl

/-- An endorsement makes an entry, or its signer fails. -/
theorem makes_or_refused (signed : Signed τ) (endorsement : Endorsement) :
    (∃ entry, endorsement.Makes (Signable.subject signed.tx) entry)
      ∨ ∃ cause, endorsement.Refused Signable.subject signed cause
        ∧ (endorse endorsement).call signed = (.error cause, signed) := by
  cases endorsement with
  | add signature => exact Or.inl ⟨signature, .add⟩
  | sign signer network =>
    cases hsign : signer.sign (Sha256.hash
      (SignaturePayload.codec.encode ⟨network.id, Signable.subject signed.tx⟩)).toList with
    | ok signature => exact Or.inl ⟨_, .sign hsign⟩
    | error cause =>
      refine Or.inr ⟨cause, .signer hsign, ?_⟩
      rw [endorse, call_sign, hsign]

/-- An endorsement succeeds if it makes an entry that can be added. -/
theorem call_endorse_eq_ok :
    (endorse endorsement).call signed = (.ok (), after) ↔
      ∃ entry, endorsement.Makes (Signable.subject signed.tx) entry
        ∧ signed.signatures.length < maxSignatures ∧ entry.signature.length ≤ DecoratedSignature.maxLength
        ∧ after = { signed with signatures := signed.signatures ++ [entry] } := by
  constructor
  · intro h
    -- the entry must be made first, and then there must be room for it
    rcases makes_or_refused signed endorsement with ⟨entry, hmakes⟩ | ⟨cause, -, hfails⟩
    · rw [call_endorse_of_makes hmakes, call_addSignature] at h
      split at h
      · cases h
      · rename_i hroom
        split at h
        · cases h
        · rename_i hshort
          cases h
          exact ⟨entry, hmakes, Nat.lt_of_not_le hroom, Nat.le_of_not_lt hshort, rfl⟩
    · rw [hfails] at h
      cases h
  · rintro ⟨entry, hmakes, hroom, hshort, rfl⟩
    rw [call_endorse_of_makes hmakes, call_addSignature, if_neg (Nat.not_le_of_lt hroom),
      if_neg (Nat.not_lt_of_le hshort)]

/-- An endorsement that fails does nothing. -/
theorem call_endorse_eq_error :
    (endorse endorsement).call signed = (.error cause, after) ↔
      endorsement.Refused Signable.subject signed cause ∧ after = signed := by
  constructor
  · intro h
    -- either the entry cannot be added, or there is none
    rcases makes_or_refused signed endorsement with ⟨entry, hmakes⟩ | ⟨cause, hrefused, hfails⟩
    · rw [call_endorse_of_makes hmakes, call_addSignature] at h
      split at h
      · rename_i hfull
        cases h
        exact ⟨.full hmakes hfull, rfl⟩
      · rename_i hroom
        split at h
        · rename_i hlong
          cases h
          exact ⟨.tooLong hmakes (Nat.lt_of_not_le hroom) hlong, rfl⟩
        · cases h
    · rw [hfails] at h
      cases h
      exact ⟨hrefused, rfl⟩
  · rintro ⟨hrefused, rfl⟩
    cases hrefused with
    | signer hsign => rw [endorse, call_sign, hsign]
    | full hmakes hfull => rw [call_endorse_of_makes hmakes, call_addSignature, if_pos hfull]
    | tooLong hmakes hroom hlong =>
      rw [call_endorse_of_makes hmakes, call_addSignature, if_neg (Nat.not_le_of_lt hroom), if_pos hlong]

/-- What is signed is not changed by signing it. -/
@[simp]
theorem tx_endorse : ((endorse endorsement).call signed).2.tx = signed.tx := by
  rcases hcall : (endorse endorsement).call signed with ⟨result, after⟩
  cases result with
  | ok u =>
    rcases call_endorse_eq_ok.mp hcall with ⟨entry, -, -, -, rfl⟩
    rfl
  | error cause =>
    rcases call_endorse_eq_error.mp hcall with ⟨-, rfl⟩
    rfl

end

/-! ## Changes -/

section

variable {signed after : Signed Transaction}

/-- A fee is added if the sum can still be written. -/
theorem call_addResourceFee {fee : UInt32} :
    (addResourceFee fee).call signed =
      if UInt32.size ≤ signed.tx.fee.toNat + fee.toNat then
        (.error (.value (.argument .feeOverflow)), signed)
      else
        (.ok (), { signed with
          tx := { signed.tx with fee := UInt32.ofNat (signed.tx.fee.toNat + fee.toNat) } }) := by
  simp only [addResourceFee, Method.call_get_bind, Method.call_ite, Method.call_throw_bind, Method.call_set]

/-- A change is made to the transaction, and the signatures are kept. -/
theorem call_changeBody {change? : Transaction → Option Transaction} :
    (changeBody change?).call signed =
      match change? signed.tx with
      | some tx => (.ok true, { signed with tx })
      | none => (.ok false, signed) := by
  simp only [changeBody, Method.call_get_bind]
  cases change? signed.tx with
  | some tx => rfl
  | none => rfl

/-- A change that is made is told to be made. -/
theorem call_changeBody_eq_true {change? : Transaction → Option Transaction} :
    (changeBody change?).call signed = (.ok true, after) ↔
      ∃ tx, change? signed.tx = some tx ∧ after = { signed with tx } := by
  rw [call_changeBody]
  cases change? signed.tx with
  | some tx =>
    constructor
    · intro h
      cases h
      exact ⟨tx, rfl, rfl⟩
    · rintro ⟨_, hsome, rfl⟩
      cases hsome
      rfl
  | none =>
    constructor
    · intro h
      cases h
    · rintro ⟨_, hsome, -⟩
      cases hsome

/-- A change that is not made leaves all as it is, and this is told. -/
theorem call_changeBody_eq_false {change? : Transaction → Option Transaction} :
    (changeBody change?).call signed = (.ok false, after) ↔ change? signed.tx = none ∧ after = signed := by
  rw [call_changeBody]
  cases change? signed.tx with
  | some tx =>
    constructor
    · intro h
      cases h
    · rintro ⟨hnone, -⟩
      cases hnone
  | none =>
    constructor
    · intro h
      cases h
      exact ⟨rfl, rfl⟩
    · rintro ⟨-, rfl⟩
      rfl

end

end Signed

end LedgerTx
