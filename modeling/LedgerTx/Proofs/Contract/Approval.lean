import LedgerTx.Contract.Approval
import LedgerTx.Proofs.Call

namespace LedgerTx

/-- The stand-in can sign a hash. -/
theorem Signer.exists_standIn_sign (key hash : Bytes32) :
    ∃ signature, (standIn key).sign hash.toList = .ok signature := by
  have hne : hash.toList.isEmpty = false :=
    List.isEmpty_eq_false_iff.mpr (List.ne_nil_of_length_eq_add_one hash.length_toList)
  exact ⟨_, if_neg (by rw [hne]; exact Bool.false_ne_true)⟩

namespace Contract.Authorization

/-! # Approvals of calls

An authorization is signed as a whole or not at all, and what is signed can be told from the signed
authorization alone.  What stood there as expiration and signature before makes no difference. -/

variable {signer : Signer} {network : Network} {expirationLedger : UInt32}
  {entry after : Authorization} {cause : LedgerTx.Error}

/-! ## What is signed -/

/-- What the signature of an authorization must cover, as the authorization itself says. -/
def preimage? (entry : Authorization) (network : Network) : Option HashPreimage :=
  match entry.credentials with
  | .sourceAccount => none
  | .address credentials =>
    some (.authorization ⟨network.id, credentials.nonce, credentials.expirationLedger, entry.root⟩)

/-- The same authorization with another expiration and other signature values, if it has any. -/
def withSignature (entry : Authorization) (expirationLedger : UInt32) (signatureArgs : List Value) :
    Authorization :=
  match entry.credentials with
  | .sourceAccount => entry
  | .address credentials =>
    { entry with credentials := .address { credentials with expirationLedger, signatureArgs } }

/-- Why an authorization is not signed. -/
inductive Refused (entry : Authorization) (signer : Signer) (network : Network)
    (expirationLedger : UInt32) : LedgerTx.Error → Prop
  | sourceAccount (h : entry.credentials = .sourceAccount) :
      Refused entry signer network expirationLedger (.value (.argument .unsignedCredentials))
  | signer {preimage : HashPreimage} {cause : LedgerTx.Error}
      (h : (entry.withSignature expirationLedger []).preimage? network = some preimage)
      (hsign : signer.sign (Sha256.hash (HashPreimage.codec.encode preimage)).toList = .error cause) :
      Refused entry signer network expirationLedger cause

/-! ## Single calls -/

/-- The signer is asked before anything is written. -/
theorem call_sign :
    (sign signer network expirationLedger).call entry =
      match entry.credentials with
      | .sourceAccount => (.error (.value (.argument .unsignedCredentials)), entry)
      | .address credentials =>
        match signer.sign
          (approvalHash network credentials.nonce expirationLedger entry.root).toList with
        | .ok signature =>
          (.ok (), entry.withSignature expirationLedger [signatureValue signer.publicKey signature])
        | .error cause => (.error cause, entry) := by
  rcases entry with ⟨credentials, root⟩
  rw [sign, Method.call_get_bind]
  cases credentials with
  | sourceAccount => rfl
  | address credentials =>
    dsimp only
    rw [Method.call_lift_bind]
    -- the hash must not be worked out
    generalize signer.sign (approvalHash network credentials.nonce expirationLedger root).toList = result
    cases result with
    | ok signature => rfl
    | error cause => rfl

/-- An authorization that is refused is left as it is. -/
theorem call_sign_eq_error :
    (sign signer network expirationLedger).call entry = (.error cause, after) ↔
      Refused entry signer network expirationLedger cause ∧ after = entry := by
  rcases entry with ⟨credentials, root⟩
  rw [call_sign]
  -- the source account signs the transaction itself, so there is no preimage
  cases credentials with
  | sourceAccount =>
    constructor
    · intro h
      cases h
      exact ⟨.sourceAccount rfl, rfl⟩
    · rintro ⟨hrefused, rfl⟩
      cases hrefused with
      | sourceAccount _ => rfl
      | signer hpreimage _ => cases hpreimage
  | address credentials =>
    -- an address has a preimage, so only the signer can refuse
    dsimp only
    constructor
    · intro h
      split at h
      · cases h
      · rename_i hsign
        cases h
        exact ⟨.signer rfl hsign, rfl⟩
    · rintro ⟨hrefused, rfl⟩
      cases hrefused with
      | sourceAccount hsource => cases hsource
      | signer hpreimage hsign =>
        cases hpreimage
        have hhash : signer.sign
            (approvalHash network credentials.nonce expirationLedger root).toList = .error cause := hsign
        rw [hhash]

/-- An authorization that is signed differs in the expiration and the signature only, and the signature is
that of what the signed authorization says. -/
theorem call_sign_eq_ok :
    (sign signer network expirationLedger).call entry = (.ok (), after) ↔
      ∃ preimage signature,
        after = entry.withSignature expirationLedger [signatureValue signer.publicKey signature]
          ∧ after.preimage? network = some preimage
          ∧ signer.sign (Sha256.hash (HashPreimage.codec.encode preimage)).toList = .ok signature := by
  rcases entry with ⟨credentials, root⟩
  rw [call_sign]
  cases credentials with
  | sourceAccount =>
    constructor
    · intro h
      cases h
    · rintro ⟨preimage, signature, rfl, hpreimage, -⟩
      cases hpreimage
  | address credentials =>
    dsimp only
    constructor
    · intro h
      split at h
      · rename_i signature hsign
        cases h
        exact ⟨_, signature, rfl, rfl, hsign⟩
      · cases h
    -- the hash is that of what the signed authorization says
    · rintro ⟨preimage, signature, rfl, hpreimage, hsign⟩
      cases hpreimage
      have hhash : signer.sign
          (approvalHash network credentials.nonce expirationLedger root).toList = .ok signature := hsign
      rw [hhash]

/-! ## What stood there before -/

/-- The last expiration and signature stand. -/
@[simp]
theorem withSignature_withSignature {ledger ledger' : UInt32} {args args' : List Value} :
    (entry.withSignature ledger args).withSignature ledger' args' = entry.withSignature ledger' args' := by
  rcases entry with ⟨credentials, root⟩
  cases credentials with
  | sourceAccount => rfl
  | address credentials => rfl

/-- An authorization has the expiration and the signature that it has. -/
theorem exists_withSignature (entry : Authorization) :
    ∃ ledger args, entry = entry.withSignature ledger args := by
  rcases entry with ⟨credentials, root⟩
  cases credentials with
  | sourceAccount => exact ⟨0, [], rfl⟩
  | address credentials => exact ⟨credentials.expirationLedger, credentials.signatureArgs, rfl⟩

/-- An authorization is refused whatever expiration and signature it has. -/
theorem Refused.withSignature (h : Refused entry signer network expirationLedger cause)
    (ledger : UInt32) (args : List Value) :
    Refused (entry.withSignature ledger args) signer network expirationLedger cause := by
  cases h with
  | sourceAccount hsource =>
    refine .sourceAccount ?_
    unfold Authorization.withSignature
    rw [hsource]
    exact hsource
  | signer hpreimage hsign =>
    rw [← withSignature_withSignature] at hpreimage
    exact .signer hpreimage hsign

/-- An authorization is signed as if it had had any other expiration and signature. -/
theorem call_sign_withSignature (ledger : UInt32) (args : List Value) :
    ((sign signer network expirationLedger).call (entry.withSignature ledger args)).1
        = ((sign signer network expirationLedger).call entry).1
      ∧ ∀ after, (sign signer network expirationLedger).call entry = (.ok (), after) →
        (sign signer network expirationLedger).call (entry.withSignature ledger args)
          = (.ok (), after) := by
  have hsame : ∀ after, (sign signer network expirationLedger).call entry = (.ok (), after) →
      (sign signer network expirationLedger).call (entry.withSignature ledger args)
        = (.ok (), after) := by
    intro after h
    obtain ⟨preimage, signature, hafter, hpreimage, hsign⟩ := call_sign_eq_ok.mp h
    rw [← withSignature_withSignature] at hafter
    exact call_sign_eq_ok.mpr ⟨preimage, signature, hafter, hpreimage, hsign⟩
  refine ⟨?_, hsame⟩
  rcases hcall : (sign signer network expirationLedger).call entry with ⟨result, after⟩
  cases result with
  | ok _ => rw [hsame after hcall]
  | error cause =>
    have hrefused := (call_sign_eq_error.mp hcall).1.withSignature ledger args
    rw [call_sign_eq_error.mpr ⟨hrefused, rfl⟩]

/-! ## Runs -/

/-- Who signs, for which network, and until which ledger. -/
structure Request where
  signer : Signer
  network : Network
  expirationLedger : UInt32

/-- Signs as requested. -/
def signAs (request : Request) : Method LedgerTx.Error Authorization Unit :=
  sign request.signer request.network request.expirationLedger

/-- The step: a call changes the expiration and the signature at most. -/
theorem exists_withSignature_call (entry : Authorization) (request : Request) :
    ∃ ledger args, ((signAs request).call entry).2 = entry.withSignature ledger args := by
  rcases hcall : (signAs request).call entry with ⟨result, after⟩
  cases result with
  | ok _ =>
    obtain ⟨_, _, hafter, -⟩ := call_sign_eq_ok.mp hcall
    exact ⟨_, _, hafter⟩
  | error cause =>
    obtain ⟨-, rfl⟩ := call_sign_eq_error.mp hcall
    exact exists_withSignature after

/-- The run: so do any calls, one after the other. -/
theorem exists_withSignature_afterCalls (entry : Authorization) (requests : List Request) :
    ∃ ledger args, afterCalls signAs entry requests = entry.withSignature ledger args := by
  induction requests generalizing entry with
  | nil => exact exists_withSignature entry
  | cons request requests ih =>
    obtain ⟨ledger, args, hafter⟩ := exists_withSignature_call entry request
    obtain ⟨ledger', args', hrun⟩ := ih (entry.withSignature ledger args)
    rw [afterCalls_cons, hafter, hrun, withSignature_withSignature]
    exact ⟨ledger', args', rfl⟩

/-! ## Approvals -/

/-- Signing fails exactly if there is nothing to be signed or the signer fails, and then changes nothing.
Otherwise it replaces the expiration and the signature, which is the signer's of the hash of what the
signed authorization itself says.  What was signed before, by whomever, makes no difference, so that to
sign again changes nothing. -/
theorem sign_approves (signer : Signer) (network : Network) (expirationLedger : UInt32)
    (entry : Authorization) :
    (∀ cause after, (sign signer network expirationLedger).call entry = (.error cause, after) ↔
      Refused entry signer network expirationLedger cause ∧ after = entry)
    ∧ (∀ after, (sign signer network expirationLedger).call entry = (.ok (), after) ↔
      ∃ preimage signature,
        after = entry.withSignature expirationLedger [.map (some [
            ⟨.symbol "public_key", .bytes signer.publicKey.toList⟩,
            ⟨.symbol "signature", .bytes signature.toList⟩])]
          ∧ after.preimage? network = some preimage
          ∧ signer.sign (Sha256.hash (HashPreimage.codec.encode preimage)).toList = .ok signature)
    ∧ (∀ ledger args,
      ((sign signer network expirationLedger).call (entry.withSignature ledger args)).1
          = ((sign signer network expirationLedger).call entry).1
        ∧ ∀ after, (sign signer network expirationLedger).call entry = (.ok (), after) →
          (sign signer network expirationLedger).call (entry.withSignature ledger args)
            = (.ok (), after))
    ∧ (∀ requests after, (sign signer network expirationLedger).call entry = (.ok (), after) →
      (sign signer network expirationLedger).call (afterCalls signAs entry requests) = (.ok (), after))
    ∧ ∀ after, (sign signer network expirationLedger).call entry = (.ok (), after) →
      (sign signer network expirationLedger).call after = (.ok (), after) := by
  -- runs change nothing but what is replaced anyway
  have hruns : ∀ requests after, (sign signer network expirationLedger).call entry = (.ok (), after) →
      (sign signer network expirationLedger).call (afterCalls signAs entry requests)
        = (.ok (), after) := by
    intro requests after h
    obtain ⟨ledger, args, hrun⟩ := exists_withSignature_afterCalls entry requests
    rw [hrun]
    exact (call_sign_withSignature ledger args).2 after h
  refine ⟨fun _ _ => call_sign_eq_error, fun _ => call_sign_eq_ok, call_sign_withSignature, hruns, ?_⟩
  intro after h
  have hafter : afterCalls signAs entry [⟨signer, network, expirationLedger⟩] = after :=
    congrArg Prod.snd h
  have hagain := hruns [⟨signer, network, expirationLedger⟩] after h
  rw [hafter] at hagain
  exact hagain

/-- An approval of a swap that has been signed before, for fewer ledgers, is renewed, as if it had not
been signed.  To renew it again changes nothing. -/
theorem sign_approves_renewed :
    let signer := Signer.standIn ⟨List.replicate 32 7, rfl⟩
    let contract : Address := .contract ⟨List.replicate 32 2, rfl⟩
    let signed (ledger : UInt32) (args : List Value) : Authorization :=
      ⟨.address ⟨contract, 99, ledger, args⟩, .node (.contract ⟨contract, "swap", []⟩) []⟩
    ∃ after, (sign signer Network.testNet 1000).call (signed 0 []) = (.ok (), after)
      ∧ (sign signer Network.testNet 1000).call (signed 5 [.bytes [1, 2]]) = (.ok (), after)
      ∧ (sign signer Network.testNet 1000).call after = (.ok (), after) := by
  intro signer contract signed
  obtain ⟨signature, hsign⟩ := Signer.exists_standIn_sign signer.publicKey
    (approvalHash Network.testNet 99 1000 (signed 0 []).root)
  obtain ⟨-, hok, hbefore, -, hagain⟩ := sign_approves signer Network.testNet 1000 (signed 0 [])
  have hcall := (hok _).mpr ⟨_, signature, rfl, rfl, hsign⟩
  exact ⟨_, hcall, (hbefore 5 [.bytes [1, 2]]).2 _ hcall, hagain _ hcall⟩

end Contract.Authorization

end LedgerTx
