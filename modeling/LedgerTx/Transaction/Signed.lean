import LedgerTx.Call
import LedgerTx.Network
import LedgerTx.Signer.Basic
import LedgerTx.Transaction.Payload

namespace LedgerTx

/-! # Signing transactions

What is signed is the hash of the network and the transaction, never of signatures that are there
already.  Signatures are only ever added, at the end. -/

/-! ## Hashes -/

/-- Types of which the values can be signed. -/
class Signable (τ : Type) where
  /-- What a signature of a value is about. -/
  subject : τ → Subject

instance : Signable Transaction := ⟨.transaction⟩
instance : Signable FeeBump := ⟨.feeBump⟩

namespace Signed

variable {τ : Type}

/-- The bytes that a signature's hash covers. -/
def signatureBase [Signable τ] (signed : Signed τ) (network : Network) : List UInt8 :=
  SignaturePayload.codec.encode ⟨network.id, Signable.subject signed.tx⟩

/-- What signatures are made of. -/
def hash [Signable τ] (signed : Signed τ) (network : Network) : Bytes32 :=
  Sha256.hash (signed.signatureBase network)

/-! ## Signatures -/

/-- Adds a signature that was made elsewhere. -/
def addSignature (signature : DecoratedSignature) : Method Error (Signed τ) Unit := do
  let signed ← get
  if maxSignatures ≤ signed.signatures.length then
    throw (.value (.argument (.tooManySignatures maxSignatures)))
  let length := signature.signature.length
  if DecoratedSignature.maxLength < length then
    throw (.value (.argument (.signatureTooLong DecoratedSignature.maxLength length)))
  set { signed with signatures := signed.signatures ++ [signature] }

/-- Signs for a network. -/
def sign [Signable τ] (signer : Signer) (network : Network) : Method Error (Signed τ) Unit := do
  let signed ← get
  let signature ← signer.signDecorated (signed.hash network).toList
  addSignature signature

end Signed

end LedgerTx
