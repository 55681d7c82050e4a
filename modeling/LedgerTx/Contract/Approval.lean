import LedgerTx.Call
import LedgerTx.Network
import LedgerTx.Signer.Basic
import LedgerTx.Transaction.Payload

namespace LedgerTx.Contract

/-! # Approving calls, and ids of contracts

An address approves of a tree of calls by signing a hash of the network, the nonce, the expiration and
the tree. -/

/-- What an address signs to approve of calls. -/
def approvalHash (network : Network) (nonce : Int64) (expirationLedger : UInt32)
    (calls : Invocation) : Bytes32 :=
  Sha256.hash <| HashPreimage.codec.encode <|
    .authorization ⟨network.id, nonce, expirationLedger, calls⟩

/-- A signature and its key as a contract value. -/
def signatureValue (publicKey : Bytes32) (signature : FixedBytes 64) : Value :=
  .map (some [
    ⟨.symbol "public_key", .bytes publicKey.toList⟩,
    ⟨.symbol "signature", .bytes signature.toList⟩])

/-- Signs an authorization, to hold until a ledger.  What it held before as signature is replaced; the
source account's authorization has none. -/
def Authorization.sign (signer : Signer) (network : Network) (expirationLedger : UInt32) :
    Method LedgerTx.Error Authorization Unit := do
  let entry ← get
  match entry.credentials with
  | .sourceAccount => throw (.value (.argument .unsignedCredentials))
  | .address credentials =>
    -- the expiration that is signed is the new one
    let hash := approvalHash network credentials.nonce expirationLedger entry.root
    let signature ← signer.sign hash.toList
    let signatureArgs := [signatureValue signer.publicKey signature]
    set { entry with credentials := .address { credentials with expirationLedger, signatureArgs } }

/-- The id of a contract that is created from a source. -/
def IdSource.contractId (source : IdSource) (network : Network) : Bytes32 :=
  Sha256.hash (HashPreimage.codec.encode (.contractId ⟨network.id, source⟩))

/-- The address `C…` of a contract. -/
def contractAddress (id : Bytes32) : String :=
  Strkey.encode .contract id.toList

end LedgerTx.Contract
