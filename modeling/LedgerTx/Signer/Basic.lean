import LedgerTx.Account

namespace LedgerTx

/-! # Signers

A signer is a public key and a way to sign under it, which may fail.  A decorated signature carries a
hint, by which the network finds the key to check it with. -/

/-- Who signs. -/
structure Signer where
  publicKey : Bytes32
  sign : List UInt8 → Except Error (FixedBytes 64)

namespace Signer

/-- The last bytes of the public key. -/
def hint (signer : Signer) : FixedBytes 4 :=
  signer.publicKey.last 4 (by decide)

/-- The signature of a message with the hint of the key. -/
def signDecorated (signer : Signer) (message : List UInt8) :
    Except Error DecoratedSignature := do
  let signature ← signer.sign message
  return ⟨signer.hint, signature.toList⟩

/-- The last bytes of a payload, filled up with zeros at the end when there are fewer. -/
def payloadHint (payload : List UInt8) : FixedBytes 4 :=
  .ofListPadded 4 (payload.drop (payload.length - 4))

/-- The signature of a payload that the key must sign besides, with a hint of both. -/
def signPayloadDecorated (signer : Signer) (payload : List UInt8) :
    Except Error DecoratedSignature := do
  let signature ← signer.sign payload
  return ⟨signer.hint.xor (payloadHint payload), signature.toList⟩

/-- A stand-in for a signer, without cryptography: its signatures mix the message with the key, both
repeated to the length of a signature.  It can not sign an empty message. -/
def standIn (key : Bytes32) : Signer where
  publicKey := key
  sign message :=
    if message.isEmpty then .error (.signing .emptyMessage)
    else
      .ok ⟨(List.range 64).map fun i =>
        message.getD (i % message.length) 0 ^^^ key.toList.getD (i % 32) 0, by simp⟩

end Signer

end LedgerTx
