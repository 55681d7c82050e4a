import LedgerTx.Signer.KeyPair

namespace LedgerTx

/-! # Where signers come from -/

/-- What a key pair is made from. -/
inductive KeyPair.Source where
  /-- A seed `S…`. -/
  | secret (text : String)
  | seed (seed : Bytes32)
  /-- An address `G…`, which gives the public half only. -/
  | address (text : String)
  | publicKey (key : Bytes32)

/-- The key pair of a source. -/
def KeyPair.ofSource : KeyPair.Source → Except Error KeyPair
  | .secret text => (ofSecret text : Except ValueError KeyPair)
  | .seed seed => .ok (ofSeed seed)
  | .address text => ofAddress text
  | .publicKey key => (ofPublicKey key : Except SigningError KeyPair)

/-- What a signer is made from. -/
inductive Signer.Source where
  | keyPair (source : KeyPair.Source)
  /-- A signer without cryptography. -/
  | standIn (key : Bytes32)

/-- The signer of a source. -/
def Signer.ofSource : Signer.Source → Except Error Signer
  | .keyPair source => do return (← KeyPair.ofSource source).signer
  | .standIn key => .ok (standIn key)

end LedgerTx
