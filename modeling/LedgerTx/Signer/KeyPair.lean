import LedgerTx.Ed25519.Signature
import LedgerTx.Signer.Basic

namespace LedgerTx

/-! # Key pairs

A key pair without its secret half can check signatures only. -/

/-- A public key, and the seed that it belongs to if that is known. -/
structure KeyPair where
  publicKey : Bytes32
  seed : Option Bytes32
deriving DecidableEq

namespace KeyPair

/-- The pair of a seed. -/
def ofSeed (seed : Bytes32) : KeyPair :=
  ⟨Ed25519.publicKey seed, some seed⟩

/-- The pair of a seed `S…`. -/
def ofSecret (text : String) : Except AddressError KeyPair :=
  return ofSeed (← Strkey.decodeKey .secretSeed text)

/-- A pair that can only check, of a key that must be a point of the curve. -/
def ofPublicKey (key : Bytes32) : Except SigningError KeyPair :=
  if Ed25519.isPublicKey key then .ok ⟨key, none⟩ else .error .badPublicKey

/-- A pair that can only check, of an address `G…`. -/
def ofAddress (text : String) : Except Error KeyPair := do
  let key ← (Strkey.decodeKey .accountId text : Except ValueError Bytes32)
  ofPublicKey key

/-- The account of the key. -/
def account (pair : KeyPair) : AccountId :=
  ⟨pair.publicKey⟩

/-- The seed as a strkey. -/
def secret? (pair : KeyPair) : Option String :=
  pair.seed.map fun seed => Strkey.encode .secretSeed seed.toList

/-- Whether the secret half is known. -/
def canSign (pair : KeyPair) : Bool :=
  pair.seed.isSome

/-- Whether a signature of a message holds under the key. -/
def verify (pair : KeyPair) (message : List UInt8) (signature : FixedBytes 64) : Bool :=
  Ed25519.verify pair.publicKey message signature

/-- The pair as a signer. -/
def signer (pair : KeyPair) : Signer where
  publicKey := pair.publicKey
  sign message :=
    match pair.seed with
    | some seed => .ok (Ed25519.sign seed message)
    | none => .error (.signing .noSecretKey)

end KeyPair

end LedgerTx
