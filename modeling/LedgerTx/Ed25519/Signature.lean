import LedgerTx.Bytes.Fixed
import LedgerTx.Ed25519.Curve
import LedgerTx.Hash.Sha512

namespace LedgerTx.Ed25519

/-! # Signatures

A seed gives a secret number and a public point; a signature is a point and a number, 32 bytes each. -/

/-- How many multiples the base point has. -/
def order : Nat := (1 <<< 252) + 27742317777372353535851937790883648493

/-- What a seed gives: the secret number, and the bytes that hide what is signed. -/
structure Secret where
  scalar : Nat
  nonceKey : List UInt8

/-- The secret of a seed.  Of the number, the lowest three bits and the highest are cleared and the next
to highest is set. -/
def Secret.ofSeed (seed : Bytes32) : Secret :=
  let hash := (Sha512.hash seed.toList).toList
  let low := Point.littleEndian (hash.take 32)
  ⟨low % (1 <<< 254) / 8 * 8 + (1 <<< 254), hash.drop 32⟩

/-- The number that the hash of a message is. -/
def hashNumber (message : List UInt8) : Nat :=
  Point.littleEndian (Sha512.hash message).toList % order

/-- The public key of a seed. -/
def publicKey (seed : Bytes32) : Bytes32 :=
  .ofListPadded 32 (Point.mul (Secret.ofSeed seed).scalar .base).encode

/-- The signature of a message under a seed. -/
def sign (seed : Bytes32) (message : List UInt8) : FixedBytes 64 :=
  let secret := Secret.ofSeed seed
  let nonce := hashNumber (secret.nonceKey ++ message)
  let point := (Point.mul nonce .base).encode
  let challenge := hashNumber (point ++ (publicKey seed).toList ++ message)
  .ofListPadded 64 (point ++ Point.toLittleEndian ((nonce + challenge * secret.scalar) % order))

/-- Whether bytes are the key of some point. -/
def isPublicKey (key : Bytes32) : Bool :=
  (Point.decode? key.toList).isSome

/-- Whether a signature of a message holds under a public key; its number must be below the order, and
its point is compared byte by byte. -/
def verify (key : Bytes32) (message : List UInt8) (signature : FixedBytes 64) : Bool :=
  match Point.decode? key.toList with
  | none => false
  | some point =>
    let commitment := signature.toList.take 32
    let response := Point.littleEndian (signature.toList.drop 32)
    let challenge := hashNumber (commitment ++ key.toList ++ message)
    -- the commitment is the response times the base point, less the challenge times the key
    response < order
      && ((Point.mul response .base).add (Point.mul challenge point.neg)).encode == commitment

end LedgerTx.Ed25519
