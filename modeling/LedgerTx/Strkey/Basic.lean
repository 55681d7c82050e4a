import LedgerTx.Bytes.Fixed
import LedgerTx.Strkey.Base32
import LedgerTx.Strkey.Checksum

namespace LedgerTx

/-! # Strkeys

A strkey is the base32 text of a version byte, a payload and a checksum.  The version byte says what the
payload is and shows as the first letter.  Reading accepts a text only if writing gives that text. -/

/-- What the payload of a strkey is. -/
inductive Strkey.Kind where
  /-- An account's public key, `G…`. -/
  | accountId
  /-- A public key and a number, `M…`. -/
  | muxedAccount
  /-- A secret seed, `S…`. -/
  | secretSeed
  /-- The hash of an authorized transaction, `T…`. -/
  | preAuthTx
  /-- The hash of a value to be shown, `X…`. -/
  | sha256Hash
  /-- A public key and a payload that it signs, `P…`. -/
  | signedPayload
  /-- A contract's id, `C…`. -/
  | contract
deriving DecidableEq

/-- Why a text is not the address that was asked for. -/
inductive AddressError where
  | badCharacter (byte : UInt8)
  /-- Writing the bytes gives another text. -/
  | notCanonical
  | tooShort
  | badChecksum
  | unknownVersion (byte : UInt8)
  | badLength (length : Nat) (kind : Strkey.Kind)
  | wrongKind (expected found : Strkey.Kind)
  /-- The payload of that kind is no key of 32 bytes. -/
  | notKey
  | notAccount (found : Strkey.Kind)
  | notSigner (found : Strkey.Kind)
deriving DecidableEq

namespace Strkey

/-- The kinds of strkeys. -/
def Kind.all : List Kind :=
  [.accountId, .muxedAccount, .secretSeed, .preAuthTx, .sha256Hash, .signedPayload, .contract]

/-- What messages call a kind. -/
def Kind.name : Kind → String
  | .accountId => "AccountId"
  | .muxedAccount => "MuxedAccount"
  | .secretSeed => "SecretSeed"
  | .preAuthTx => "PreAuthTx"
  | .sha256Hash => "Sha256Hash"
  | .signedPayload => "SignedPayload"
  | .contract => "Contract"

/-- The byte that says the kind; its upper five bits are the first letter of the text. -/
def Kind.version : Kind → UInt8
  | .accountId => 48
  | .muxedAccount => 96
  | .secretSeed => 144
  | .preAuthTx => 152
  | .sha256Hash => 184
  | .signedPayload => 120
  | .contract => 16

/-- The kind that a version byte says. -/
def Kind.ofVersion? (b : UInt8) : Option Kind :=
  all.find? fun kind => kind.version == b

/-- Whether a payload of that kind may be so long. -/
def Kind.allowsLength (kind : Kind) (length : Nat) : Bool :=
  match kind with
  | .muxedAccount => length == 40
  | .signedPayload => 40 ≤ length && length ≤ 100 && length % 4 == 0
  | _ => length == 32

/-- The text of a payload of some kind. -/
def encode (kind : Kind) (payload : List UInt8) : String :=
  let body := kind.version :: payload
  String.ofList (Base32.encode (body ++ Checksum.bytesOf body))

/-- The kind and the payload of a strkey. -/
def decode (text : String) : Except AddressError (Kind × List UInt8) := do
  let data ← (Base32.decode text.toList).mapError .badCharacter
  -- bits after the last byte are dropped, so other texts may spell the same data
  if Base32.encode data ≠ text.toList then throw .notCanonical
  -- a version byte and two bytes of checksum at least
  if data.length < 3 then throw .tooShort
  let body := data.take (data.length - 2)
  if data.drop (data.length - 2) ≠ Checksum.bytesOf body then throw .badChecksum
  -- the length above leaves a version byte in any case
  match body with
  | [] => throw .tooShort
  | version :: payload =>
    match Kind.ofVersion? version with
    | none => throw (.unknownVersion version)
    | some kind =>
      if kind.allowsLength payload.length then return (kind, payload)
      else throw (.badLength payload.length kind)

/-- The payload of a strkey that must be of the given kind. -/
def decodeAs (kind : Kind) (text : String) : Except AddressError (List UInt8) := do
  -- all checks come first, so a bad text is never reported as a wrong kind
  let (found, payload) ← decode text
  if found = kind then return payload else throw (.wrongKind kind found)

/-- The key that a strkey of the given kind holds. -/
def decodeKey (kind : Kind) (text : String) : Except AddressError Bytes32 := do
  let payload ← decodeAs kind text
  match FixedBytes.ofList? payload with
  | some key => return key
  | none => throw .notKey

/-- Whether a text is the address of an account. -/
def isAccountId (text : String) : Bool :=
  match decodeAs .accountId text with
  | .ok _ => true
  | .error _ => false

end Strkey

/-- The text of an address error, after its heading; a byte is shown as the character of that number. -/
def AddressError.message : AddressError → String
  | .badCharacter byte => s!"Invalid base32 character '{Char.ofNat byte.toNat}'"
  | .notCanonical => "Non-canonical base32"
  | .tooShort => "Strkey too short"
  | .badChecksum => "Invalid checksum"
  | .unknownVersion byte => s!"Unknown version byte {byte}"
  | .badLength length kind => s!"Invalid payload length {length} for {kind.name}"
  | .wrongKind expected found => s!"Expected {expected.name} strkey, got {found.name}"
  | .notKey => "Payload must be 32 bytes"
  | .notAccount found => s!"Expected account or muxed account, got {found.name}"
  | .notSigner found => s!"{found.name} strkey is not a signer key"

end LedgerTx
