import LedgerTx.Bytes.Base64
import LedgerTx.Bytes.Hex
import LedgerTx.Strkey.Basic
import LedgerTx.Wire.Decoder

namespace LedgerTx

/-! # Errors

Every failure of the library is one of these causes; the wording is in the `message` functions alone. -/

/-- Why an argument is refused. -/
inductive ArgumentError where
  | assetCodeLength (length : Nat)
  | assetCodeCharacters (code : String)
  | notAsset (text : String)
  | poolId (fault : Hex.Fault)
  | noOperations
  | tooManyOperations (max count : Nat)
  | baseFeeTooLow (min fee : UInt32)
  | memoTooLong (max length : Nat)
  | feeOverflow
  | innerWithoutOperations
  | bumpBelowMinimum (fee min : Int) (operations : Nat) (baseFee : Int)
  | bumpBelowInner (fee : Int) (innerFee : UInt32)
  | envelopeIsFeeBump
  | envelopeIsNotFeeBump
  | tooManySignatures (max : Nat)
  | signatureTooLong (max length : Nat)
  | unsignedCredentials
  | trustInNative
  | dataNameLength (max length : Nat)
  | dataValueTooLong (max length : Nat)
  | notHex (text : String) (fault : Hex.Fault)
  | hashLength (length : Nat)
  | notAmount (text : String)
  | amountPlaces (max : Nat) (text : String)
  | amountZero (text : String)
deriving DecidableEq

/-- The text of an argument error, after its heading. -/
def ArgumentError.message : ArgumentError → String
  | .assetCodeLength length => s!"Asset code must be 1-12 characters, got {length}"
  | .assetCodeCharacters code => s!"Asset code must be alphanumeric: {code}"
  | .notAsset text => s!"Invalid asset '{text}'"
  | .poolId fault => fault.message
  | .noOperations => "At least one operation is required"
  | .tooManyOperations max count => s!"At most {max} operations are allowed, got {count}"
  | .baseFeeTooLow min fee => s!"Base fee {fee} is below the minimum {min}"
  | .memoTooLong max length => s!"Memo text must be at most {max} bytes, got {length}"
  | .feeOverflow => "Fee overflows u32"
  | .innerWithoutOperations => "Inner transaction has no operations"
  | .bumpBelowMinimum fee min operations baseFee =>
    s!"Fee bump fee {fee} is below the minimum {min} ({operations} operations + 1 at base fee {baseFee})"
  | .bumpBelowInner fee innerFee =>
    s!"Fee bump fee {fee} is below the inner transaction fee {innerFee}"
  | .envelopeIsFeeBump => "Envelope is a fee bump; use FeeBumpTransaction"
  | .envelopeIsNotFeeBump => "Envelope is not a fee bump"
  | .tooManySignatures max => s!"At most {max} signatures are allowed"
  | .signatureTooLong max length => s!"Signature must be at most {max} bytes, got {length}"
  | .unsignedCredentials => "Source-account credentials carry no signature"
  | .trustInNative => "Cannot change trust in the native asset"
  | .dataNameLength max length => s!"Data name must be 1 to {max} bytes, got {length}"
  | .dataValueTooLong max length => s!"Data value must be at most {max} bytes, got {length}"
  | .notHex text fault => s!"Invalid hex '{text}': {fault.message}"
  | .hashLength length => s!"Hash must be 32 bytes, got {length}"
  | .notAmount text => s!"Invalid amount '{text}'"
  | .amountPlaces max text => s!"Amount '{text}' has more than {max} decimal places"
  | .amountZero text => s!"Amount must be positive, got '{text}'"

/-- Why a key can not sign. -/
inductive SigningError where
  | noSecretKey
  | badPublicKey
  | emptyMessage
  /-- A signer of another make says itself why. -/
  | refused (reason : String)
deriving DecidableEq

/-- The text of a signing error, after its heading. -/
def SigningError.message : SigningError → String
  | .noSecretKey => "Key pair has no secret key"
  | .badPublicKey => "Invalid public key"
  | .emptyMessage => "empty message"
  | .refused reason => reason

/-- Why a text or a byte string is not a value of its type. -/
inductive ValueError where
  | decode (cause : DecodeError)
  | argument (cause : ArgumentError)
  | address (cause : AddressError)
deriving DecidableEq

/-- The whole text of a value error. -/
def ValueError.message : ValueError → String
  | .decode cause => s!"XDR decode error: {cause.message}"
  | .argument cause => s!"Invalid argument: {cause.message}"
  | .address cause => s!"Invalid address: {cause.message}"

/-- Why a line of a listing can not be written or read. -/
inductive LineError where
  | missingLine
  | outOfPlace (number : Nat) (found : String)
  | missingValue
  | notNumber (token : String)
  | notBoolean (token : String)
  | tooLong (length max : Nat)
  | notHex (fault : Hex.Fault)
  | wrongSize (expected found : Nat)
  | notString
  | trailingText
  | unknownName (token : String)
  | unexpectedLine (number : Nat)
  | noSeparator (number : Nat)
  | unknownVersion (version : Int32)
  | notBumpable (kind : String)
  | notEnvelope (kind : String)
  | poolShareOnly
  | nestedTooDeeply
  /-- An asset code of the long form that reads back as one of the short form. -/
  | shortLongCode
  | value (cause : ValueError)
deriving DecidableEq

/-- The text of a line error, after its heading. -/
def LineError.message : LineError → String
  | .missingLine => "missing line"
  | .outOfPlace number found => s!"expected this path at line {number}, found '{found}'"
  | .missingValue => "missing value"
  | .notNumber token => s!"invalid number '{token}'"
  | .notBoolean token => s!"invalid boolean '{token}'"
  | .tooLong length max => s!"length {length} exceeds maximum {max}"
  | .notHex fault => s!"invalid hex: {fault.message}"
  | .wrongSize expected found => s!"expected {expected} bytes, got {found}"
  | .notString => "invalid string"
  | .trailingText => "unquoted string has trailing text"
  | .unknownName token => s!"unknown value '{token}'"
  | .unexpectedLine number => s!"unexpected line {number}"
  | .noSeparator number => s!"line {number} has no ':' separator"
  | .unknownVersion version => s!"unsupported extension version {version}"
  | .notBumpable kind => s!"{kind} cannot be fee bumped"
  | .notEnvelope kind => s!"{kind} is not a transaction envelope"
  | .poolShareOnly => "only pool shares use the expanded form"
  | .nestedTooDeeply => "predicate nested too deeply"
  | .shortLongCode => "alphanum12 asset code has 4 characters or fewer"
  | .value cause => cause.message

/-- A line error and the path of the line. -/
structure ListingError where
  path : String
  cause : LineError
deriving DecidableEq

/-- A failure of any operation of the library. -/
inductive Error where
  | value (cause : ValueError)
  | base64 (fault : Base64.Fault)
  | listing (error : ListingError)
  | signing (cause : SigningError)
deriving DecidableEq

/-- The whole text of an error. -/
def Error.message : Error → String
  | .value cause => cause.message
  | .base64 fault => s!"Encoding error: Invalid base64: {fault.message}"
  | .listing ⟨path, cause⟩ => s!"TxRep error at `{path}`: {cause.message}"
  | .signing cause => s!"Signing error: {cause.message}"

instance : MonadLift (Except DecodeError) (Except ValueError) := ⟨(·.mapError .decode)⟩
instance : MonadLift (Except ArgumentError) (Except ValueError) := ⟨(·.mapError .argument)⟩
instance : MonadLift (Except AddressError) (Except ValueError) := ⟨(·.mapError .address)⟩
instance : MonadLift (Except ValueError) (Except Error) := ⟨(·.mapError .value)⟩
instance : MonadLift (Except Base64.Fault) (Except Error) := ⟨(·.mapError .base64)⟩
instance : MonadLift (Except ListingError) (Except Error) := ⟨(·.mapError .listing)⟩
instance : MonadLift (Except SigningError) (Except Error) := ⟨(·.mapError .signing)⟩

end LedgerTx
