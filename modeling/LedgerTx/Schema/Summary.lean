import LedgerTx.Json.Value
import LedgerTx.Text.Decimal
import LedgerTx.Transaction.Payload

namespace LedgerTx.Schema

/-! # Summaries

What is told of a value in short, as JSON: addresses, names of kinds, and numbers, those of 64 bits and
more in decimal text. -/

namespace Summary

/-- A number in decimal text. -/
def number (i : Int) : Json :=
  .string (String.ofList (Decimal.ofInt i))

/-- Bytes in hexadecimal text. -/
def hex (bytes : List UInt8) : Json :=
  .string (String.ofList (Hex.encode bytes))

/-- The name of a constant. -/
def name {κ : Type} [Enumeration κ] (k : κ) : Json :=
  .string (Enumeration.name k)

/-- A key as an address, and without the number of a multiplexed one. -/
def muxedAccount (account : MuxedAccount) : List (String × Json) := [
  ("address", .string account.address),
  ("account_id", .string account.accountId.address),
  ("ed25519", hex account.key.toList),
  ("plain", .string (MuxedAccount.ofAccountId account.accountId).address)]

/-- A signer and its weight. -/
def accountSigner (signer : AccountSigner) : Json :=
  .array [.string signer.key.strkey, .integer signer.weight.toNat]

/-- A signature and its hint. -/
def signature (signature : DecoratedSignature) : Json :=
  .object [("hint", hex signature.hint.toList), ("signature", hex signature.signature)]

/-- An asset's text, kind and wire forms. -/
def asset (asset : Asset) : Json :=
  .object [
    ("canonical", .string asset.canonical),
    ("type", name asset.kind),
    ("code_matches_type", .bool asset.codeMatchesForm),
    ("xdr", hex (Asset.codec.encode asset)),
    ("trustline", hex (TrustLineAsset.layout.wire.encode (.asset asset))),
    ("change_trust", hex (ChangeTrustAsset.layout.wire.encode (.asset asset)))]

/-- A code's text and wire form. -/
def assetCode (code : AssetCode) : Json :=
  .object [
    ("code", .string code.toText),
    ("code_matches_type", .bool code.matchesForm),
    ("xdr", hex (AssetCode.codec.encode code))]

/-- The first and the last second. -/
def timeBounds (bounds : TimeBounds) : Json :=
  .array [number bounds.minTime.toNat, number bounds.maxTime.toNat]

/-- The first and the last ledger. -/
def ledgerBounds (bounds : LedgerBounds) : Json :=
  .array [.integer bounds.minLedger.toNat, .integer bounds.maxLedger.toNat]

/-- The kind of preconditions and their time bounds. -/
def preconditions (preconditions : Preconditions) : Json :=
  .array [name preconditions.kind, .ofOption timeBounds preconditions.timeBounds?]

/-- The kind of an operation and the account that it acts for. -/
def operation (operation : Operation) : Json :=
  .array [
    name operation.kind,
    .ofOption (fun account => .string account.address) operation.source]

/-- How many entries a footprint has. -/
def footprint (footprint : Footprint) : Json :=
  .array [.integer footprint.readOnly.length, .integer footprint.readWrite.length]

/-- The kind of an envelope and how many signatures are on it. -/
def envelope (envelope : Envelope) : Json :=
  .array [name envelope.kind, .integer envelope.signatures.length]

end Summary

end LedgerTx.Schema
