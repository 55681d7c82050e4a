import LedgerTx.Transaction.Envelope
import LedgerTx.Wire.Text

namespace LedgerTx

/-! # Envelopes as text

Envelopes are handed around in base64, or listed with one field a line. -/

open Listing

namespace Envelope

/-! ## Base64 -/

/-- An envelope in base64. -/
def toBase64 (envelope : Envelope) : String :=
  layout.wire.toBase64 envelope

/-- The envelope of a text in base64. -/
def ofBase64 (text : String) : Except Error Envelope :=
  layout.wire.ofBase64 text

/-! ## Listings -/

/-- The lines of an envelope's listing.  An envelope has none if some value in it has no text that reads
back as the same bytes. -/
def toLines (envelope : Envelope) : Except ListingError (List Line) :=
  layout.form.write .root envelope

/-- An envelope's listing. -/
def toText (envelope : Envelope) : Except ListingError String :=
  return String.ofList (textOf (← envelope.toLines))

/-- The envelope that all of the entries list. -/
def ofEntries (entries : List Entry) : Except ListingError Envelope := do
  let (envelope, rest) ← layout.form.read .root entries
  finish rest
  return envelope

/-- The envelope of a listing, which must keep the limits that hold on the wire. -/
def ofText (text : String) : Except Error Envelope := do
  let entries ← Entry.ofText text.toList
  let envelope ← ofEntries entries
  layout.wire.decodeWhole (layout.wire.encode envelope)

end Envelope

/-! ## Signed transactions -/

namespace Signed

/-- The signed transaction of an envelope, which must be no fee bump; the legacy form is brought to the
current one. -/
def ofEnvelope : Envelope → Except ArgumentError (Signed Transaction)
  | .transaction signed => .ok signed
  | .legacy signed => .ok ⟨signed.tx.toTransaction, signed.signatures⟩
  | .feeBump _ => .error .envelopeIsFeeBump

/-- The signed fee bump of an envelope. -/
def bumpOfEnvelope : Envelope → Except ArgumentError (Signed FeeBump)
  | .feeBump signed => .ok signed
  | _ => .error .envelopeIsNotFeeBump

/-- The signed transaction of an envelope in base64. -/
def ofBase64 (text : String) : Except Error (Signed Transaction) := do
  let envelope ← Envelope.ofBase64 text
  (ofEnvelope envelope : Except ValueError (Signed Transaction))

/-- The signed fee bump of an envelope in base64. -/
def bumpOfBase64 (text : String) : Except Error (Signed FeeBump) := do
  let envelope ← Envelope.ofBase64 text
  (bumpOfEnvelope envelope : Except ValueError (Signed FeeBump))

end Signed

end LedgerTx
