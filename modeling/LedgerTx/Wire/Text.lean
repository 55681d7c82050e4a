import LedgerTx.Error
import LedgerTx.Text.Blank
import LedgerTx.Wire.Codec

namespace LedgerTx.Codec

/-! # Wire forms as text

Wire forms are handed around in base64. -/

variable {α : Type}

/-- The wire form of a value in base64. -/
def toBase64 (codec : Codec α) (a : α) : String :=
  String.ofList (Base64.encode (codec.encode a))

/-- The value whose wire form a text spells in base64, blanks at the ends aside. -/
def ofBase64 (codec : Codec α) (text : String) : Except Error α := do
  let bytes ← Base64.decode (Blank.trim text.toList)
  codec.decodeWhole bytes

end LedgerTx.Codec
