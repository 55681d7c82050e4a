import LedgerTx.Proofs.Bytes.Base64
import LedgerTx.Proofs.Wire.Composed
import LedgerTx.Wire.Text

namespace LedgerTx.Codec

/-! # Reading wire forms from text

A text in base64 is read as its bytes are, so all laws of reading bytes hold of texts too. -/

variable {α : Type} {codec : Codec α} {v : α}

/-- A text is read in two steps: its bytes, and the value that they are the wire form of. -/
theorem ofBase64_eq_ok {text : String} :
    codec.ofBase64 text = .ok v ↔
      ∃ bytes, Base64.decode (Blank.trim text.toList) = .ok bytes ∧ codec.decodeWhole bytes = .ok v := by
  constructor
  · intro h
    replace h := Except.bind_eq_ok.mp h
    rcases h with ⟨bytes, hbytes, h⟩
    exact ⟨bytes, Except.mapError_eq_ok.mp hbytes, Except.mapError_eq_ok.mp (Except.mapError_eq_ok.mp h)⟩
  · rintro ⟨bytes, hbytes, h⟩
    refine Except.bind_eq_ok.mpr ⟨bytes, Except.mapError_eq_ok.mpr hbytes, ?_⟩
    exact Except.mapError_eq_ok.mpr (Except.mapError_eq_ok.mpr h)

/-- Bytes in base64 are read as the bytes are. -/
theorem ofBase64_encode {bytes : List UInt8} :
    codec.ofBase64 (String.ofList (Base64.encode bytes)) = .ok v ↔ codec.decodeWhole bytes = .ok v := by
  have hbytes : Base64.decode (Blank.trim (String.ofList (Base64.encode bytes)).toList) = .ok bytes := by
    rw [String.toList_ofList, Base64.trim_encode, Base64.decode_encode]
  rw [ofBase64_eq_ok, hbytes]
  constructor
  · rintro ⟨bytes', heq, h⟩
    cases heq
    exact h
  · intro h
    exact ⟨bytes, rfl, h⟩

/-- A value that keeps the limits is read back from its text. -/
theorem Composed.ofBase64_toBase64 {lenient : Bool} (h : Composed lenient codec)
    (hfits : codec.fits .standard v = true) : codec.ofBase64 (codec.toBase64 v) = .ok v :=
  ofBase64_encode.mpr (h.decodeWhole_encode hfits)

end LedgerTx.Codec
