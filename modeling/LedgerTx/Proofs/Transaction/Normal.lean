import LedgerTx.Proofs.Transaction.Text

namespace LedgerTx.Envelope

open Listing

/-! # Listings of any spelling

A listing that is read need not be one that is written: numbers may have signs and leading zeros, bytes
large digits, texts no quotes, assets other names, and lines comments.  Whatever it is, the envelope that
it lists can be listed again, and its own listing is read as the same envelope. -/

variable {text : String} {envelope : Envelope}

/-- The listing of the envelope that a listing is read as. -/
def normalize (text : String) : Except Error String := do
  (← ofText text).toText

/-- A text is normalized by reading it and writing what was read. -/
theorem normalize_eq_ok {normal : String} (h : ofText text = .ok envelope)
    (hwrite : envelope.toText = .ok normal) : normalize text = .ok normal := by
  refine Except.bind_eq_ok.mpr ⟨envelope, h, ?_⟩
  exact Except.mapError_eq_ok.mpr hwrite

/-- Of an envelope that is read from short lines, all parts are plain and good. -/
theorem plain_good_of_ofText (h : ofText text = .ok envelope)
    (hlines : ∀ line ∈ splitLines text.toList, Utf8.size line ≤ Rules.maxCount) :
    (∀ part ∈ envelope.parts, part.Plain) ∧ ∀ part ∈ envelope.parts, part.Good := by
  obtain ⟨entries, listed, hentries, hlisted, hread⟩ := ofText_eq_ok.mp h
  have hshort := Entry.short_of_ofText hentries hlines
  have hadmitted := hasParts.admits hshort hlisted
  -- every count can be said, so the envelope is the one that was listed
  obtain rfl : envelope = listed := hasParts.wire.eq_of_decodeWhole_encode hadmitted.fits hread
  exact ⟨hadmitted.plain, hadmitted.good⟩

/-- An envelope that is read from a listing keeps the limits of the wire, is listed again, and is read from
its own listing, which is its own normal form.  The one condition is on the memory that holds the listing:
no line may be longer than a count of four bytes can say, as no text is where lengths have 32 bits. -/
theorem exists_normal_of_ofText (h : ofText text = .ok envelope) :
    layout.wire.decodeWhole (layout.wire.encode envelope) = .ok envelope ∧
      ((∀ line ∈ splitLines text.toList, Utf8.size line ≤ Rules.maxCount) →
        ∃ normal, envelope.toText = .ok normal ∧ ofText normal = .ok envelope
          ∧ normalize text = .ok normal ∧ normalize normal = .ok normal) := by
  obtain ⟨-, listed, -, -, hread⟩ := ofText_eq_ok.mp h
  have hfits := fits_of_decodeWhole hread
  refine ⟨hasParts.wire.decodeWhole_encode hfits, fun hlines => ?_⟩
  obtain ⟨hplain, hgood⟩ := plain_good_of_ofText h hlines
  obtain ⟨normal, hwrite, hiff, -⟩ := exists_toText hfits hplain
  have hagain : ofText normal = .ok envelope := hiff.mp hgood
  exact ⟨normal, hwrite, hagain, normalize_eq_ok h hwrite, normalize_eq_ok hagain hwrite⟩

/-- The characters of a listing with a sign and a zero before the fee, an empty line, a comment, a text
without quotes and large digits. -/
def spelled : List Char :=
  ["type: ENVELOPE_TYPE_TX\n",
    "tx.sourceAccount: GAAAAAAAAAAAAAAAAAAAAAAAAAAAAAAAAAAAAAAAAAAAAAAAAAAAAWHF\n",
    "tx.fee: +0100\n", "\n",
    "tx.seqNum: 1 (the first)\n",
    "tx.cond.type: PRECOND_NONE\n",
    "tx.memo.type: MEMO_TEXT\n",
    "tx.memo.text: hello\n",
    "tx.operations.len: 0\n",
    "tx.ext.v: 0\n",
    "signatures.len: 1\n",
    "signatures[0].hint: ABCDEF01\n",
    "signatures[0].signature: \"\"\n"].flatMap String.toList

/-- A listing in another spelling has a normal form, which is its own. -/
theorem exists_normal_spelled :
    ∃ envelope normal, ofText (String.ofList spelled) = .ok envelope
      ∧ (∀ line ∈ splitLines (String.ofList spelled).toList, Utf8.size line ≤ Rules.maxCount)
      ∧ envelope.toText = .ok normal ∧ ofText normal = .ok envelope
      ∧ normalize normal = .ok normal := by
  have hok : (ofText (String.ofList spelled)).isOk = true := by
    unfold ofText
    rw [String.toList_ofList]
    decide +kernel
  have hlines : ∀ line ∈ splitLines (String.ofList spelled).toList, Utf8.size line ≤ Rules.maxCount := by
    rw [String.toList_ofList]
    decide +kernel
  cases hread : ofText (String.ofList spelled) with
  | error e =>
    rw [hread] at hok
    cases hok
  | ok envelope =>
    obtain ⟨normal, hwrite, hagain, -, hnormal⟩ := (exists_normal_of_ofText hread).2 hlines
    exact ⟨envelope, normal, rfl, hlines, hwrite, hagain, hnormal⟩

end LedgerTx.Envelope
