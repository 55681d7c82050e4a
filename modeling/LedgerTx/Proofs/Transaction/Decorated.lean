import LedgerTx.Proofs.Listing.Decorated
import LedgerTx.Proofs.Transaction.Text

namespace LedgerTx.Envelope

open Listing

/-! # Decorated listings of envelopes

What a listing says stands in its paths and tokens alone. -/

variable {bytes : List UInt8} {envelope : Envelope}

/-- Whatever entries show the lines of an envelope, it is the envelope that they list. -/
theorem exists_toLines_of_shows (hfits : layout.wire.fits .standard envelope = true)
    (hplain : ∀ part ∈ envelope.parts, part.Plain) (hgood : ∀ part ∈ envelope.parts, part.Good) :
    ∃ lines, envelope.toLines = .ok lines ∧ (∀ line ∈ lines, line.path.Plain)
      ∧ (∀ line ∈ lines, Sound line.value)
      ∧ ∀ {text : String} {entries : List Entry}, Entry.ofText text.toList = .ok entries →
          List.Forall₂ Entry.Shows entries lines → ofText text = .ok envelope := by
  obtain ⟨lines, hlines, hsound, hread⟩ := hasParts.readsBack .root hfits hplain
  refine ⟨lines, hlines, hasParts.path_plain Path.Plain.root hlines, hsound, ?_⟩
  intro text entries hentries hshows
  have hlisted : layout.form.read .root (entries ++ []) = .ok (envelope, []) :=
    (hread hshows).eq_ok hgood
  rw [List.append_nil] at hlisted
  exact ofText_eq_ok.mpr ⟨entries, envelope, hentries, hlisted, hasParts.wire.decodeWhole_encode hfits⟩

/-- A listing that is read back is read as the same envelope however it is decorated: with blanks around
paths and tokens, carriage returns at the ends of lines, remarks after tokens and blank lines. -/
theorem ofText_of_decorates (h : layout.wire.decodeWhole bytes = .ok envelope)
    (hcodes : ∀ code ∈ envelope.assetCodes, code.Canonical)
    (hdepth : ∀ predicate ∈ envelope.predicates, predicate.depth ≤ 5)
    (hpayload : ∀ key ∈ envelope.signerKeys, key.HasPayload) :
    ∃ lines, envelope.toLines = .ok lines
      ∧ envelope.toText = .ok (String.ofList (textOf lines))
      ∧ Decorates lines (splitLines (textOf lines))
      ∧ ∀ texts, Decorates lines texts →
          ofText (String.ofList (List.intercalate ['\n'] texts)) = .ok envelope := by
  have hplain : ∀ part ∈ envelope.parts, part.Plain := plain_iff.mpr hcodes
  have hgood : ∀ part ∈ envelope.parts, part.Good := good_iff.mpr ⟨hdepth, hpayload⟩
  obtain ⟨lines, hlines, hpaths, hsound, hread⟩ :=
    exists_toLines_of_shows (fits_of_decodeWhole h) hplain hgood
  refine ⟨lines, hlines, toText_eq_ok.mpr ⟨lines, hlines, rfl⟩, ?_, fun texts hdecorates => ?_⟩
  · rw [splitLines_textOf hpaths hsound]
    exact .of_sound hsound
  · obtain ⟨entries, hentries, hshows⟩ := hdecorates.exists_ofText hpaths hsound
    refine hread ?_ hshows
    rw [String.toList_ofList]
    exact hentries

/-- However the listing of a transaction of one operation is decorated, it is read as that transaction. -/
theorem ofText_of_decorates_allowing :
    ∃ lines, (allowing ⟨[0x41, 0x42, 0x43, 0], rfl⟩).toLines = .ok lines
      ∧ (allowing ⟨[0x41, 0x42, 0x43, 0], rfl⟩).toText = .ok (String.ofList (textOf lines))
      ∧ Decorates lines (splitLines (textOf lines))
      ∧ ∀ texts, Decorates lines texts → ofText (String.ofList (List.intercalate ['\n'] texts))
          = .ok (allowing ⟨[0x41, 0x42, 0x43, 0], rfl⟩) := by
  obtain ⟨hcodes, hdepth, hpayload⟩ := listable_allowing canonical_abc
  exact ofText_of_decorates (decodeWhole_allowing _) hcodes hdepth hpayload

end LedgerTx.Envelope
