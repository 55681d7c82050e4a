import LedgerTx.Proofs.Listing.Taken
import LedgerTx.Proofs.Orderly.Transaction
import LedgerTx.Proofs.Transaction.Text

namespace LedgerTx

open Listing Layout

/-! # The lines of a listing, in order

A listing is read when it has all of its lines in their order, once each, and no other choice of the same
lines is read at all. -/

/-- Lines that stand below a path are tidy, if the path itself can be told. -/
theorem Listing.Stand.tidy {path : Path} {places : Place → Prop} {lines : List Line}
    (h : Stand path places lines) (hpath : path.Proper) : Tidy lines := by
  refine ⟨fun line hline step hstep => ?_, h.apart⟩
  obtain ⟨more, hmore, hproper, -⟩ := h.below line hline
  rw [hmore] at hstep
  rcases List.mem_append.mp hstep with hfront | hback
  · exact hpath step hfront
  · exact hproper step hback

namespace Envelope

variable {bytes : List UInt8} {envelope : Envelope} {lines : List Line}

/-- No two lines of an envelope clash. -/
theorem tidy_of_toLines (h : envelope.toLines = .ok lines) : Tidy lines :=
  (orderly.stand h).tidy .root

/-- What is wrong with the entries of a text is what is wrong with the text. -/
theorem ofText_eq_error {text : String} {entries : List Entry} {cause : ListingError}
    (hentries : Entry.ofText text.toList = .ok entries) (h : ofEntries entries = .error cause) :
    ofText text = .error (.listing cause) := by
  unfold ofText
  rw [hentries]
  show ((ofEntries entries).mapError Error.listing >>= _) = _
  rw [h]
  rfl

/-- Of entries that were taken from the lines of an envelope, only those of all lines in their order list
an envelope. -/
theorem eq_of_ofEntries (hlines : envelope.toLines = .ok lines) {taken : List Line}
    (htaken : ∀ line ∈ taken, line ∈ lines) {entries all : List Entry} {read other : Envelope}
    (hentries : entries.map Entry.content = taken.map Line.content)
    (hall : all.map Entry.content = lines.map Line.content) (hread : ofEntries entries = .ok read)
    (hother : ofEntries all = .ok other) : taken = lines := by
  have htidy := tidy_of_toLines hlines
  have hself : ∀ line ∈ lines, line ∈ lines := fun line hline => hline
  have hconcordant := htidy.concordant htaken hself hentries hall
  obtain ⟨-, front, back, hfront, hback, hcontent⟩ := orderly.alike .root hconcordant
    (ofEntries_eq_ok.mp hread) (ofEntries_eq_ok.mp hother)
  -- nothing is left of either, so all of both was taken alike
  rw [List.append_nil] at hfront hback
  rw [hfront] at hentries
  rw [hback] at hall
  exact htidy.eq_of_map_content htaken hself (hentries.symm.trans (hcontent.trans hall))

/-- No two lines of a listing that is read back are at the same path, and of all choices of its lines only
the listing itself is read: any other gives an error of the listing. -/
theorem ofText_joined_of_toLines (h : layout.wire.decodeWhole bytes = .ok envelope)
    (hcodes : ∀ code ∈ envelope.assetCodes, code.Canonical)
    (hdepth : ∀ predicate ∈ envelope.predicates, predicate.depth ≤ 5)
    (hpayload : ∀ key ∈ envelope.signerKeys, key.HasPayload) :
    ∃ lines, envelope.toLines = .ok lines ∧ splitLines (textOf lines) = lines.map Line.shown ++ [[]]
      ∧ (lines.map fun line => line.path.text).Nodup
      ∧ ∀ taken : List Line, (∀ line ∈ taken, line ∈ lines) →
          (taken = lines → ofText (String.ofList (joined taken)) = .ok envelope)
            ∧ (taken ≠ lines → ∃ cause, ofText (String.ofList (joined taken)) = .error (.listing cause)) := by
  have hfits := fits_of_decodeWhole h
  have hplain : ∀ part ∈ envelope.parts, part.Plain := plain_iff.mpr hcodes
  have hgood : ∀ part ∈ envelope.parts, part.Good := good_iff.mpr ⟨hdepth, hpayload⟩
  obtain ⟨lines, hlines, hsound, hread⟩ := hasParts.readsBack .root hfits hplain
  have hpaths := hasParts.path_plain Path.Plain.root hlines
  -- every choice of lines has entries
  have hofText : ∀ taken : List Line, (∀ line ∈ taken, line ∈ lines) →
      ∃ entries, Entry.ofText (String.ofList (joined taken)).toList = .ok entries
        ∧ entries.map Entry.content = taken.map Line.content := by
    intro taken htaken
    rw [String.toList_ofList]
    exact exists_ofText_joined (fun line hline => hpaths line (htaken line hline)) fun line hline =>
      hsound line (htaken line hline)
  obtain ⟨all, hall, hcontent⟩ := hofText lines fun line hline => hline
  -- those of all lines are read as the envelope
  have hlisted : layout.form.read .root all = .ok (envelope, []) := by
    have hsettles : Settles (∀ part ∈ envelope.parts, part.Good) (layout.form.read .root (all ++ []))
        (envelope, []) := hread (forall₂_shows hsound hcontent)
    rw [List.append_nil] at hsettles
    exact hsettles.eq_ok hgood
  refine ⟨lines, hlines, splitLines_textOf hpaths hsound, (tidy_of_toLines hlines).nodup_paths, ?_⟩
  intro taken htaken
  constructor
  · rintro rfl
    exact ofText_eq_ok.mpr ⟨all, envelope, hall, hlisted, hasParts.wire.decodeWhole_encode hfits⟩
  · intro hne
    obtain ⟨entries, hentries, htext⟩ := hofText taken htaken
    cases hfound : ofEntries entries with
    | error cause => exact ⟨cause, ofText_eq_error hentries hfound⟩
    | ok read =>
      exact absurd (eq_of_ofEntries hlines htaken htext hcontent hfound (ofEntries_eq_ok.mpr hlisted)) hne

/-- Of the lines of a transaction of one operation, only all of them in their order are read. -/
theorem ofText_joined_allowing :
    ∃ lines, (allowing ⟨[0x41, 0x42, 0x43, 0], rfl⟩).toLines = .ok lines
      ∧ splitLines (textOf lines) = lines.map Line.shown ++ [[]]
      ∧ (lines.map fun line => line.path.text).Nodup
      ∧ ∀ taken : List Line, (∀ line ∈ taken, line ∈ lines) →
          (taken = lines → ofText (String.ofList (joined taken))
            = .ok (allowing ⟨[0x41, 0x42, 0x43, 0], rfl⟩))
            ∧ (taken ≠ lines → ∃ cause, ofText (String.ofList (joined taken)) = .error (.listing cause)) := by
  obtain ⟨hcodes, hdepth, hpayload⟩ := listable_allowing canonical_abc
  exact ofText_joined_of_toLines (decodeWhole_allowing _) hcodes hdepth hpayload

end Envelope

end LedgerTx
