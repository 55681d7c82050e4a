import LedgerTx.Proofs.Parts.Transaction
import LedgerTx.Transaction.Text

namespace LedgerTx.Envelope

open Listing

/-! # Listings of envelopes

Which envelopes are read back from their listings.  The codes of assets alone decide whether a listing can
be taken for another envelope; too many levels of conditions and signers without a payload only make it
unreadable. -/

variable {bytes : List UInt8} {envelope : Envelope}

/-- An envelope that comes off the wire keeps the limits. -/
theorem fits_of_decodeWhole (h : layout.wire.decodeWhole bytes = .ok envelope) :
    layout.wire.fits .standard envelope = true :=
  (hasParts.wire.fits_and_length (Decoder.whole_eq_ok.mp h)).1

/-- Entries list an envelope if it is read from them and none is left. -/
theorem ofEntries_eq_ok {entries : List Entry} {read : Envelope} :
    ofEntries entries = .ok read ↔ layout.form.read .root entries = .ok (read, []) := by
  constructor
  · intro h
    obtain ⟨⟨found, rest⟩, hfound, h⟩ := Except.bind_eq_ok.mp h
    cases rest with
    | nil =>
      cases h
      exact hfound
    | cons entry rest => cases h
  · intro h
    exact Except.bind_eq_ok.mpr ⟨(read, []), h, rfl⟩

/-- A listing is read in three steps: its entries, the envelope that they list, and its limits. -/
theorem ofText_eq_ok {text : String} {read : Envelope} :
    ofText text = .ok read ↔ ∃ entries listed, Entry.ofText text.toList = .ok entries
      ∧ layout.form.read .root entries = .ok (listed, [])
      ∧ layout.wire.decodeWhole (layout.wire.encode listed) = .ok read := by
  constructor
  · intro h
    replace h := Except.bind_eq_ok.mp h
    rcases h with ⟨entries, hentries, h⟩
    replace h := Except.bind_eq_ok.mp h
    rcases h with ⟨listed, hlisted, h⟩
    exact ⟨entries, listed, Except.mapError_eq_ok.mp hentries,
      ofEntries_eq_ok.mp (Except.mapError_eq_ok.mp hlisted),
      Except.mapError_eq_ok.mp (Except.mapError_eq_ok.mp h)⟩
  · rintro ⟨entries, listed, hentries, hlisted, hread⟩
    refine Except.bind_eq_ok.mpr ⟨entries, Except.mapError_eq_ok.mpr hentries, ?_⟩
    refine Except.bind_eq_ok.mpr ⟨listed, Except.mapError_eq_ok.mpr (ofEntries_eq_ok.mpr hlisted), ?_⟩
    exact Except.mapError_eq_ok.mpr (Except.mapError_eq_ok.mpr hread)

/-- An envelope is written as its lines are. -/
theorem toText_eq_ok {text : String} :
    envelope.toText = .ok text ↔
      ∃ lines, layout.form.write .root envelope = .ok lines ∧ text = String.ofList (textOf lines) := by
  constructor
  · intro h
    replace h := Except.bind_eq_ok.mp h
    rcases h with ⟨lines, hlines, h⟩
    cases h
    exact ⟨lines, hlines, rfl⟩
  · rintro ⟨lines, hlines, rfl⟩
    exact Except.bind_eq_ok.mpr ⟨lines, hlines, rfl⟩

/-! ## Canonical codes -/

/-- The listing of an envelope with canonical codes is read as that envelope if its other parts are good,
and as nothing if they are not. -/
theorem exists_toText (hfits : layout.wire.fits .standard envelope = true)
    (hplain : ∀ part ∈ envelope.parts, part.Plain) :
    ∃ text, envelope.toText = .ok text ∧ ((∀ part ∈ envelope.parts, part.Good) ↔ ofText text = .ok envelope)
      ∧ ∀ read, ofText text = .ok read → read = envelope := by
  rcases hasParts.readsBack .root hfits hplain with ⟨lines, hwrite, hsound, hread⟩
  have hpaths := hasParts.path_plain Path.Plain.root hwrite
  rcases exists_ofLines hpaths hsound 1 with ⟨entries, hentries, hshown⟩
  have hsettles : Settles (∀ part ∈ envelope.parts, part.Good) (layout.form.read .root entries)
      (envelope, []) := by
    have hfound : Settles (∀ part ∈ envelope.parts, part.Good) (layout.form.read .root (entries ++ []))
        (envelope, []) := hread hshown
    rwa [List.append_nil] at hfound
  have hwhole := hasParts.wire.decodeWhole_encode hfits
  -- whatever is read comes from these entries
  have hall : ∀ read, ofText (String.ofList (textOf lines)) = .ok read →
      (∀ part ∈ envelope.parts, part.Good) ∧ read = envelope := by
    intro read h
    rcases ofText_eq_ok.mp h with ⟨entries', listed, hentries', hlisted, hread'⟩
    rw [String.toList_ofList] at hentries'
    obtain rfl : entries' = entries := Except.ok.inj (hentries'.symm.trans hentries)
    rcases hsettles.eq_of_eq_ok hlisted with ⟨hgood, heq⟩
    cases heq
    exact ⟨hgood, Except.ok.inj (hread'.symm.trans hwhole)⟩
  refine ⟨String.ofList (textOf lines), toText_eq_ok.mpr ⟨lines, hwrite, rfl⟩, ⟨fun hgood => ?_, ?_⟩, ?_⟩
  · refine ofText_eq_ok.mpr ⟨entries, envelope, ?_, hsettles.eq_ok hgood, hwhole⟩
    rw [String.toList_ofList]
    exact hentries
  · exact fun h => (hall envelope h).1
  · exact fun read h => (hall read h).2

/-! ## Other codes -/

/-- The listing of an envelope with another code is never read as that envelope. -/
theorem ne_of_ofText_toText (hfits : layout.wire.fits .standard envelope = true)
    (hplain : ¬∀ part ∈ envelope.parts, part.Plain) {text : String} {read : Envelope}
    (hwrite : envelope.toText = .ok text) (hread : ofText text = .ok read) : read ≠ envelope := by
  rcases toText_eq_ok.mp hwrite with ⟨lines, hlines, rfl⟩
  rcases ofText_eq_ok.mp hread with ⟨entries, listed, hentries, hlisted, hwhole⟩
  rw [String.toList_ofList] at hentries
  have hpaths := hasParts.path_plain Path.Plain.root hlines
  have hfollow : Follow (lines ++ []) entries := by
    rw [List.append_nil]
    exact follow_of_ofLines hpaths hentries
  -- the bytes of what is listed are not read as the envelope, but `read` was read from them
  have hdiverges := hasParts.forgets .root hfits hplain hlines hfollow hlisted
  rintro rfl
  refine hdiverges [] [] ?_
  rw [List.append_nil]
  exact Decoder.whole_eq_ok.mp hwhole

/-! ## Reading back -/

/-- A transaction of one operation, which allows an account to hold the asset of a code. -/
def allowing (code : FixedBytes 4) : Envelope :=
  let key : Bytes32 := ⟨List.replicate 32 0, rfl⟩
  .transaction <| .unsigned {
    source := .plain key
    fee := 100
    sequence := 1
    preconditions := .none
    memo := .none
    operations := [.ofBody (.allowTrust ⟨⟨key⟩, .short code, 1⟩)]
    sorobanData := none }

/-- It is read from its bytes, whatever the code is. -/
theorem decodeWhole_allowing (code : FixedBytes 4) :
    layout.wire.decodeWhole (layout.wire.encode (allowing code)) = .ok (allowing code) :=
  hasParts.wire.decodeWhole_encode rfl

/-- The code is all that decides whether it is read from its listing: it has neither conditions nor
signers. -/
theorem listable_allowing {code : FixedBytes 4} (h : (AssetCode.short code).Canonical) :
    (∀ code' ∈ (allowing code).assetCodes, code'.Canonical)
      ∧ (∀ predicate ∈ (allowing code).predicates, predicate.depth ≤ 5)
      ∧ ∀ key ∈ (allowing code).signerKeys, key.HasPayload := by
  refine ⟨fun code' hcode => ?_, fun predicate hpredicate => ?_, fun key hkey => ?_⟩
  · rcases List.mem_singleton.mp hcode with rfl
    exact h
  · cases hpredicate
  · cases hkey

/-- Three letters and a zero. -/
theorem canonical_abc : (AssetCode.short ⟨[0x41, 0x42, 0x43, 0], rfl⟩).Canonical :=
  ⟨[0x41, 0x42, 0x43], 1, rfl, by decide, List.all_eq_true.mp rfl⟩

/-- Exactly those envelopes are read back from their listings of which every code is canonical, every
condition has at most five levels, and every signer has the payload that it is to sign. -/
theorem exists_ofText_toText_iff (h : layout.wire.decodeWhole bytes = .ok envelope) :
    (∃ text, envelope.toText = .ok text ∧ ofText text = .ok envelope) ↔
      (∀ code ∈ envelope.assetCodes, code.Canonical)
        ∧ (∀ predicate ∈ envelope.predicates, predicate.depth ≤ 5)
        ∧ ∀ key ∈ envelope.signerKeys, key.HasPayload := by
  have hfits := fits_of_decodeWhole h
  rw [← plain_iff]
  constructor
  · rintro ⟨text, hwrite, hread⟩
    have hplain : ∀ part ∈ envelope.parts, part.Plain := by
      by_contra hno
      exact ne_of_ofText_toText hfits hno hwrite hread rfl
    rcases exists_toText hfits hplain with ⟨text', hwrite', hiff, -⟩
    obtain rfl : text' = text := Except.ok.inj (hwrite'.symm.trans hwrite)
    exact ⟨hplain, good_iff.mp (hiff.mpr hread)⟩
  · rintro ⟨hplain, hgood⟩
    rcases exists_toText hfits hplain with ⟨text, hwrite, hiff, -⟩
    exact ⟨text, hwrite, hiff.mp (good_iff.mpr hgood)⟩

/-- A transaction of one operation is read back. -/
theorem exists_ofText_toText_allowing :
    ∃ text, (allowing ⟨[0x41, 0x42, 0x43, 0], rfl⟩).toText = .ok text
      ∧ ofText text = .ok (allowing ⟨[0x41, 0x42, 0x43, 0], rfl⟩) :=
  (exists_ofText_toText_iff (decodeWhole_allowing _)).mpr (listable_allowing canonical_abc)

/-- A listing that is read is read as the envelope that it lists exactly if every code in the envelope is
canonical: codes with blanks in them are listed too, and are cut off where the first blank stands. -/
theorem ofText_toText_eq_iff (h : layout.wire.decodeWhole bytes = .ok envelope) {text : String}
    {read : Envelope} (hwrite : envelope.toText = .ok text) (hread : ofText text = .ok read) :
    read = envelope ↔ ∀ code ∈ envelope.assetCodes, code.Canonical := by
  have hfits := fits_of_decodeWhole h
  rw [← plain_iff]
  constructor
  · intro heq
    by_contra hno
    exact ne_of_ofText_toText hfits hno hwrite hread heq
  · intro hplain
    rcases exists_toText hfits hplain with ⟨text', hwrite', -, hall⟩
    obtain rfl : text' = text := Except.ok.inj (hwrite'.symm.trans hwrite)
    exact hall read hread

/-- A code with a blank in it is cut off there. -/
theorem ofText_toText_allowing_blank :
    ∃ text read, (allowing ⟨[0x41, 0x42, 0x20, 0x43], rfl⟩).toText = .ok text ∧ ofText text = .ok read
      ∧ read ≠ allowing ⟨[0x41, 0x42, 0x20, 0x43], rfl⟩ := by
  obtain ⟨lines, hlines, hok⟩ : ∃ lines,
      layout.form.write .root (allowing ⟨[0x41, 0x42, 0x20, 0x43], rfl⟩) = .ok lines
        ∧ (ofText (String.ofList (textOf lines))).isOk = true := by
    refine ⟨_, rfl, ?_⟩
    unfold ofText
    rw [String.toList_ofList]
    decide +kernel
  -- the listing is read, since the code is cut off to a code
  have hwrite := toText_eq_ok.mpr ⟨lines, hlines, rfl⟩
  cases hread : ofText (String.ofList (textOf lines)) with
  | error e =>
    rw [hread] at hok
    cases hok
  | ok read =>
    refine ⟨_, read, hwrite, hread, ?_⟩
    rw [Ne, ofText_toText_eq_iff (decodeWhole_allowing _) hwrite hread]
    intro hcanonical
    -- the third byte is a blank, neither a letter, a digit nor a zero
    have hname : AssetCode.IsName 1 [0x41, 0x42, 0x20, 0x43] := hcanonical _ (List.mem_singleton_self _)
    have hblank : AssetCode.isNameByte 0x20 = true ∨ (0x20 : UInt8) = 0 := hname.of_mem (by decide)
    revert hblank
    decide

end LedgerTx.Envelope
