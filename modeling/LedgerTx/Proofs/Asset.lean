import Mathlib.Data.List.TakeDrop
import LedgerTx.Asset
import LedgerTx.Proofs.Account
import LedgerTx.Proofs.Layout.Composed

namespace LedgerTx

open Listing

/-! # Assets on the wire and in listings

Codes come off the wire as any bytes and stand in listings as they are.  The canonical ones are those that
a listing can give: letters and digits, as many as the form asks for, and then zeros. -/

instance : Enumeration.Numbered AssetKind := ⟨by intro k; cases k <;> rfl⟩

instance : Enumeration.Named AssetKind :=
  ⟨by intro k; cases k <;> rfl, by intro k; cases k <;> rfl⟩

instance : Enumeration.Numbered PoolKind := ⟨by intro k; cases k; rfl⟩

instance : Enumeration.Named PoolKind := ⟨by intro k; cases k; rfl, by intro k; cases k; rfl⟩

namespace AssetCode

/-! ## Canonical codes -/

/-- The letters and digits of ASCII. -/
def isNameByte (b : UInt8) : Bool :=
  48 ≤ b && b ≤ 57 || 65 ≤ b && b ≤ 90 || 97 ≤ b && b ≤ 122

/-- Codes of at least so many letters and digits, and zeros after them. -/
def IsName (least : Nat) (code : List UInt8) : Prop :=
  ∃ name zeros, code = name ++ List.replicate zeros 0 ∧ least ≤ name.length
    ∧ ∀ b ∈ name, isNameByte b = true

/-- Codes that stand for themselves in listings: 1 to 4 letters and digits in the short form, 5 to 12 in
the long one. -/
def Canonical : AssetCode → Prop
  | .short code => IsName 1 code.toList
  | .long code => IsName 5 code.toList

/-- Only letters, digits and zeros stand in canonical codes. -/
theorem IsName.of_mem {least : Nat} {code : List UInt8} (h : IsName least code) {b : UInt8}
    (hb : b ∈ code) : isNameByte b = true ∨ b = 0 := by
  rcases h with ⟨name, zeros, rfl, -, hname⟩
  rcases List.mem_append.mp hb with hb | hb
  · exact Or.inl (hname b hb)
  · exact Or.inr (List.eq_of_mem_replicate hb)

/-- The letters and digits of ASCII, by the numbers of their bytes. -/
theorem isNameByte_iff {b : UInt8} :
    isNameByte b = true ↔ 48 ≤ b.toNat ∧ b.toNat ≤ 57 ∨ 65 ≤ b.toNat ∧ b.toNat ≤ 90
      ∨ 97 ≤ b.toNat ∧ b.toNat ≤ 122 := by
  simp only [isNameByte, Bool.or_eq_true, Bool.and_eq_true, decide_eq_true_eq, UInt8.le_iff_toNat_le]
  show (48 ≤ b.toNat ∧ b.toNat ≤ 57 ∨ 65 ≤ b.toNat ∧ b.toNat ≤ 90) ∨ 97 ≤ b.toNat ∧ b.toNat ≤ 122 ↔ _
  omega

theorem lt_of_isNameByte {b : UInt8} (h : isNameByte b = true) : b.toNat < 0x80 := by
  have hrange := isNameByte_iff.mp h
  omega

theorem isAlphanum_charOf {b : UInt8} (h : isNameByte b = true) :
    (Utf8.charOf b).isAlphanum = true := by
  rw [Utf8.isAlphanum_iff, Utf8.toNat_charOf (lt_of_isNameByte h)]
  exact isNameByte_iff.mp h

theorem isNameByte_byteOf {c : Char} (h : c.isAlphanum = true) :
    isNameByte (Utf8.byteOf c) = true := by
  rw [isNameByte_iff, Utf8.toNat_byteOf (Utf8.lt_of_isAlphanum h)]
  exact Utf8.isAlphanum_iff.mp h

/-! ## Texts of canonical codes -/

variable {name : List UInt8} {n : Nat}

/-- Bytes filled up with zeros keep what they have in front. -/
theorem toList_ofListPadded (hn : name.length ≤ n) :
    (FixedBytes.ofListPadded n name).toList = name ++ List.replicate (n - name.length) 0 := by
  show (name ++ List.replicate n 0).take n = _
  rw [List.take_append, List.take_of_length_le hn, List.take_replicate]
  congr 2
  omega

/-- A canonical code as its name, which is filled up with zeros. -/
theorem IsName.exists_name {least : Nat} {code : FixedBytes n} (h : IsName least code.toList) :
    ∃ name zeros, code.toList = name ++ List.replicate zeros 0 ∧ least ≤ name.length ∧ name.length ≤ n
      ∧ FixedBytes.ofListPadded n name = code ∧ ∀ b ∈ name, isNameByte b = true := by
  rcases h with ⟨name, zeros, hcode, hleast, hname⟩
  have hlength := congrArg List.length hcode
  rw [code.length_toList, List.length_append, List.length_replicate] at hlength
  have hmost : name.length ≤ n := by omega
  refine ⟨name, zeros, hcode, hleast, hmost, ?_, hname⟩
  -- the zeros that are filled up are as many as those of the code
  apply FixedBytes.ext
  rw [toList_ofListPadded hmost, hcode]
  congr 2
  omega

/-- Letters and digits are no zeros, so just the zeros after them are dropped. -/
theorem stripZeros_append (h : ∀ b ∈ name, isNameByte b = true) (zeros : Nat) :
    stripZeros (name ++ List.replicate zeros 0) = name := by
  unfold stripZeros
  rw [List.reverse_append, List.reverse_replicate, List.dropWhile_append_of_pos]
  · -- the last byte of the name is no zero, so nothing of the name is dropped
    have hkept : name.reverse.dropWhile (· == 0) = name.reverse := by
      cases hname : name.reverse with
      | nil => rfl
      | cons b rest =>
        have hb : b ∈ name := List.mem_reverse.mp (hname ▸ List.mem_cons_self ..)
        refine List.dropWhile_cons_of_neg ?_
        intro hzero
        rw [eq_of_beq hzero] at hb
        cases h 0 hb
    rw [hkept, List.reverse_reverse]
  · intro b hb
    rw [List.eq_of_mem_replicate hb]
    rfl

/-- The text of a code is its name, without the zeros. -/
theorem text_of_name (h : ∀ b ∈ name, isNameByte b = true) (zeros : Nat) :
    text (name ++ List.replicate zeros 0) = String.ofList (name.map Utf8.charOf) := by
  have hascii : ∀ b ∈ name, b.toNat < 0x80 := fun b hb => lt_of_isNameByte (h b hb)
  unfold text
  rw [stripZeros_append h, Utf8.decodeLossy_of_ascii hascii]

/-- The characters of a name are its bytes again. -/
theorem encode_text_of_name (h : ∀ b ∈ name, isNameByte b = true) :
    Utf8.encode (String.ofList (name.map Utf8.charOf)) = name := by
  have hascii : ∀ b ∈ name, b.toNat < 0x80 := fun b hb => lt_of_isNameByte (h b hb)
  have hchars : ∀ c ∈ name.map Utf8.charOf, c.toNat < 0x80 := by
    intro c hc
    rcases List.mem_map.mp hc with ⟨b, hb, rfl⟩
    rw [Utf8.toNat_charOf (hascii b hb)]
    exact hascii b hb
  rw [Utf8.encode_of_ascii hchars, List.map_map]
  refine (List.map_congr_left fun b hb => ?_).trans (List.map_id name)
  exact Utf8.byteOf_charOf (hascii b hb)

/-! ## Reading canonical codes -/

/-- A name that is no longer than the long form passes the check. -/
theorem check_of_name (h : ∀ b ∈ name, isNameByte b = true) (hleast : 1 ≤ name.length)
    (hmost : name.length ≤ longLength) : check (String.ofList (name.map Utf8.charOf)) = .ok () := by
  have hall : (name.map Utf8.charOf).all Char.isAlphanum = true := by
    refine List.all_eq_true.mpr fun c hc => ?_
    rcases List.mem_map.mp hc with ⟨b, hb, rfl⟩
    exact isAlphanum_charOf (h b hb)
  -- the length is counted in bytes, which are as many as the characters
  unfold check
  rw [encode_text_of_name h, String.toList_ofList, hall, if_neg (by omega)]
  rfl

/-- A canonical code is read back from its text, in the form that it has. -/
theorem ofText_toText {code : AssetCode} (h : code.Canonical) : ofText code.toText = .ok code := by
  cases code with
  | short code =>
    rcases h.exists_name with ⟨name, zeros, hcode, hleast, hmost, hpadded, hname⟩
    have hshort : name.length ≤ shortLength := hmost
    unfold ofText toText
    dsimp only
    rw [hcode, text_of_name hname, check_of_name hname hleast (Nat.le_trans hshort (by decide))]
    dsimp only [bind, Except.bind]
    rw [encode_text_of_name hname, if_pos hshort, hpadded]
    rfl
  | long code =>
    rcases h.exists_name with ⟨name, zeros, hcode, hleast, hlong, hpadded, hname⟩
    have hpos : 1 ≤ name.length := Nat.le_trans (by decide) hleast
    -- a name of five bytes at least is not taken for a short code
    have hshort : ¬name.length ≤ shortLength := Nat.not_le.mpr hleast
    unfold ofText toText
    dsimp only
    rw [hcode, text_of_name hname, check_of_name hname hpos hlong]
    dsimp only [bind, Except.bind]
    rw [encode_text_of_name hname, if_neg hshort, hpadded]
    rfl

/-- The length of a canonical code chooses its form. -/
theorem matchesForm_of_canonical {code : AssetCode} (h : code.Canonical) : code.matchesForm = true := by
  cases code with
  | short code => rfl
  | long code =>
    rcases h with ⟨name, zeros, hcode, hleast, hname⟩
    unfold matchesForm isShort
    dsimp only
    rw [hcode, text_of_name hname, encode_text_of_name hname, Bool.not_eq_true', decide_eq_false_iff_not]
    unfold shortLength
    omega

/-- The text of a canonical code is letters and digits, at least one. -/
theorem toText_of_canonical {code : AssetCode} (h : code.Canonical) :
    code.toText.toList ≠ [] ∧ ∀ c ∈ code.toText.toList, c.isAlphanum = true := by
  have hname : ∀ {least : Nat} {bytes : List UInt8}, 1 ≤ least → IsName least bytes →
      (text bytes).toList ≠ [] ∧ ∀ c ∈ (text bytes).toList, c.isAlphanum = true := by
    rintro least bytes hpos ⟨name, zeros, rfl, hleast, hname⟩
    rw [text_of_name hname, String.toList_ofList]
    constructor
    · intro hnil
      rw [List.map_eq_nil_iff.mp hnil] at hleast
      exact absurd (Nat.le_trans hpos hleast) (Nat.not_succ_le_zero 0)
    · intro c hc
      rcases List.mem_map.mp hc with ⟨b, hb, rfl⟩
      exact isAlphanum_charOf (hname b hb)
  cases code with
  | short code => exact hname (Nat.le_refl 1) h
  | long code => exact hname (by decide) h

/-! ## Only canonical codes are read -/

/-- A text that passes the check is a name that is neither empty nor longer than the long form. -/
theorem of_check {code : String} (h : check code = .ok ()) :
    1 ≤ (Utf8.encode code).length ∧ (Utf8.encode code).length ≤ longLength
      ∧ ∀ b ∈ Utf8.encode code, isNameByte b = true := by
  unfold check at h
  dsimp only at h
  split at h
  · cases h
  · rename_i hlength
    rw [not_or] at hlength
    split at h
    · cases h
    · rename_i hchars
      -- what passes is letters and digits, of one byte each
      have hall : ∀ c ∈ code.toList, c.isAlphanum = true := by
        rw [Bool.not_eq_true', Bool.not_eq_false] at hchars
        exact List.all_eq_true.mp hchars
      have hascii : ∀ c ∈ code.toList, c.toNat < 0x80 :=
        fun c hc => Utf8.lt_of_isAlphanum (hall c hc)
      have hbytes := Utf8.encode_of_ascii hascii
      rw [String.ofList_toList] at hbytes
      refine ⟨by omega, by omega, fun b hb => ?_⟩
      rw [hbytes] at hb
      rcases List.mem_map.mp hb with ⟨c, hc, rfl⟩
      exact isNameByte_byteOf (hall c hc)

/-- A name that is filled up with zeros is a canonical code. -/
theorem isName_ofListPadded {least : Nat} (hn : name.length ≤ n) (hleast : least ≤ name.length)
    (h : ∀ b ∈ name, isNameByte b = true) : IsName least (FixedBytes.ofListPadded n name).toList :=
  ⟨name, n - name.length, toList_ofListPadded hn, hleast, h⟩

/-- Whatever is read as a code is canonical. -/
theorem canonical_of_ofText {text : String} {code : AssetCode} (h : ofText text = .ok code) :
    code.Canonical := by
  replace h := Except.bind_eq_ok.mp h
  rcases h with ⟨⟨⟩, hcheck, h⟩
  rcases of_check hcheck with ⟨hpos, hmost, hname⟩
  dsimp only at h
  -- the length chooses the form
  split at h
  · rename_i hshort
    cases h
    exact isName_ofListPadded hshort hpos hname
  · rename_i hshort
    cases h
    exact isName_ofListPadded hmost (Nat.lt_of_not_le hshort) hname

/-- A code is its form and as many bytes as the form has. -/
theorem codec_composed {lenient : Bool} : Codec.Composed lenient codec := by
  refine .map (.sigma (.arms ?_ ?_) ?_)
  · intro arm
    cases arm <;> rfl
  · intro kind arm h
    cases kind <;> cases h <;> rfl
  · intro arm
    cases arm with
    | short => exact .fixed 4
    | long => exact .fixed 12

instance : Codec.Aligned codec := by
  refine .map (.sigma .arms fun arm => ?_) _
  cases arm with
  | short => exact .fixed4
  | long => exact .fixed12

theorem codec_fits (rules : Rules) (code : AssetCode) : codec.fits rules code = true := by
  cases code <;> rfl

/-- Canonical codes are read back from their lines, and only those are read. -/
theorem lineLaw : LineLaw codec layout.form Canonical (fun _ => True) := by
  unfold layout
  dsimp only
  refine .of_read (codec_composed : Codec.Composed false codec) ?_ ?_
  · intro code hfits hcode
    rcases toText_of_canonical hcode with ⟨hne, hchars⟩
    refine ⟨code.toText.toList, if_pos (matchesForm_of_canonical hcode), ?_, fun after => ?_⟩
    · exact word_of_alphanum hne hchars
    · rw [String.ofList_toList, ofText_toText hcode]
      rfl
  · intro token after code h
    exact ⟨canonical_of_ofText (Except.mapError_eq_ok.mp h), codec_fits _ _⟩

theorem admits : layout.Admits Canonical (fun _ => True) := by
  refine .line fun {token after code} _ h => ?_
  exact ⟨codec_fits _ _, canonical_of_ofText (Except.mapError_eq_ok.mp h), trivial⟩

end AssetCode

/-! ## Assets -/

theorem CreditAsset.codec_composed {lenient : Bool} (n : Nat) : Codec.Composed lenient (codec n) :=
  .map (.pair (.fixed n) AccountId.codec_composed)

/-- A code of whole words leaves the issuer aligned. -/
theorem CreditAsset.codec_aligned {n : Nat} (h : Codec.Aligned (.fixed n)) : Codec.Aligned (codec n) :=
  .map (.pair h inferInstance) _

namespace Asset

/-- An asset is its kind, with the code and the issuer if it is credit. -/
theorem codec_composed {lenient : Bool} : Codec.Composed lenient codec := by
  refine .map (.sigma (.arms ?_ ?_) ?_)
  · intro arm
    cases arm <;> rfl
  · intro kind arm h
    cases kind <;> cases h <;> rfl
  · intro arm
    cases arm with
    | native => exact .unit
    | credit4 => exact CreditAsset.codec_composed 4
    | credit12 => exact CreditAsset.codec_composed 12

instance : Codec.Aligned codec := by
  refine .map (.sigma .arms fun arm => ?_) _
  cases arm with
  | native => exact .unit
  | credit4 => exact CreditAsset.codec_aligned .fixed4
  | credit12 => exact CreditAsset.codec_aligned .fixed12

theorem codec_fits (rules : Rules) (asset : Asset) : codec.fits rules asset = true := by
  cases asset <;> rfl

/-- The code of an asset that is no native one. -/
def code? : Asset → Option AssetCode
  | .native => none
  | .credit4 credit => some (.short credit.code)
  | .credit12 credit => some (.long credit.code)

/-- Assets of which the code is canonical, if they have one. -/
def Canonical (asset : Asset) : Prop :=
  ∀ code ∈ asset.code?, code.Canonical

/-- An asset with a canonical code is shown in the form that it has. -/
theorem codeMatchesForm_of_canonical {asset : Asset} (h : asset.Canonical) :
    asset.codeMatchesForm = true := by
  cases asset with
  | native | credit4 _ => rfl
  | credit12 credit => exact AssetCode.matchesForm_of_canonical (h _ rfl)

/-- The text of credit is taken apart at the colon after the code. -/
theorem ofCanonical_append {code : AssetCode} (h : code.Canonical) (issuer : AccountId) {asset : Asset}
    (hasset : ofCode code.toText issuer = .ok asset) :
    ofCanonical (code.toText ++ ":" ++ issuer.address) = .ok asset := by
  have htext : (code.toText ++ ":" ++ issuer.address).toList
      = code.toText.toList ++ ':' :: issuer.address.toList := by
    rw [String.toList_append, String.toList_append, List.append_assoc]
    rfl
  have hcode : ∀ c ∈ code.toText.toList, (c != ':') = true := by
    intro c hc
    refine bne_iff_ne.mpr ?_
    rintro rfl
    cases (AssetCode.toText_of_canonical h).2 ':' hc
  have hspan : (code.toText ++ ":" ++ issuer.address).toList.span (· != ':')
      = (code.toText.toList, ':' :: issuer.address.toList) := by
    rw [htext, List.span_eq_takeWhile_dropWhile, List.takeWhile_append_of_pos hcode,
      List.dropWhile_append_of_pos hcode]
    exact congrArg (·, ':' :: issuer.address.toList) (List.append_nil _)
  have hcolon : ':' ∈ (code.toText ++ ":" ++ issuer.address).toList := by
    rw [htext]
    exact List.mem_append_right _ (List.mem_cons_self ..)
  -- the names of the native asset have no colon
  have hname : ¬(code.toText ++ ":" ++ issuer.address = "XLM"
      ∨ code.toText ++ ":" ++ issuer.address = "native") := by
    rintro (heq | heq)
    · rw [heq] at hcolon
      exact absurd hcolon (by decide)
    · rw [heq] at hcolon
      exact absurd hcolon (by decide)
  unfold ofCanonical
  rw [if_neg hname, hspan]
  dsimp only
  rw [String.ofList_toList, String.ofList_toList, AccountId.ofAddress_address]
  exact Except.mapError_eq_ok.mpr hasset

/-- An asset with a canonical code is read back from its text. -/
theorem ofCanonical_canonical {asset : Asset} (h : asset.Canonical) :
    ofCanonical asset.canonical = .ok asset := by
  cases asset with
  | native => exact if_pos (Or.inl rfl)
  | credit4 credit =>
    have hcode : (AssetCode.short credit.code).Canonical := h _ rfl
    refine ofCanonical_append hcode credit.issuer ?_
    unfold ofCode
    rw [AssetCode.ofText_toText hcode]
    rfl
  | credit12 credit =>
    have hcode : (AssetCode.long credit.code).Canonical := h _ rfl
    refine ofCanonical_append hcode credit.issuer ?_
    unfold ofCode
    rw [AssetCode.ofText_toText hcode]
    rfl

/-- The text of an asset with a canonical code is one word. -/
theorem word_canonical {asset : Asset} (h : asset.Canonical) : Word asset.canonical.toList := by
  have hcredit : ∀ {code : AssetCode}, code.Canonical → ∀ issuer : AccountId,
      Word (code.toText ++ ":" ++ issuer.address).toList := by
    intro code hcode issuer
    rcases AssetCode.toText_of_canonical hcode with ⟨hne, hchars⟩
    rw [String.toList_append, String.toList_append]
    refine .of_all (by simp) fun c hc => ?_
    rw [List.mem_append, List.mem_append] at hc
    rcases hc with (hc | hc) | hc
    · exact ⟨isBlank_of_isAlphanum (hchars c hc), Quoted.ne_of_isAlphanum (hchars c hc) rfl⟩
    · rw [List.mem_singleton.mp hc]
      exact ⟨rfl, by decide⟩
    · have haddress := Strkey.isAlphanum_of_mem_encode hc
      exact ⟨isBlank_of_isAlphanum haddress, Quoted.ne_of_isAlphanum haddress rfl⟩
  cases asset with
  | native => exact word_of_isWord rfl
  | credit4 credit => exact hcredit (h (.short credit.code) rfl) credit.issuer
  | credit12 credit => exact hcredit (h (.long credit.code) rfl) credit.issuer

/-- Whatever is read as an asset has a canonical code, if any. -/
theorem canonical_of_ofCanonical {text : String} {asset : Asset} (h : ofCanonical text = .ok asset) :
    asset.Canonical := by
  -- a name of the native asset, or a code and an issuer on both sides of a colon
  unfold ofCanonical at h
  split at h
  · cases h
    exact fun code hcode => by cases hcode
  · split at h
    · cases h
    · replace h := Except.bind_eq_ok.mp h
      rcases h with ⟨issuer, -, h⟩
      replace h := Except.bind_eq_ok.mp (Except.mapError_eq_ok.mp h)
      rcases h with ⟨code, hcode, h⟩
      cases code with
      | short code =>
        cases h
        rintro _ ⟨⟩
        exact AssetCode.canonical_of_ofText hcode
      | long code =>
        cases h
        rintro _ ⟨⟩
        exact AssetCode.canonical_of_ofText hcode

/-- Assets with canonical codes are read back from their lines, and only those are read. -/
theorem lineLaw : LineLaw codec form Canonical (fun _ => True) := by
  refine .of_read (codec_composed : Codec.Composed false codec) ?_ ?_
  · intro asset _ h
    refine ⟨asset.canonical.toList, if_pos (codeMatchesForm_of_canonical h), word_canonical h, ?_⟩
    intro after
    rw [String.ofList_toList, ofCanonical_canonical h]
    rfl
  · intro token after asset h
    exact ⟨canonical_of_ofCanonical (Except.mapError_eq_ok.mp h), codec_fits _ _⟩

theorem admits : layout.Admits Canonical (fun _ => True) := by
  refine .line fun {token after asset} _ h => ?_
  exact ⟨codec_fits _ _, canonical_of_ofCanonical (Except.mapError_eq_ok.mp h), trivial⟩

end Asset

/-! ## Trust lines -/

namespace TrustLine

variable {π : Type} {lenient : Bool} {pool : Codec π}

/-- A trust line is an asset or a pool, with one kind more than assets have. -/
theorem codec_composed (h : Codec.Composed lenient pool) : Codec.Composed lenient (codec pool) := by
  refine .map (.sigma (.constant AssetKind) ?_)
  intro kind
  cases kind with
  | native => exact .unit
  | credit4 => exact CreditAsset.codec_composed 4
  | credit12 => exact CreditAsset.codec_composed 12
  | poolShare => exact h

instance [h : Codec.Aligned pool] : Codec.Aligned (codec pool) := by
  refine .map (.sigma .constant fun kind => ?_) _
  cases kind with
  | native => exact .unit
  | credit4 => exact CreditAsset.codec_aligned .fixed4
  | credit12 => exact CreditAsset.codec_aligned .fixed12
  | poolShare => exact h

/-- An asset stands on the wire as a line of it. -/
theorem encode_asset (asset : Asset) : (codec pool).encode (.asset asset) = Asset.codec.encode asset := by
  cases asset <;> rfl

end TrustLine

namespace TrustLineAsset

/-- Lines of which the code is canonical, if they have one. -/
def Canonical : TrustLineAsset → Prop
  | .asset asset => asset.Canonical
  | .poolShare _ => True

theorem codec_fits (rules : Rules) (line : TrustLineAsset) :
    (TrustLine.codec (.fixed 32)).fits rules line = true := by
  cases line with
  | asset asset => cases asset <;> rfl
  | poolShare id => rfl

/-- The text of an asset is never 64 characters without a colon. -/
theorem ofText_canonical {asset : Asset} (h : asset.Canonical) :
    ofText asset.canonical = .ok (.asset asset) := by
  have hread : ofText asset.canonical = (return .asset (← Asset.ofCanonical asset.canonical)) := by
    cases asset with
    | native => rfl
    | credit4 credit | credit12 credit =>
      have hcolon : (Asset.creditText credit).toList.contains ':' = true := by
        unfold Asset.creditText
        rw [String.toList_append, String.toList_append, List.contains_iff_mem]
        exact List.mem_append_left _ (List.mem_append_right _ (List.mem_singleton_self ':'))
      refine if_neg fun hpool => ?_
      have hnone : (!(Asset.creditText credit).toList.contains ':') = true := hpool.2
      rw [hcolon] at hnone
      cases hnone
  rw [hread, Asset.ofCanonical_canonical h]
  rfl

/-- The id of a pool is 64 letters and digits. -/
theorem ofText_hex (id : Bytes32) :
    ofText (String.ofList (Hex.encode id.toList)) = .ok (.poolShare id) := by
  have hchars : ∀ c ∈ Hex.encode id.toList, c.toNat < 0x80 :=
    fun c hc => Utf8.lt_of_isAlphanum (Hex.isAlphanum_of_mem_encode hc)
  have hlength : (Utf8.encode (String.ofList (Hex.encode id.toList))).length = 64 := by
    rw [Utf8.encode_of_ascii hchars, List.length_map, Hex.length_encode, id.length_toList]
  have hcolon : (Hex.encode id.toList).contains ':' = false := by
    rw [← Bool.not_eq_true, List.contains_iff_mem]
    intro hmem
    cases Hex.isAlphanum_of_mem_encode hmem
  unfold ofText
  rw [hlength, String.toList_ofList, hcolon, if_pos ⟨rfl, rfl⟩, Hex.decode_encode]
  dsimp only
  rw [id.ofListPadded_toList]

/-- Whatever is read as a line has a canonical code, if any. -/
theorem canonical_of_ofText {text : String} {line : TrustLineAsset} (h : ofText text = .ok line) :
    line.Canonical := by
  -- 64 characters without a colon are the id of a pool, anything else is an asset
  unfold ofText at h
  split at h
  · split at h
    · cases h
      trivial
    · cases h
  · replace h := Except.bind_eq_ok.mp h
    rcases h with ⟨asset, hasset, h⟩
    cases h
    exact Asset.canonical_of_ofCanonical hasset

/-- Lines of assets and pools are told apart by their texts. -/
theorem lineLaw : LineLaw (TrustLine.codec (.fixed 32)) form Canonical (fun _ => True) := by
  have wire : Codec.Composed false (TrustLine.codec (.fixed 32)) := TrustLine.codec_composed (.fixed 32)
  refine .of_read wire ?_ ?_
  · intro line _ h
    cases line with
    | asset asset =>
      refine ⟨asset.canonical.toList, if_pos (Asset.codeMatchesForm_of_canonical h),
        Asset.word_canonical h, fun after => ?_⟩
      rw [String.ofList_toList, ofText_canonical h]
      rfl
    | poolShare id =>
      refine ⟨Hex.encode id.toList, rfl, ?_, fun after => ?_⟩
      · refine word_of_alphanum ?_ fun _ hc => Hex.isAlphanum_of_mem_encode hc
        intro hnil
        have hlength := Hex.length_encode id.toList
        rw [hnil, id.length_toList] at hlength
        cases hlength
      · rw [ofText_hex]
        rfl
  · intro token after line h
    exact ⟨canonical_of_ofText (Except.mapError_eq_ok.mp h), codec_fits _ _⟩

theorem admits : layout.Admits Canonical (fun _ => True) := by
  refine .line fun {token after line} _ h => ?_
  exact ⟨codec_fits _ _, canonical_of_ofText (Except.mapError_eq_ok.mp h), trivial⟩

end TrustLineAsset

namespace ChangeTrustAsset

/-- The lines of a pool: the mark, and then the pool. -/
def poolLayout : Layout (Unit × PoolParameters) :=
  .pair (.under "type" ⟨.unit, poolShareMark⟩) (.under "liquidityPool" PoolParameters.layout)

/-- An asset and a pool each keep their bytes in a line that is asked for. -/
theorem eitherWire (h : Codec.Composed false PoolParameters.layout.wire) :
    Layout.EitherWire (TrustLine.codec PoolParameters.layout.wire) view Asset.layout.wire
      poolLayout.wire where
  fits_left _ _ := Asset.codec_fits _ _
  fits_right {line pool} hline hfits := by
    cases line with
    | asset asset => cases hline
    | poolShare pool' =>
      cases hline
      exact hfits
  fits_of_left {asset} _ := by cases asset <;> rfl
  fits_of_right hfits := hfits
  diverges_left {a' a} hdiverges tail rest hdecode := by
    have hline := TrustLine.codec_composed h
    -- a line of an asset has the bytes of the asset
    have hbytes := hline.bytes_eq_encode_append (Or.inl rfl) hdecode
    have hasset : Asset.codec.encode a' ++ tail = Asset.codec.encode a ++ rest := by
      rw [← TrustLine.encode_asset, ← TrustLine.encode_asset]
      exact hbytes
    refine hdiverges tail rest ?_
    show Asset.codec.decode _ (Asset.codec.encode a' ++ tail) = _
    rw [hasset]
    exact (Asset.codec_composed : Codec.Composed false _).decode_encode (Asset.codec_fits _ a) rest
  diverges_right {b' b} hdiverges tail rest hdecode := by
    have hline := TrustLine.codec_composed h
    have hbytes := hline.bytes_eq_encode_append (Or.inl rfl) hdecode
    have hfits : PoolParameters.layout.wire.fits .standard b.2 = true :=
      (hline.fits_and_length hdecode).1
    -- both lines start with the number of the kind, so the pools differ behind it
    have hpool : PoolParameters.layout.wire.encode b'.2 ++ tail
        = PoolParameters.layout.wire.encode b.2 ++ rest := by
      rw [← List.append_cancel_left_eq (Codec.int32.encode (Enumeration.number AssetKind.poolShare)),
        ← List.append_assoc, ← List.append_assoc]
      exact hbytes
    have hwire : Codec.Composed false poolLayout.wire := .pair .unit h
    refine hdiverges tail rest ?_
    show poolLayout.wire.decode _ (PoolParameters.layout.wire.encode b'.2 ++ tail) = _
    rw [hpool]
    exact hwire.decode_encode hfits rest

end ChangeTrustAsset

end LedgerTx
