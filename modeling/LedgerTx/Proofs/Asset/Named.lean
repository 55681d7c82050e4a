import LedgerTx.Proofs.Asset
import LedgerTx.Proofs.Strkey.Canonical

namespace LedgerTx

/-! # Texts that name assets

An asset is written with whatever bytes its code has, but read only from a name of the native asset or
from a code of letters and digits and an issuer's address around a colon.  The two agree exactly on assets
with a code of their own width. -/

/-- A text can be told from its bytes. -/
theorem Utf8.encode_injective : Function.Injective Utf8.encode := by
  intro a b h
  have hread := Utf8.decode_encode a
  rw [h, Utf8.decode_encode] at hread
  cases hread
  rfl

/-- A text is read as an account if it is the account's address. -/
theorem AccountId.ofAddress_eq_ok {text : String} {account : AccountId} :
    ofAddress text = .ok account ↔ text = account.address := by
  unfold ofAddress address
  constructor
  · intro h
    rcases Except.bind_eq_ok.mp h with ⟨key, hkey, h⟩
    cases h
    exact (Strkey.decodeKey_eq_ok.mp hkey).2
  · rintro rfl
    exact AccountId.ofAddress_address account

namespace AssetCode

/-! ## Codes -/

/-- The texts of codes: 1 to 12 bytes, all of them letters and digits. -/
structure IsCode (text : String) : Prop where
  pos : 1 ≤ (Utf8.encode text).length
  le : (Utf8.encode text).length ≤ 12
  isNameByte : ∀ b ∈ Utf8.encode text, isNameByte b = true

/-- Whether bytes are those of a text and then zeros. -/
def Holds {n : Nat} (code : FixedBytes n) (text : String) : Prop :=
  code.toList = Utf8.encode text ++ List.replicate (n - (Utf8.encode text).length) 0

/-- The check lets through exactly the texts of codes. -/
theorem check_eq_ok {text : String} : check text = .ok () ↔ IsCode text := by
  constructor
  · intro h
    rcases of_check h with ⟨hpos, hle, hname⟩
    exact ⟨hpos, hle, hname⟩
  · rintro ⟨hpos, hle, hname⟩
    have htext : String.ofList ((Utf8.encode text).map Utf8.charOf) = text :=
      Utf8.encode_injective (encode_text_of_name hname)
    have hcheck := check_of_name hname hpos hle
    rwa [htext] at hcheck

/-- The width that a code of a text has, and what stands in it. -/
def IsOf (code : AssetCode) (text : String) : Prop :=
  match code with
  | .short bytes => (Utf8.encode text).length ≤ 4 ∧ Holds bytes text
  | .long bytes => 4 < (Utf8.encode text).length ∧ Holds bytes text

/-- Padded bytes are the only ones that hold a text. -/
theorem holds_iff {n : Nat} {code : FixedBytes n} {text : String} (h : (Utf8.encode text).length ≤ n) :
    Holds code text ↔ FixedBytes.ofListPadded n (Utf8.encode text) = code := by
  unfold Holds
  rw [← toList_ofListPadded h]
  constructor
  · intro hbytes
    exact FixedBytes.ext hbytes.symm
  · rintro rfl
    rfl

/-- The length of the text of a code chooses the width. -/
theorem ofText_of_isCode {text : String} (h : IsCode text) :
    ofText text = if (Utf8.encode text).length ≤ 4 then .ok (.short (.ofListPadded 4 (Utf8.encode text)))
      else .ok (.long (.ofListPadded 12 (Utf8.encode text))) := by
  unfold ofText
  rw [check_eq_ok.mpr h]
  rfl

/-- A text is read as the code that it is the text of. -/
theorem ofText_eq_ok {text : String} {code : AssetCode} :
    ofText text = .ok code ↔ IsCode text ∧ code.IsOf text := by
  constructor
  · intro h
    have hcode : IsCode text := by
      rcases Except.bind_eq_ok.mp h with ⟨⟨⟩, hcheck, -⟩
      exact check_eq_ok.mp hcheck
    refine ⟨hcode, ?_⟩
    rw [ofText_of_isCode hcode] at h
    -- four bytes at most go into the short form
    by_cases hshort : (Utf8.encode text).length ≤ 4
    · rw [if_pos hshort] at h
      cases h
      exact ⟨hshort, (holds_iff hshort).mpr rfl⟩
    · rw [if_neg hshort] at h
      cases h
      exact ⟨Nat.lt_of_not_le hshort, (holds_iff hcode.le).mpr rfl⟩
  · rintro ⟨hcode, hof⟩
    rw [ofText_of_isCode hcode]
    cases code with
    | short bytes =>
      rcases hof with ⟨hshort, hholds⟩
      rw [if_pos hshort, (holds_iff hshort).mp hholds]
    | long bytes =>
      rcases hof with ⟨hlong, hholds⟩
      rw [if_neg (Nat.not_le.mpr hlong), (holds_iff hcode.le).mp hholds]

/-- A code has the text that it is read from. -/
theorem text_of_holds {n : Nat} {code : FixedBytes n} {text : String} (hcode : IsCode text)
    (h : Holds code text) : AssetCode.text code.toList = text := by
  rw [h, text_of_name hcode.isNameByte]
  exact Utf8.encode_injective (encode_text_of_name hcode.isNameByte)

end AssetCode

/-! ## Assets -/

namespace Asset

open AssetCode

/-- The texts that name an asset: one of two names of the native asset, or a code and an address of the
issuer around a colon. -/
inductive Named : String → Asset → Prop
  | xlm : Named "XLM" .native
  | native : Named "native" .native
  | credit4 {code issuer : String} {credit : CreditAsset 4} :
      IsCode code → (Utf8.encode code).length ≤ 4 → Holds credit.code code →
      AccountId.ofAddress issuer = .ok credit.issuer → Named (code ++ ":" ++ issuer) (.credit4 credit)
  | credit12 {code issuer : String} {credit : CreditAsset 12} :
      IsCode code → 4 < (Utf8.encode code).length → Holds credit.code code →
      AccountId.ofAddress issuer = .ok credit.issuer → Named (code ++ ":" ++ issuer) (.credit12 credit)

variable {text : String} {asset : Asset}

/-- A colon stands between the code and the issuer. -/
theorem colon_mem_creditText {n : Nat} (credit : CreditAsset n) : ':' ∈ (creditText credit).toList := by
  unfold creditText
  simp

/-- Credit is written as it is named. -/
theorem creditText_eq {n : Nat} {credit : CreditAsset n} {code issuer : String} (hcode : IsCode code)
    (hholds : Holds credit.code code) (hissuer : AccountId.ofAddress issuer = .ok credit.issuer) :
    creditText credit = code ++ ":" ++ issuer := by
  unfold creditText
  rw [text_of_holds hcode hholds, AccountId.ofAddress_eq_ok.mp hissuer]

/-- No credit is written as a name of the native asset. -/
theorem creditText_ne_native {n : Nat} (credit : CreditAsset n) : creditText credit ≠ "native" := by
  intro h
  have hcolon := colon_mem_creditText credit
  rw [h] at hcolon
  exact absurd hcolon (by decide)

/-- A named asset is written by its name, of the two of the native asset by the first. -/
theorem Named.canonical_eq (h : Named text asset) :
    asset.canonical = if text = "native" then "XLM" else text := by
  cases h with
  | xlm => rfl
  | native => rfl
  | credit4 hcode _ hholds hissuer | credit12 hcode _ hholds hissuer =>
    rw [← creditText_eq hcode hholds hissuer, if_neg (creditText_ne_native _)]
    rfl

/-- A named asset has a code of its own width. -/
theorem Named.canonical (h : Named text asset) : asset.Canonical := by
  cases h with
  | xlm | native =>
    intro code hcode
    cases hcode
  | credit4 hcode _ hholds _ =>
    rintro code ⟨⟩
    exact ⟨_, _, hholds, hcode.pos, hcode.isNameByte⟩
  | credit12 hcode hlong hholds _ =>
    rintro code ⟨⟩
    exact ⟨_, _, hholds, hlong, hcode.isNameByte⟩

/-- A code and an issuer that are read make up a named asset. -/
theorem named_of_ofCode {code issuer : String} {account : AccountId}
    (hissuer : AccountId.ofAddress issuer = .ok account) (h : ofCode code account = .ok asset) :
    Named (code ++ ":" ++ issuer) asset := by
  rcases Except.bind_eq_ok.mp h with ⟨found, hfound, h⟩
  rcases ofText_eq_ok.mp hfound with ⟨hcode, hof⟩
  cases found with
  | short bytes =>
    cases h
    exact .credit4 hcode hof.1 hof.2 hissuer
  | long bytes =>
    cases h
    exact .credit12 hcode hof.1 hof.2 hissuer

/-- What is read as an asset names it. -/
theorem named_of_ofCanonical (h : ofCanonical text = .ok asset) : Named text asset := by
  unfold ofCanonical at h
  -- the two names of the native asset are looked for first
  by_cases hnative : text = "XLM" ∨ text = "native"
  · rw [if_pos hnative] at h
    cases h
    rcases hnative with rfl | rfl
    · exact .xlm
    · exact .native
  · rw [if_neg hnative] at h
    rcases span_ne_cases ':' text.toList with hspan | ⟨code, issuer, hspan, htext⟩
    · rw [hspan] at h
      cases h
    -- the issuer is read before the code
    · rw [hspan] at h
      rcases Except.bind_eq_ok.mp h with ⟨account, haccount, h⟩
      have hnamed := named_of_ofCode (Except.mapError_eq_ok.mp haccount) (Except.mapError_eq_ok.mp h)
      have hwhole : String.ofList code ++ ":" ++ String.ofList issuer = text := by
        apply String.toList_inj.mp
        simp [htext]
      rwa [hwhole] at hnamed

/-- A text is read as the asset that it names. -/
theorem ofCanonical_eq_ok : ofCanonical text = .ok asset ↔ Named text asset := by
  constructor
  · exact named_of_ofCanonical
  · intro h
    have hread := ofCanonical_canonical h.canonical
    rw [h.canonical_eq] at hread
    -- the second name of the native asset is written as the first
    by_cases hnative : text = "native"
    · rw [hnative]
      rw [if_pos hnative] at hread
      exact hread
    · rwa [if_neg hnative] at hread

/-- A text is read as an asset exactly if it names it; the asset is then written as the text again, except
that `native` becomes `XLM`, and its form is the one that its code chooses.  An asset, whatever bytes its
code has, is read back from its own text exactly if it is native or has a code of its own width. -/
theorem ofCanonical_exact :
    (∀ text asset, ofCanonical text = .ok asset ↔ Named text asset
        ∧ asset.canonical = (if text = "native" then "XLM" else text) ∧ asset.codeMatchesForm = true)
      ∧ ∀ asset, ofCanonical asset.canonical = .ok asset ↔ asset.Canonical := by
  constructor
  · intro text asset
    rw [ofCanonical_eq_ok]
    constructor
    · intro h
      exact ⟨h, h.canonical_eq, codeMatchesForm_of_canonical h.canonical⟩
    · rintro ⟨h, -⟩
      exact h
  · intro asset
    constructor
    · exact canonical_of_ofCanonical
    · exact ofCanonical_canonical

end Asset

end LedgerTx
