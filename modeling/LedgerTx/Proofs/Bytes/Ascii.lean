import LedgerTx.Bytes.Utf8

namespace LedgerTx.Utf8

/-! # Texts of ASCII characters

An ASCII character is one byte, whichever way text goes. -/

/-- The letters and digits of ASCII, by their numbers. -/
theorem isAlphanum_iff {c : Char} :
    c.isAlphanum = true ↔ 48 ≤ c.toNat ∧ c.toNat ≤ 57 ∨ 65 ≤ c.toNat ∧ c.toNat ≤ 90
      ∨ 97 ≤ c.toNat ∧ c.toNat ≤ 122 := by
  have hupper : c.isUpper = true ↔ 65 ≤ c.toNat ∧ c.toNat ≤ 90 := decide_eq_true_iff
  have hlower : c.isLower = true ↔ 97 ≤ c.toNat ∧ c.toNat ≤ 122 := by
    refine Bool.and_eq_true_iff.trans ?_
    exact and_congr decide_eq_true_iff decide_eq_true_iff
  have hdigit : c.isDigit = true ↔ 48 ≤ c.toNat ∧ c.toNat ≤ 57 := by
    refine Bool.and_eq_true_iff.trans ?_
    exact and_congr decide_eq_true_iff decide_eq_true_iff
  have halpha : c.isAlpha = true ↔ c.isUpper = true ∨ c.isLower = true := Bool.or_eq_true_iff
  have halphanum : c.isAlphanum = true ↔ c.isAlpha = true ∨ c.isDigit = true := Bool.or_eq_true_iff
  -- the three ranges, each stated by the numbers of its ends
  rw [halphanum, halpha, hupper, hlower, hdigit]
  omega

theorem lt_of_isAlphanum {c : Char} (h : c.isAlphanum = true) : c.toNat < 0x80 := by
  have hrange := isAlphanum_iff.mp h
  omega

/-- The byte of an ASCII character. -/
def byteOf (c : Char) : UInt8 :=
  UInt8.ofNat c.toNat

/-- The character of an ASCII byte. -/
def charOf (b : UInt8) : Char :=
  Char.ofNat b.toNat

theorem toNat_byteOf {c : Char} (h : c.toNat < 0x80) : (byteOf c).toNat = c.toNat := by
  unfold byteOf
  rw [UInt8.toNat_ofNat']
  omega

theorem toNat_charOf {b : UInt8} (h : b.toNat < 0x80) : (charOf b).toNat = b.toNat := by
  unfold charOf
  have hvalid : b.toNat.isValidChar := Or.inl (by omega)
  rw [Char.ofNat, dif_pos hvalid]
  rfl

theorem byteOf_charOf {b : UInt8} (h : b.toNat < 0x80) : byteOf (charOf b) = b := by
  unfold byteOf
  rw [toNat_charOf h, UInt8.ofNat_toNat]

/-! ## Writing -/

/-- The bytes of a text are those of its characters. -/
theorem encode_ofList (text : List Char) :
    encode (String.ofList text) = text.flatMap String.utf8EncodeChar := by
  unfold encode
  rw [String.toByteArray_ofList, List.utf8Encode, List.toList_data_toByteArray]

/-- An ASCII character takes one byte. -/
theorem utf8EncodeChar_of_lt {c : Char} (h : c.toNat < 0x80) :
    String.utf8EncodeChar c = [byteOf c] := by
  have hle : c.val.toNat ≤ 0x7f := Nat.le_of_lt_succ h
  exact if_pos hle

/-- ASCII text is written byte by byte. -/
theorem encode_of_ascii {text : List Char} (h : ∀ c ∈ text, c.toNat < 0x80) :
    encode (String.ofList text) = text.map byteOf := by
  rw [encode_ofList]
  induction text with
  | nil => rfl
  | cons c text ih =>
    have hc := h c (List.mem_cons_self ..)
    have htext := ih fun d hd => h d (List.mem_cons_of_mem c hd)
    rw [List.flatMap_cons, utf8EncodeChar_of_lt hc, htext]
    rfl

/-! ## Reading -/

/-- ASCII bytes are read one by one, also where other bytes would be let through. -/
theorem decodeLossy_of_ascii {bytes : List UInt8} (h : ∀ b ∈ bytes, b.toNat < 0x80) :
    decodeLossy bytes = bytes.map charOf := by
  induction bytes with
  | nil => rw [decodeLossy, List.map_nil]
  | cons b bytes ih =>
    have hb : b < 0x80 := UInt8.lt_iff_toNat_lt.mpr (h b (List.mem_cons_self ..))
    have hrest := ih fun d hd => h d (List.mem_cons_of_mem b hd)
    -- a byte below 0x80 is a whole character, so nothing is replaced
    have hpiece : piece b bytes = .scalar (charOf b) 1 := if_pos hb
    rw [decodeLossy, hpiece]
    dsimp only
    rw [List.drop_zero, hrest, List.map_cons]

end LedgerTx.Utf8
