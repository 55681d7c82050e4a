import LedgerTx.Bytes.Hex
import LedgerTx.Proofs.Bytes.Ascii

namespace LedgerTx.Hex

/-! # Reading hexadecimal bytes that were written -/

/-! ## Digits -/

/-- Each of the sixteen digits is a small letter or a decimal digit, and has its number. -/
theorem digit_cases {n : Nat} (h : n < 16) :
    (digit n).isAlphanum = true ∧ digitValue? (Utf8.byteOf (digit n)) = some n := by
  have hall : ∀ i : Fin 16,
      (digit i).isAlphanum = true ∧ digitValue? (Utf8.byteOf (digit i)) = some i.val := by
    decide
  exact hall ⟨n, h⟩

/-- Only digits are written. -/
theorem isAlphanum_of_mem_encode {bytes : List UInt8} {c : Char} (h : c ∈ encode bytes) :
    c.isAlphanum = true := by
  rcases List.mem_flatMap.mp h with ⟨b, -, hc⟩
  have hb := b.toNat_lt
  have hhigh := (digit_cases (n := b.toNat / 16) (by omega)).1
  have hlow := (digit_cases (n := b.toNat % 16) (by omega)).1
  simp only [List.mem_cons, List.not_mem_nil, or_false] at hc
  rcases hc with rfl | rfl
  · exact hhigh
  · exact hlow

/-- Two digits a byte. -/
theorem length_encode (bytes : List UInt8) : (encode bytes).length = 2 * bytes.length := by
  induction bytes with
  | nil => rfl
  | cons b bytes ih =>
    have hcons : encode (b :: bytes) = digit (b.toNat / 16) :: digit (b.toNat % 16) :: encode bytes :=
      rfl
    rw [hcons, List.length_cons, List.length_cons, List.length_cons, ih]
    omega

/-! ## Bytes -/

/-- Pairs of digits are read back, whatever place they are counted from. -/
theorem decodePairs_encode (bytes : List UInt8) (index : Nat) :
    decodePairs index ((encode bytes).map Utf8.byteOf) = .ok bytes := by
  induction bytes generalizing index with
  | nil => rfl
  | cons b bytes ih =>
    have hb := b.toNat_lt
    have hhigh := (digit_cases (n := b.toNat / 16) (by omega)).2
    have hlow := (digit_cases (n := b.toNat % 16) (by omega)).2
    -- the upper and the lower four bits make the byte
    have hbyte : UInt8.ofNat (b.toNat / 16 * 16 + b.toNat % 16) = b := by
      rw [Nat.div_add_mod', UInt8.ofNat_toNat]
    show decodePairs index (Utf8.byteOf (digit (b.toNat / 16)) :: Utf8.byteOf (digit (b.toNat % 16))
      :: (encode bytes).map Utf8.byteOf) = .ok (b :: bytes)
    simp only [decodePairs, readDigit, hhigh, hlow, ih]
    show Except.ok (UInt8.ofNat (b.toNat / 16 * 16 + b.toNat % 16) :: bytes) = _
    rw [hbyte]

/-- Bytes are read back from their hexadecimal form. -/
theorem decode_encode (bytes : List UInt8) : decode (encode bytes) = .ok bytes := by
  have hascii : ∀ c ∈ encode bytes, c.toNat < 0x80 :=
    fun c hc => Utf8.lt_of_isAlphanum (isAlphanum_of_mem_encode hc)
  have heven : ¬((encode bytes).map Utf8.byteOf).length % 2 = 1 := by
    rw [List.length_map, length_encode]
    omega
  unfold decode
  rw [Utf8.encode_of_ascii hascii]
  dsimp only
  rw [if_neg heven, decodePairs_encode]

end LedgerTx.Hex
