import LedgerTx.Text.Decimal
import LedgerTx.Proofs.Text.Blank

namespace LedgerTx.Decimal

/-! # Reading numbers that were written -/

/-- A digit is no blank, no sign and no quote. -/
theorem isBlank_of_isDigit {c : Char} (h : c.isDigit = true) : Blank.isBlank c = false := by
  have hval : c.val ≥ '0'.val ∧ c.val ≤ '9'.val := by
    simpa only [Char.isDigit, Bool.and_eq_true, decide_eq_true_eq] using h
  have hmin : 48 ≤ c.toNat := UInt32.le_iff_toNat_le.mp hval.1
  have hmax : c.toNat ≤ 57 := UInt32.le_iff_toNat_le.mp hval.2
  simp only [Blank.isBlank, Bool.or_eq_false_iff, Bool.and_eq_false_iff, decide_eq_false_iff_not,
    beq_eq_false_iff_ne]
  omega

theorem isDigit_of_mem_ofNat {n : Nat} {c : Char} (h : c ∈ ofNat n) : c.isDigit = true :=
  Nat.isDigit_of_mem_toDigits (by decide) (by decide) h

/-- A number that is not negative begins with a digit. -/
theorem ofNat_eq_cons (n : Nat) : ∃ c rest, ofNat n = c :: rest ∧ c.isDigit = true := by
  cases h : ofNat n with
  | nil => exact absurd h Nat.toDigits_ne_nil
  | cons c rest =>
    refine ⟨c, rest, rfl, isDigit_of_mem_ofNat (n := n) ?_⟩
    rw [h]
    exact List.mem_cons_self ..

/-- Digits are read as the number that was written. -/
theorem digits?_ofNat (n : Nat) : digits? (ofNat n) = some n := by
  have hdigits : (ofNat n).all Char.isDigit = true :=
    List.all_eq_true.mpr fun c hc => isDigit_of_mem_ofNat hc
  unfold digits?
  rw [if_pos ⟨Nat.toDigits_ne_nil, hdigits⟩]
  exact congrArg some Nat.ofDigitChars_ten_toDigits

/-- No sign stands before the digits of a number. -/
theorem ofNat_ne_cons {n : Nat} {sign : Char} (hsign : sign.isDigit = false) (rest : List Char) :
    ofNat n ≠ sign :: rest := by
  intro h
  have hdigit := isDigit_of_mem_ofNat (n := n) (c := sign) (h ▸ List.mem_cons_self ..)
  rw [hsign] at hdigit
  cases hdigit

/-- A number is read from its digits, if it is not too large. -/
theorem natUpTo?_ofNat {max n : Nat} (h : n ≤ max) : natUpTo? max (ofNat n) = some n := by
  unfold natUpTo?
  -- a plus sign may stand in front of digits, but none was written
  split
  · rename_i rest heq
    exact absurd heq (ofNat_ne_cons (by decide) rest)
  · simp [digits?_ofNat, h]

/-- A number in range is read from its decimal form. -/
theorem intWithin?_ofInt {min max i : Int} (hmin : min ≤ i) (hmax : i ≤ max) :
    intWithin? min max (ofInt i) = some i := by
  have hkeep : (some i).filter (fun i => decide (min ≤ i ∧ i ≤ max)) = some i := by
    rw [Option.filter_some, if_pos (decide_eq_true ⟨hmin, hmax⟩)]
  -- a minus stands before the digits of a negative number, and no sign before others
  by_cases hneg : i < 0
  · have htext : ofInt i = '-' :: ofNat i.natAbs := if_pos hneg
    have hi : -((i.natAbs : Nat) : Int) = i := by omega
    rw [htext]
    simp only [intWithin?, digits?_ofNat, Option.pure_def, Option.bind_eq_bind, Option.bind_some,
      Option.map_some, hi]
    exact hkeep
  · have htext : ofInt i = ofNat i.natAbs := if_neg hneg
    have hi : ((i.natAbs : Nat) : Int) = i := by omega
    rw [htext]
    unfold intWithin?
    split
    · rename_i rest heq
      exact absurd heq (ofNat_ne_cons (by decide) rest)
    · rename_i rest heq
      exact absurd heq (ofNat_ne_cons (by decide) rest)
    · rw [digits?_ofNat, Option.map_some]
      show (some ((i.natAbs : Nat) : Int)).filter _ = some i
      rw [hi]
      exact hkeep

/-- Digits without a sign spell the number that they count, if it is in range. -/
theorem intWithin?_of_digits {min max : Int} {digits : List Char} (hne : digits ≠ [])
    (h : ∀ c ∈ digits, c.isDigit = true) :
    intWithin? min max digits = (some (Nat.ofDigitChars 10 digits 0 : Int)).filter
      fun i => decide (min ≤ i ∧ i ≤ max) := by
  have hvalue : digits? digits = some (Nat.ofDigitChars 10 digits 0) :=
    if_pos ⟨hne, List.all_eq_true.mpr h⟩
  unfold intWithin?
  -- no sign stands in front, since all characters are digits
  split
  · cases h '+' (by simp)
  · cases h '-' (by simp)
  · simp [hvalue]

/-! ## Numbers of fixed widths -/

theorem uint32?_ofNat (v : UInt32) : uint32? (ofNat v.toNat) = some v := by
  have hle : v.toNat ≤ UInt32.size - 1 := Nat.le_pred_of_lt v.toNat_lt
  unfold uint32?
  rw [natUpTo?_ofNat hle, Option.map_some, UInt32.ofNat_toNat]

theorem uint64?_ofNat (v : UInt64) : uint64? (ofNat v.toNat) = some v := by
  have hle : v.toNat ≤ UInt64.size - 1 := Nat.le_pred_of_lt v.toNat_lt
  unfold uint64?
  rw [natUpTo?_ofNat hle, Option.map_some, UInt64.ofNat_toNat]

theorem int32?_ofInt (v : Int32) : int32? (ofInt v.toInt) = some v := by
  unfold int32?
  rw [intWithin?_ofInt v.minValue_le_toInt v.toInt_le, Option.map_some, Int32.ofInt_toInt]

/-- Digits are read as the signed number of 64 bits that they count, if there is one. -/
theorem int64?_of_digits {digits : List Char} (hne : digits ≠ [])
    (h : ∀ c ∈ digits, c.isDigit = true) {v : Int64} :
    int64? digits = some v ↔ v.toInt = Nat.ofDigitChars 10 digits 0 := by
  have hmin : Int64.minValue.toInt = -2 ^ 63 := rfl
  have hmax : Int64.maxValue.toInt = 2 ^ 63 - 1 := rfl
  have hlow := v.le_toInt
  have hhigh := v.toInt_lt
  unfold int64?
  rw [intWithin?_of_digits hne h, Option.filter_some]
  -- digits cannot count below the range, so only its upper end matters
  by_cases hrange : Nat.ofDigitChars 10 digits 0 < 2 ^ 63
  · have hword : (Int64.ofInt (Nat.ofDigitChars 10 digits 0)).toInt = Nat.ofDigitChars 10 digits 0 :=
      Int64.toInt_ofInt_of_le (by omega) (by omega)
    rw [if_pos (by simp; omega), Option.map_some, Option.some_inj, ← Int64.toInt_inj, hword]
    exact eq_comm
  · rw [if_neg (by simp; omega), Option.map_none]
    constructor
    · intro hnone
      cases hnone
    · intro heq
      omega

theorem int64?_ofInt (v : Int64) : int64? (ofInt v.toInt) = some v := by
  unfold int64?
  rw [intWithin?_ofInt v.minValue_le_toInt v.toInt_le, Option.map_some, Int64.ofInt_toInt]

end LedgerTx.Decimal
