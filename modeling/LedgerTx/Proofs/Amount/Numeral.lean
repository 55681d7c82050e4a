import Mathlib.Algebra.Order.Field.Rat
import Mathlib.Tactic.FieldSimp
import Mathlib.Tactic.Linarith
import Mathlib.Tactic.Ring
import LedgerTx.Amount
import LedgerTx.Proofs.Text.Blank

namespace LedgerTx.Amount

/-! # Decimal numerals

A numeral is digits around at most one point.  What it spells is a rational number, which does not change
when zeros are put behind the point's digits or taken off there. -/

/-- A decimal numeral: the digits before the point and those behind it, at least one in all. -/
structure Numeral where
  whole : List Char
  fraction : List Char
  isDigit_of_mem : ∀ c ∈ whole ++ fraction, c.isDigit = true
  ne_nil : whole ++ fraction ≠ []

namespace Numeral

/-- How a numeral is written; where no digit stands behind the point, the point may be left out. -/
inductive Text (numeral : Numeral) : List Char → Prop
  | pointed : Text numeral (numeral.whole ++ '.' :: numeral.fraction)
  | plain : numeral.fraction = [] → Text numeral numeral.whole

end Numeral

/-! ## Values -/

/-- The number that digits behind a point spell. -/
def fractionValue (digits : List Char) : ℚ :=
  Nat.ofDigitChars 10 digits 0 / 10 ^ digits.length

/-- The number that a numeral spells. -/
def Numeral.value (numeral : Numeral) : ℚ :=
  Nat.ofDigitChars 10 numeral.whole 0 + fractionValue numeral.fraction

/-- Zeros behind digits multiply what the digits count. -/
theorem ofDigitChars_append_zeros (digits : List Char) (zeros : Nat) :
    Nat.ofDigitChars 10 (digits ++ List.replicate zeros '0') 0
      = Nat.ofDigitChars 10 digits 0 * 10 ^ zeros := by
  rw [Nat.ofDigitChars_append, Nat.ofDigitChars_replicate_zero, Nat.mul_comm]

/-- Zeros at the end of a fraction do not count. -/
theorem fractionValue_append_zeros (digits : List Char) (zeros : Nat) :
    fractionValue (digits ++ List.replicate zeros '0') = fractionValue digits := by
  unfold fractionValue
  rw [ofDigitChars_append_zeros, List.length_append, List.length_replicate, pow_add]
  push_cast
  rw [mul_div_mul_right _ _ (by positivity)]

/-- A fraction as the count of its last places. -/
theorem fractionValue_mul_pow (digits : List Char) :
    fractionValue digits * 10 ^ digits.length = Nat.ofDigitChars 10 digits 0 := by
  unfold fractionValue
  rw [div_mul_cancel₀ _ (by positivity)]

/-! ## The point -/

theorem ne_point_of_isDigit {c : Char} (h : c.isDigit = true) : (c != '.') = true := by
  rw [bne_iff_ne]
  rintro rfl
  cases h

/-- A text is taken apart at the point of the numeral that it is. -/
theorem split_of_text {numeral : Numeral} {text : List Char} (h : numeral.Text text) :
    split text = (numeral.whole, numeral.fraction) := by
  have hwhole : ∀ c ∈ numeral.whole, (c != '.') = true := by
    intro c hc
    apply ne_point_of_isDigit
    exact numeral.isDigit_of_mem c (List.mem_append_left _ hc)
  unfold split
  cases h with
  | pointed =>
    -- the first point is that of the numeral, since no digit is one
    rw [span_append hwhole (by simp)]
    rfl
  | plain hfraction =>
    have hspan : (numeral.whole ++ []).span (· != '.') = (numeral.whole, []) :=
      span_append hwhole (by simp)
    rw [List.append_nil] at hspan
    rw [hspan, hfraction]
    rfl

/-- A text has the parts before and behind its first point, and perhaps the point. -/
theorem eq_of_split (text : List Char) :
    text = (split text).1 ++ '.' :: (split text).2 ∨ text = (split text).1 ∧ (split text).2 = [] := by
  unfold split
  rcases span_ne_cases '.' text with hspan | ⟨before, after, hspan, htext⟩
  · right
    rw [hspan]
    exact ⟨rfl, rfl⟩
  · left
    rw [hspan]
    exact htext

/-- A text of which the parts are digits is a numeral. -/
theorem exists_numeral {text : List Char} (hne : (split text).1 ++ (split text).2 ≠ [])
    (hdigits : ∀ c ∈ (split text).1 ++ (split text).2, c.isDigit = true) :
    ∃ numeral : Numeral, numeral.Text text ∧ split text = (numeral.whole, numeral.fraction) := by
  let numeral : Numeral := ⟨(split text).1, (split text).2, hdigits, hne⟩
  refine ⟨numeral, ?_, rfl⟩
  rcases eq_of_split text with htext | ⟨htext, hfraction⟩
  · rw [htext]
    exact .pointed
  · rw [htext]
    exact .plain hfraction

/-- A text is written for one numeral at most. -/
theorem Numeral.value_eq_of_text {a b : Numeral} {text : List Char} (ha : a.Text text)
    (hb : b.Text text) : a.value = b.value := by
  have hparts := (split_of_text ha).symm.trans (split_of_text hb)
  rcases Prod.mk.inj hparts with ⟨hwhole, hfraction⟩
  unfold value
  rw [hwhole, hfraction]

end LedgerTx.Amount
