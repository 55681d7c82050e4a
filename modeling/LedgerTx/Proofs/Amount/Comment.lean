import Mathlib.Data.List.DropRight
import LedgerTx.Layout.Scalar
import LedgerTx.Proofs.Amount.Parse

namespace LedgerTx.Amount

/-! # Amounts that are shown

Beside the stroops of an amount a listing shows its units, in the shortest numeral that spells them.  It is
read as the very amount that it stands beside. -/

/-! ## Shortest numerals -/

/-- Whether no digit of a numeral could be left out: no zero stands before other digits of the whole part,
and none at the end of the fraction. -/
structure Numeral.Shortest (numeral : Numeral) : Prop where
  whole_ne_nil : numeral.whole ≠ []
  head_ne_zero : 1 < numeral.whole.length → numeral.whole.head? ≠ some '0'
  last_ne_zero : numeral.fraction.getLast? ≠ some '0'

/-- A numeral with a point only if digits stand behind it. -/
def Numeral.text (numeral : Numeral) : List Char :=
  if numeral.fraction = [] then numeral.whole else numeral.whole ++ '.' :: numeral.fraction

/-- Whether a text shows so many stroops in units, in as few digits as possible. -/
def Shows (text : List Char) (stroops : Nat) : Prop :=
  ∃ numeral : Numeral, text = numeral.text ∧ numeral.Shortest ∧ numeral.fraction.length ≤ 7
    ∧ numeral.value * 10 ^ 7 = stroops

/-- The shorter way to write a numeral is one of the two ways. -/
theorem Numeral.text_text (numeral : Numeral) : numeral.Text numeral.text := by
  unfold text
  by_cases h : numeral.fraction = []
  · rw [if_pos h]
    exact .plain h
  · rw [if_neg h]
    exact .pointed

/-! ## Digits of whole numbers -/

/-- No zero stands before the digits of a number that is not zero. -/
theorem head?_ofNat_ne_zero {n : Nat} (h : 0 < n) : (Decimal.ofNat n).head? ≠ some '0' := by
  unfold Decimal.ofNat
  induction n using Nat.strong_induction_on with
  | _ n ih =>
    by_cases hsmall : n < 10
    · rw [Nat.toDigits_of_lt_base hsmall]
      simp
      omega
    · -- all digits but the last are those of a smaller number
      have hrest := ih (n / 10) (by omega) (by omega)
      rw [Nat.toDigits_of_base_le (by decide) (by omega), List.head?_append_of_ne_nil _ Nat.toDigits_ne_nil]
      exact hrest

/-- Less than a unit has seven digits at most. -/
theorem length_ofNat_le {n : Nat} (h : n < stroopsPerUnit) : (Decimal.ofNat n).length ≤ places := by
  apply (Nat.length_toDigits_le_iff (by decide) (by decide)).mpr
  exact h

/-! ## Places -/

/-- What is dropped from the end of digits is zeros. -/
theorem exists_dropZeros_append (digits : List Char) :
    ∃ zeros, dropZeros digits ++ List.replicate zeros '0' = digits := by
  have hzeros : ∀ c ∈ digits.rtakeWhile (· == '0'), c = '0' := by
    intro c hc
    have hdropped := List.mem_rtakeWhile_imp (p := (· == '0')) hc
    exact beq_iff_eq.mp hdropped
  refine ⟨(digits.rtakeWhile (· == '0')).length, ?_⟩
  rw [← List.eq_replicate_of_mem hzeros]
  exact List.rdropWhile_append_rtakeWhile

/-- When zeros are dropped, none is left at the end. -/
theorem getLast?_dropZeros_ne (digits : List Char) : (dropZeros digits).getLast? ≠ some '0' := by
  intro h
  -- a text that ends in a zero is not empty
  have hne : dropZeros digits ≠ [] := by
    rintro hnil
    rw [hnil] at h
    cases h
  rw [List.getLast?_eq_some_getLast hne, Option.some_inj] at h
  apply List.rdropWhile_last_not (· == '0') digits hne
  exact beq_iff_eq.mpr h

/-- The zeros that are dropped do not count. -/
theorem fractionValue_dropZeros (digits : List Char) :
    fractionValue (dropZeros digits) = fractionValue digits := by
  rcases exists_dropZeros_append digits with ⟨zeros, hzeros⟩
  rw [← fractionValue_append_zeros (dropZeros digits) zeros, hzeros]

theorem length_dropZeros_le (digits : List Char) : (dropZeros digits).length ≤ digits.length := by
  rcases exists_dropZeros_append digits with ⟨zeros, hzeros⟩
  have hlength := congrArg List.length hzeros
  rw [List.length_append] at hlength
  omega

/-- The places that a number below one unit has. -/
def placesText (stroops : Nat) : List Char :=
  dropZeros (padLeft places (Decimal.ofNat stroops))

variable {stroops : Nat}

/-- Filled up in front, all numbers below one unit have seven digits. -/
theorem length_padLeft (h : stroops < stroopsPerUnit) :
    (padLeft places (Decimal.ofNat stroops)).length = 7 := by
  have hlength := length_ofNat_le h
  unfold padLeft places at *
  rw [List.length_append, List.length_replicate]
  omega

/-- Dropping the zeros at the end leaves at most seven places. -/
theorem length_placesText (h : stroops < stroopsPerUnit) : (placesText stroops).length ≤ 7 := by
  have hlength := length_dropZeros_le (padLeft places (Decimal.ofNat stroops))
  rw [length_padLeft h] at hlength
  exact hlength

/-- The places count ten-millionths. -/
theorem fractionValue_placesText (h : stroops < stroopsPerUnit) :
    fractionValue (placesText stroops) * 10 ^ 7 = stroops := by
  have hdigits : Nat.ofDigitChars 10 (padLeft places (Decimal.ofNat stroops)) 0 = stroops := by
    unfold padLeft Decimal.ofNat
    rw [Nat.ofDigitChars_append, Nat.ofDigitChars_replicate_zero, Nat.mul_zero]
    exact Nat.ofDigitChars_ten_toDigits
  have hvalue := fractionValue_mul_pow (padLeft places (Decimal.ofNat stroops))
  rw [length_padLeft h, hdigits] at hvalue
  unfold placesText
  rw [fractionValue_dropZeros, hvalue]

/-- Places are digits. -/
theorem isDigit_of_mem_placesText {c : Char} (h : c ∈ placesText stroops) : c.isDigit = true := by
  rcases exists_dropZeros_append (padLeft places (Decimal.ofNat stroops)) with ⟨zeros, hzeros⟩
  have hmem : c ∈ padLeft places (Decimal.ofNat stroops) := by
    rw [← hzeros]
    exact List.mem_append_left _ h
  rcases List.mem_append.mp hmem with hmem | hmem
  · rw [List.eq_of_mem_replicate hmem]
    rfl
  · exact Decimal.isDigit_of_mem_ofNat hmem

/-- Only a whole number of units has no places. -/
theorem placesText_eq_nil_iff (h : stroops < stroopsPerUnit) : placesText stroops = [] ↔ stroops = 0 := by
  constructor
  · intro hnil
    -- without places, nothing is left beside the whole units
    have hvalue := fractionValue_placesText h
    rw [hnil] at hvalue
    simpa [fractionValue] using hvalue.symm
  · rintro rfl
    decide

/-! ## Magnitudes -/

/-- The numeral that shows a number of stroops. -/
def numeralOf (stroops : Nat) : Numeral where
  whole := Decimal.ofNat (stroops / stroopsPerUnit)
  fraction := placesText (stroops % stroopsPerUnit)
  isDigit_of_mem := by
    intro c hc
    rcases List.mem_append.mp hc with hc | hc
    · exact Decimal.isDigit_of_mem_ofNat hc
    · exact isDigit_of_mem_placesText hc
  ne_nil := List.append_ne_nil_of_left_ne_nil Nat.toDigits_ne_nil _

/-- The digits before the point count whole units. -/
@[simp]
theorem numeralOf_whole (stroops : Nat) :
    (numeralOf stroops).whole = Decimal.ofNat (stroops / stroopsPerUnit) := rfl

/-- The digits behind it count what is left. -/
@[simp]
theorem numeralOf_fraction (stroops : Nat) :
    (numeralOf stroops).fraction = placesText (stroops % stroopsPerUnit) := rfl

theorem mod_lt_unit (stroops : Nat) : stroops % stroopsPerUnit < stroopsPerUnit :=
  Nat.mod_lt _ (by decide)

/-- A magnitude is written as its numeral, without a point if nothing stands behind it. -/
theorem magnitudeText_eq (stroops : Nat) : magnitudeText stroops = (numeralOf stroops).text := by
  have hiff := placesText_eq_nil_iff (mod_lt_unit stroops)
  unfold magnitudeText Numeral.text
  rw [numeralOf_whole, numeralOf_fraction]
  dsimp only
  by_cases h : stroops % stroopsPerUnit = 0
  · rw [if_pos h, if_pos (hiff.mpr h)]
  · rw [if_neg h, if_neg (mt hiff.mp h)]
    rfl

/-- The numeral spells the stroops that it is made for. -/
theorem value_numeralOf (stroops : Nat) : (numeralOf stroops).value * 10 ^ 7 = stroops := by
  have hrest := fractionValue_placesText (mod_lt_unit stroops)
  have hwhole : Nat.ofDigitChars 10 (Decimal.ofNat (stroops / stroopsPerUnit)) 0
      = stroops / stroopsPerUnit := Nat.ofDigitChars_ten_toDigits
  -- whole units and the rest make up the stroops
  have hsplit : stroops / 10000000 * 10000000 + stroops % 10000000 = stroops :=
    Nat.div_add_mod' stroops 10000000
  unfold Numeral.value
  rw [numeralOf_whole, numeralOf_fraction, add_mul, hrest, hwhole]
  unfold stroopsPerUnit
  norm_num
  exact_mod_cast hsplit

/-- A magnitude is shown in as few digits as possible. -/
theorem shows_magnitudeText (stroops : Nat) : Shows (magnitudeText stroops) stroops := by
  refine ⟨numeralOf stroops, magnitudeText_eq stroops, ⟨?_, ?_, ?_⟩, ?_, value_numeralOf stroops⟩
  · exact Nat.toDigits_ne_nil
  -- a whole part of several digits is not zero, so no zero leads it
  · intro hlength
    rw [numeralOf_whole] at hlength ⊢
    apply head?_ofNat_ne_zero
    apply Nat.pos_of_ne_zero
    intro hzero
    rw [hzero] at hlength
    exact absurd hlength (by decide)
  · exact getLast?_dropZeros_ne _
  · exact length_placesText (mod_lt_unit stroops)

/-- What a text shows is what it is read as, if that is a word. -/
theorem Shows.parse_eq_ok {text : List Char} (h : Shows text stroops) {n : Int64} :
    parse (String.ofList text) = .ok n ↔ n.toInt = stroops := by
  rcases h with ⟨numeral, rfl, -, hplaces, hvalue⟩
  have hexact : stroops? numeral.whole numeral.fraction = some n ↔ n.toInt = stroops := by
    rw [stroops?_eq_some_iff hplaces, hvalue]
    constructor
    · intro heq
      exact_mod_cast heq.symm
    · intro heq
      rw [heq]
      rfl
  have htext : numeral.Text (String.ofList numeral.text).toList := by
    rw [String.toList_ofList]
    exact numeral.text_text
  rw [parse_of_text htext, if_neg (by omega), ← hexact]
  cases stroops? numeral.whole numeral.fraction <;> simp

/-- A magnitude can be told from its text. -/
theorem magnitudeText_inj {a b : Nat} (h : magnitudeText a = magnitudeText b) : a = b := by
  have ha : (numeralOf a).Text (magnitudeText b) := by
    rw [← h, magnitudeText_eq]
    exact (numeralOf a).text_text
  have hb : (numeralOf b).Text (magnitudeText b) := by
    rw [magnitudeText_eq]
    exact (numeralOf b).text_text
  -- one text spells one number
  have hvalue := Numeral.value_eq_of_text ha hb
  have hstroops := value_numeralOf a
  rw [hvalue, value_numeralOf b] at hstroops
  exact_mod_cast hstroops.symm

/-- No minus stands in a magnitude. -/
theorem minus_notMem_magnitudeText (stroops : Nat) : '-' ∉ magnitudeText stroops := by
  have hdigits : '-' ∉ (numeralOf stroops).whole ++ (numeralOf stroops).fraction := by
    intro hmem
    cases (numeralOf stroops).isDigit_of_mem '-' hmem
  rw [magnitudeText_eq]
  unfold Numeral.text
  intro hmem
  apply hdigits
  by_cases h : (numeralOf stroops).fraction = []
  · rw [if_pos h] at hmem
    exact List.mem_append_left _ hmem
  · rw [if_neg h] at hmem
    simpa using hmem

/-! ## Comments -/

/-- A comment is a sign, a magnitude and the exponent. -/
theorem comment_eq (n : Int64) :
    comment n = (if n.toInt < 0 then ['-'] else []) ++ magnitudeText n.toInt.natAbs ++ ['e', '7'] := by
  unfold comment unitsText
  by_cases h : n.toInt < 0
  · rw [if_pos h, if_pos h]
    rfl
  · rw [if_neg h, if_neg h]
    rfl

/-- An amount can be told from its comment. -/
theorem comment_injective : Function.Injective comment := by
  intro a b h
  rw [comment_eq, comment_eq] at h
  have hunits := List.append_cancel_right h
  have hminus : ∀ (stroops : Nat) (rest : List Char), magnitudeText stroops ≠ '-' :: rest := by
    intro stroops rest heq
    apply minus_notMem_magnitudeText stroops
    rw [heq]
    exact List.mem_cons_self ..
  -- amounts of different signs differ in the first character
  by_cases ha : a.toInt < 0
  · by_cases hb : b.toInt < 0
    · rw [if_pos ha, if_pos hb] at hunits
      have habs := magnitudeText_inj (List.append_cancel_left hunits)
      apply Int64.toInt_inj.mp
      omega
    · rw [if_pos ha, if_neg hb] at hunits
      exact absurd hunits.symm (hminus _ _)
  · by_cases hb : b.toInt < 0
    · rw [if_neg ha, if_pos hb] at hunits
      exact absurd hunits (hminus _ _)
    · rw [if_neg ha, if_neg hb] at hunits
      have habs := magnitudeText_inj (List.append_cancel_left hunits)
      apply Int64.toInt_inj.mp
      omega

/-- The comment that a listing puts beside an amount is the amount in units, in the shortest numeral,
behind a minus if it is negative.  Entered as an amount, the units are read as that very amount unless it
is negative, and different amounts have different comments. -/
theorem comment_exact :
    (∀ stroops, Shows (magnitudeText stroops) stroops)
      ∧ (∀ n : Int64, comment n
        = (if n.toInt < 0 then ['-'] else []) ++ magnitudeText n.toInt.natAbs ++ ['e', '7'])
      ∧ (∀ n : Int64, parse (String.ofList (magnitudeText n.toInt.natAbs)) = .ok n ↔ 0 ≤ n.toInt)
      ∧ (∀ a b, comment a = comment b ↔ a = b)
      ∧ ∀ path n, Layout.amount.form.write path n
        = .ok [⟨path, Decimal.ofInt n.toInt ++ [' ', '('] ++ comment n ++ [')']⟩] := by
  refine ⟨shows_magnitudeText, comment_eq, ?_, fun a b => comment_injective.eq_iff, ?_⟩
  · intro n
    rw [(shows_magnitudeText n.toInt.natAbs).parse_eq_ok]
    omega
  · intro path n
    show Except.ok [(⟨path, withComment (Decimal.ofInt n.toInt) (comment n)⟩ : Listing.Line)] = _
    unfold withComment
    simp

/-- The lowest amount, of which the magnitude is no word. -/
example : comment Int64.minValue = "-922337203685.4775808e7".toList := by
  decide +kernel

end LedgerTx.Amount
