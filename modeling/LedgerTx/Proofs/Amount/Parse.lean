import LedgerTx.Proofs.Amount.Numeral
import LedgerTx.Proofs.Text.Decimal

namespace LedgerTx.Amount

/-! # Amounts that are read

An amount is read in steps of 64 bits, each of which may overflow.  Together they refuse exactly the
numerals with too many places and those of which the stroops are no word. -/

/-! ## Steps -/

/-- The numbers that are words of 64 bits. -/
theorem inRange_iff {i : Int} : inRange i = true ↔ -2 ^ 63 ≤ i ∧ i < 2 ^ 63 := by
  have hmin : Int64.minValue.toInt = -2 ^ 63 := rfl
  have hmax : Int64.maxValue.toInt = 2 ^ 63 - 1 := rfl
  unfold inRange
  rw [Bool.and_eq_true, decide_eq_true_eq, decide_eq_true_eq]
  omega

/-- A word that is right up to overflow is the one that is right. -/
theorem eq_of_toInt_bmod {i : Int} {word exact : Int64} (hword : word.toInt = i.bmod (2 ^ 64))
    (h : exact.toInt = i) : word = exact := by
  have hlow := exact.le_toInt
  have hhigh := exact.toInt_lt
  apply Int64.toInt_inj.mp
  rw [hword, h, Int.bmod_eq_of_le (by omega) (by omega)]

/-- A step that is checked gives the exact number, and fails only if no word is that. -/
theorem checked_eq_some {i : Int} {word exact : Int64} (hword : word.toInt = i.bmod (2 ^ 64)) :
    (if inRange i then some word else none) = some exact ↔ exact.toInt = i := by
  constructor
  · intro h
    -- out of range, the step fails
    by_cases hrange : inRange i = true
    · rw [if_pos hrange] at h
      cases h
      rw [inRange_iff] at hrange
      rw [hword, Int.bmod_eq_of_le (by omega) (by omega)]
    · rw [if_neg hrange] at h
      cases h
  · intro h
    have hrange : inRange i = true := by
      rw [inRange_iff, ← h]
      exact ⟨exact.le_toInt, exact.toInt_lt⟩
    rw [if_pos hrange, eq_of_toInt_bmod hword h]

/-- A product that is given is exact. -/
theorem mul?_eq_some {a b c : Int64} : mul? a b = some c ↔ c.toInt = a.toInt * b.toInt :=
  checked_eq_some (Int64.toInt_mul a b)

theorem add?_eq_some {a b c : Int64} : add? a b = some c ↔ c.toInt = a.toInt + b.toInt :=
  checked_eq_some (Int64.toInt_add a b)

/-- Whole units are read as a word whether there are any digits or none. -/
theorem units?_eq_some {whole : List Char} (h : ∀ c ∈ whole, c.isDigit = true) {n : Int64} :
    units? whole = some n ↔ n.toInt = Nat.ofDigitChars 10 whole 0 := by
  unfold units?
  by_cases hnil : whole = []
  · rw [if_pos hnil, hnil, Option.some_inj, ← Int64.toInt_inj]
    exact eq_comm
  · rw [if_neg hnil]
    exact Decimal.int64?_of_digits hnil h

/-- The stroops that digits behind the point count when they are filled up with zeros. -/
def restOf (fraction : List Char) : Nat :=
  Nat.ofDigitChars 10 (padRight places fraction) 0

/-- Filled up with zeros a fraction spells the same. -/
theorem restOf_eq {fraction : List Char} (h : fraction.length ≤ 7) :
    (restOf fraction : ℚ) = fractionValue fraction * 10 ^ 7 := by
  have hlength : (padRight places fraction).length = 7 := by
    unfold padRight places
    simp
    omega
  have hvalue : fractionValue (padRight places fraction) = fractionValue fraction :=
    fractionValue_append_zeros _ _
  unfold restOf
  rw [← fractionValue_mul_pow, hvalue, hlength]

/-- The digits behind the point are read as a word once they are filled up. -/
theorem rest?_eq_some {fraction : List Char} (h : ∀ c ∈ fraction, c.isDigit = true) {n : Int64} :
    rest? fraction = some n ↔ n.toInt = restOf fraction := by
  unfold rest?
  by_cases hnil : fraction = []
  · rw [if_pos hnil, hnil, Option.some_inj, ← Int64.toInt_inj]
    exact eq_comm
  · rw [if_neg hnil]
    apply Decimal.int64?_of_digits
    · simp [padRight, hnil]
    · intro c hc
      rcases List.mem_append.mp hc with hc | hc
      · exact h c hc
      · rw [List.eq_of_mem_replicate hc]
        rfl

/-! ## All steps together -/

/-- The words of whole units and of the stroops beside them that a numeral of seven places spells, for
which neither the product nor the sum overflows. -/
structure Steps (numeral : Numeral) (units rest stroops : Int64) : Prop where
  units_eq : units.toInt = Nat.ofDigitChars 10 numeral.whole 0
  rest_eq : (rest.toInt : ℚ) = fractionValue numeral.fraction * 10 ^ 7
  product_eq : (units * 10000000).toInt = units.toInt * 10000000
  sum_eq : (units * 10000000 + rest).toInt = (units * 10000000).toInt + rest.toInt
  stroops_eq : stroops = units * 10000000 + rest

variable {numeral : Numeral} {n : Int64}

theorem exists_word {i : Int} (hlow : 0 ≤ i) (hhigh : i < 2 ^ 63) : ∃ word : Int64, word.toInt = i :=
  ⟨Int64.ofInt i, Int64.toInt_ofInt_of_le (by omega) hhigh⟩

/-- A numeral counts its whole units and the stroops beside them. -/
theorem value_mul_eq (h : numeral.fraction.length ≤ 7) :
    numeral.value * 10 ^ 7
      = ((Nat.ofDigitChars 10 numeral.whole 0 * 10000000 + restOf numeral.fraction : Int) : ℚ) := by
  unfold Numeral.value
  push_cast
  rw [restOf_eq h]
  ring

/-- The steps are words that count exactly what they stand for. -/
theorem steps_iff (h : numeral.fraction.length ≤ 7) {units rest : Int64} :
    Steps numeral units rest n ↔
      units.toInt = Nat.ofDigitChars 10 numeral.whole 0 ∧ rest.toInt = restOf numeral.fraction ∧
        ∃ product : Int64, product.toInt = units.toInt * 10000000
          ∧ n.toInt = product.toInt + rest.toInt := by
  constructor
  · intro hsteps
    have hrest := hsteps.rest_eq
    rw [← restOf_eq h] at hrest
    refine ⟨hsteps.units_eq, by exact_mod_cast hrest, units * 10000000, hsteps.product_eq, ?_⟩
    rw [hsteps.stroops_eq, hsteps.sum_eq]
  · rintro ⟨hunits, hrest, product, hproduct, hsum⟩
    have hliteral : (10000000 : Int64).toInt = 10000000 := by decide
    -- words that count what they should are those that wrap around to it
    have hword : units * 10000000 = product := by
      apply eq_of_toInt_bmod (Int64.toInt_mul units 10000000)
      rw [hproduct, hliteral]
    have hstroops : product + rest = n := eq_of_toInt_bmod (Int64.toInt_add product rest) hsum
    refine ⟨hunits, ?_, ?_, ?_, ?_⟩
    · rw [hrest, ← restOf_eq h]
      rfl
    · rw [hword, hproduct]
    · rw [hword, hstroops, hsum]
    · rw [hword, hstroops]

/-- The steps succeed exactly if none overflows. -/
theorem stroops?_eq_some (h : numeral.fraction.length ≤ 7) :
    stroops? numeral.whole numeral.fraction = some n ↔ ∃ units rest, Steps numeral units rest n := by
  have hwhole : ∀ c ∈ numeral.whole, c.isDigit = true :=
    fun c hc => numeral.isDigit_of_mem c (List.mem_append_left _ hc)
  have hfraction : ∀ c ∈ numeral.fraction, c.isDigit = true :=
    fun c hc => numeral.isDigit_of_mem c (List.mem_append_right _ hc)
  have hunit : (Int64.ofNat stroopsPerUnit).toInt = 10000000 := by decide
  unfold stroops?
  simp only [Option.bind_eq_bind, Option.bind_eq_some_iff, units?_eq_some hwhole,
    rest?_eq_some hfraction, mul?_eq_some, add?_eq_some, hunit, steps_iff h]
  constructor
  · rintro ⟨units, hunits, rest, hrest, product, hproduct, hsum⟩
    exact ⟨units, rest, hunits, hrest, product, hproduct, hsum⟩
  · rintro ⟨units, rest, hunits, hrest, product, hproduct, hsum⟩
    exact ⟨units, hunits, rest, hrest, product, hproduct, hsum⟩

/-- No step overflows if what the numeral spells is a word of stroops. -/
theorem exists_steps_iff (h : numeral.fraction.length ≤ 7) :
    (∃ units rest, Steps numeral units rest n) ↔ numeral.value * 10 ^ 7 = n.toInt := by
  have hpos := Int.natCast_nonneg (Nat.ofDigitChars 10 numeral.whole 0)
  have hrest_pos := Int.natCast_nonneg (restOf numeral.fraction)
  have hhigh := n.toInt_lt
  rw [value_mul_eq h, Int.cast_inj]
  simp only [steps_iff h]
  constructor
  · rintro ⟨units, rest, hunits, hrest, product, hproduct, hsum⟩
    rw [hsum, hproduct, hunits, hrest]
  · intro hvalue
    -- neither part of the sum is above the sum
    rcases exists_word hpos (by omega) with ⟨units, hunits⟩
    rcases exists_word hrest_pos (by omega) with ⟨rest, hrest⟩
    rcases exists_word (i := units.toInt * 10000000) (by omega) (by omega) with ⟨product, hproduct⟩
    refine ⟨units, rest, hunits, hrest, product, hproduct, ?_⟩
    rw [← hvalue, hproduct, hunits, hrest]

/-! ## Texts -/

/-- Why a text is no amount. -/
inductive Refused (text : String) : ArgumentError → Prop
  | notNumeral : (∀ numeral : Numeral, ¬numeral.Text text.toList) → Refused text (.notAmount text)
  | places (numeral : Numeral) : numeral.Text text.toList → 7 < numeral.fraction.length →
      Refused text (.amountPlaces 7 text)
  | tooLarge (numeral : Numeral) : numeral.Text text.toList → numeral.fraction.length ≤ 7 →
      2 ^ 63 ≤ numeral.value * 10 ^ 7 → Refused text (.notAmount text)

/-- A numeral is read by its parts. -/
theorem parse_of_text {text : String} (h : numeral.Text text.toList) :
    parse text
      = if 7 < numeral.fraction.length then .error (.amountPlaces 7 text)
        else
          match stroops? numeral.whole numeral.fraction with
          | some stroops => .ok stroops
          | none => .error (.notAmount text) := by
  have hne : ¬(numeral.whole = [] ∧ numeral.fraction = []) := by
    rintro ⟨hwhole, hfraction⟩
    apply numeral.ne_nil
    rw [hwhole, hfraction]
    rfl
  have hdigits : (numeral.whole.all Char.isDigit && numeral.fraction.all Char.isDigit) = true := by
    rw [← List.all_append, List.all_eq_true]
    exact numeral.isDigit_of_mem
  unfold parse
  rw [split_of_text h]
  dsimp only
  rw [if_neg hne, hdigits]
  rfl

/-- A text that is no numeral is refused. -/
theorem parse_of_not_text {text : String} (h : ∀ numeral : Numeral, ¬numeral.Text text.toList) :
    parse text = .error (.notAmount text) := by
  unfold parse
  dsimp only
  split
  · rfl
  · rename_i hne
    split
    · rfl
    · rename_i hdigits
      rw [Bool.not_eq_true', Bool.not_eq_false, ← List.all_append, List.all_eq_true] at hdigits
      rcases exists_numeral (by simpa using hne) hdigits with ⟨numeral, htext, -⟩
      exact absurd htext (h numeral)

/-- The steps end in a word exactly if what the numeral spells is that many stroops. -/
theorem stroops?_eq_some_iff (h : numeral.fraction.length ≤ 7) :
    stroops? numeral.whole numeral.fraction = some n ↔ numeral.value * 10 ^ 7 = n.toInt :=
  (stroops?_eq_some h).trans (exists_steps_iff h)

/-- Where a step overflows, the stroops are no word. -/
theorem stroops?_eq_none_iff (h : numeral.fraction.length ≤ 7) :
    stroops? numeral.whole numeral.fraction = none ↔ 2 ^ 63 ≤ numeral.value * 10 ^ 7 := by
  have hexact : ∀ n : Int64, stroops? numeral.whole numeral.fraction = some n
      ↔ numeral.value * 10 ^ 7 = n.toInt := fun n => stroops?_eq_some_iff h
  rw [value_mul_eq h] at hexact ⊢
  constructor
  · intro hnone
    by_contra hlt
    rw [not_le] at hlt
    -- otherwise the stroops would be a word
    have hbound : (Nat.ofDigitChars 10 numeral.whole 0 * 10000000 + restOf numeral.fraction : Int)
        < 2 ^ 63 := by exact_mod_cast hlt
    rcases exists_word (by positivity) hbound with ⟨n, hn⟩
    have hsome := (hexact n).mpr (by rw [hn])
    rw [hnone] at hsome
    cases hsome
  · intro hle
    cases hstroops : stroops? numeral.whole numeral.fraction with
    | none => rfl
    | some n =>
      have hn := (hexact n).mp hstroops
      have hlt := n.toInt_lt
      rw [hn] at hle
      have hle : 2 ^ 63 ≤ n.toInt := by exact_mod_cast hle
      omega

/-- A text is read if it is a numeral of seven places at most for which no step overflows. -/
theorem parse_eq_ok {text : String} {n : Int64} :
    parse text = .ok n ↔ ∃ numeral : Numeral, numeral.Text text.toList
      ∧ numeral.fraction.length ≤ 7 ∧ stroops? numeral.whole numeral.fraction = some n := by
  constructor
  · intro h
    -- a text is a numeral or it is none
    by_cases htext : ∃ numeral : Numeral, numeral.Text text.toList
    · rcases htext with ⟨numeral, htext⟩
      rw [parse_of_text htext] at h
      by_cases hplaces : 7 < numeral.fraction.length
      · rw [if_pos hplaces] at h
        cases h
      · rw [if_neg hplaces] at h
        refine ⟨numeral, htext, by omega, ?_⟩
        split at h
        · rename_i stroops hstroops
          cases h
          exact hstroops
        · cases h
    · rw [parse_of_not_text (not_exists.mp htext)] at h
      cases h
  · rintro ⟨numeral, htext, hplaces, hstroops⟩
    rw [parse_of_text htext, if_neg (by omega), hstroops]

/-- A text is refused for the reason that applies to it. -/
theorem parse_eq_error {text : String} {cause : ArgumentError} :
    parse text = .error cause ↔ Refused text cause := by
  constructor
  · intro h
    by_cases htext : ∃ numeral : Numeral, numeral.Text text.toList
    · rcases htext with ⟨numeral, htext⟩
      rw [parse_of_text htext] at h
      by_cases hplaces : 7 < numeral.fraction.length
      · rw [if_pos hplaces] at h
        cases h
        exact .places numeral htext hplaces
      · rw [if_neg hplaces] at h
        split at h
        · cases h
        · rename_i hnone
          cases h
          exact .tooLarge numeral htext (by omega) ((stroops?_eq_none_iff (by omega)).mp hnone)
    · rw [parse_of_not_text (not_exists.mp htext)] at h
      cases h
      exact .notNumeral (not_exists.mp htext)
  · intro h
    cases h with
    | notNumeral hnone => exact parse_of_not_text hnone
    | places numeral htext hplaces => rw [parse_of_text htext, if_pos hplaces]
    | tooLarge numeral htext hplaces hlarge =>
      rw [parse_of_text htext, if_neg (by omega), (stroops?_eq_none_iff hplaces).mpr hlarge]

/-- An amount is read exactly if it is a decimal numeral of at most seven places that spells a number of
stroops which is a word, and then as that number; no step on the way overflows.  Any other text is
refused for the one reason that applies to it. -/
theorem parse_exact :
    (∀ text n, parse text = .ok n ↔ ∃ numeral : Numeral, numeral.Text text.toList
        ∧ numeral.fraction.length ≤ 7 ∧ numeral.value * 10 ^ 7 = n.toInt)
      ∧ (∀ text n, parse text = .ok n ↔ ∃ numeral : Numeral, numeral.Text text.toList
        ∧ numeral.fraction.length ≤ 7 ∧ ∃ units rest, Steps numeral units rest n)
      ∧ ∀ text cause, parse text = .error cause ↔ Refused text cause := by
  refine ⟨?_, ?_, fun text cause => parse_eq_error⟩
  · intro text n
    rw [parse_eq_ok]
    refine exists_congr fun numeral => and_congr_right fun _ => and_congr_right fun hplaces => ?_
    exact stroops?_eq_some_iff hplaces
  · intro text n
    rw [parse_eq_ok]
    refine exists_congr fun numeral => and_congr_right fun _ => and_congr_right fun hplaces => ?_
    exact stroops?_eq_some hplaces

/-- The largest amount; one stroop more is refused. -/
example : parse "922337203685.4775807" = .ok 9223372036854775807
    ∧ parse "922337203685.4775808" = .error (.notAmount "922337203685.4775808") := by
  decide +kernel

end LedgerTx.Amount
