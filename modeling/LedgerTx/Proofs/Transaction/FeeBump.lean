import Mathlib.Tactic.Ring
import LedgerTx.Proofs.Transaction.Build

namespace LedgerTx.FeeBump

/-! # What a fee bump must pay

The rate of a transaction is rounded down before it is multiplied, so the lowest fee of a bump may be
below the exact rate, but by less than one for each operation that is paid for.  Where the fee is a
multiple of the number of operations, as it is when a transaction is built, nothing is rounded. -/

variable {inner : Signed Transaction} {fee : Int64}

/-- The fee of a bump with one operation more, at the exact rate of the transaction inside: what is paid
for so many operations is not less than what the transaction pays for one more. -/
def KeepsRate (tx : Transaction) (fee : Int64) : Prop :=
  ((tx.operations.length + 1) * tx.fee.toNat : Int) ≤ fee.toInt * tx.operations.length

/-! ## When a fee bump is built -/

/-- A bump is built if it pays the lowest fee, and not less than the transaction inside. -/
theorem exists_build_iff (feeSource : MuxedAccount) (hcount : inner.tx.operations.length ≠ 0) :
    (∃ bump, build feeSource fee inner = .ok bump)
      ↔ (minimum inner.tx : Int) ≤ fee.toInt ∧ (inner.tx.fee.toNat : Int) ≤ fee.toInt := by
  constructor
  · rintro ⟨bump, hbump⟩
    obtain ⟨-, hminimum, hinner, -⟩ := build_eq_ok.mp hbump
    exact ⟨hminimum, hinner⟩
  · rintro ⟨hminimum, hinner⟩
    exact ⟨_, build_eq_ok.mpr ⟨hcount, hminimum, hinner, rfl⟩⟩

/-- The base fee of all operations is not above the fee. -/
theorem length_mul_baseFee_le (tx : Transaction) :
    tx.operations.length * baseFee tx ≤ tx.fee.toNat :=
  Nat.mul_div_le _ _

/-- For one operation more the base fee may double the fee, if there is only one. -/
theorem minimum_le (tx : Transaction) : minimum tx ≤ 2 * tx.fee.toNat := by
  have hall := length_mul_baseFee_le tx
  have hone : baseFee tx ≤ tx.fee.toNat := Nat.div_le_self _ _
  rw [minimum, Nat.succ_mul]
  omega

/-- A fee at the exact rate is neither below the lowest fee nor below the fee inside. -/
theorem minimum_le_of_keepsRate {tx : Transaction} (hcount : tx.operations.length ≠ 0)
    (h : KeepsRate tx fee) : (minimum tx : Int) ≤ fee.toInt ∧ (tx.fee.toNat : Int) ≤ fee.toInt := by
  have hpos : (0 : Int) < tx.operations.length := by omega
  have hall : (tx.operations.length * baseFee tx : Int) ≤ tx.fee.toNat := by
    exact_mod_cast length_mul_baseFee_le tx
  unfold KeepsRate at h
  constructor
  -- compare both fees as paid for each operation
  · have hscaled : (minimum tx : Int) * tx.operations.length ≤ fee.toInt * tx.operations.length := by
      calc (minimum tx : Int) * tx.operations.length
          = (tx.operations.length + 1) * (tx.operations.length * baseFee tx) := by
            rw [minimum]
            push_cast
            ring
        _ ≤ (tx.operations.length + 1) * tx.fee.toNat :=
            Int.mul_le_mul_of_nonneg_left hall (by omega)
        _ ≤ fee.toInt * tx.operations.length := h
    exact Int.le_of_mul_le_mul_right hscaled hpos
  · have hscaled : (tx.fee.toNat : Int) * tx.operations.length ≤ fee.toInt * tx.operations.length := by
      calc (tx.fee.toNat : Int) * tx.operations.length
          ≤ (tx.operations.length + 1) * tx.fee.toNat := by
            rw [Int.add_mul, Int.mul_comm]
            omega
        _ ≤ fee.toInt * tx.operations.length := h
    exact Int.le_of_mul_le_mul_right hscaled hpos

/-- Where nothing is rounded the lowest fee is at the exact rate. -/
theorem keepsRate_of_dvd {tx : Transaction} (hdvd : tx.operations.length ∣ tx.fee.toNat)
    (h : (minimum tx : Int) ≤ fee.toInt) : KeepsRate tx fee := by
  have hall : (tx.operations.length * baseFee tx : Int) = tx.fee.toNat := by
    exact_mod_cast Nat.mul_div_cancel' hdvd
  unfold KeepsRate
  calc ((tx.operations.length + 1) * tx.fee.toNat : Int)
      = minimum tx * tx.operations.length := by
        rw [← hall, minimum]
        push_cast
        ring
    _ ≤ fee.toInt * tx.operations.length := Int.mul_le_mul_of_nonneg_right h (by omega)

/-- What rounding takes off is less than one for each operation that is paid for. -/
theorem rate_lt_of_minimum_le {tx : Transaction} (hcount : tx.operations.length ≠ 0)
    (h : (minimum tx : Int) ≤ fee.toInt) :
    ((tx.operations.length + 1) * tx.fee.toNat : Int)
      < (fee.toInt + (tx.operations.length + 1)) * tx.operations.length := by
  have hnext : (tx.fee.toNat : Int) < tx.operations.length * (baseFee tx + 1) := by
    exact_mod_cast Nat.lt_mul_div_succ _ (Nat.pos_of_ne_zero hcount)
  calc ((tx.operations.length + 1) * tx.fee.toNat : Int)
      < (tx.operations.length + 1) * (tx.operations.length * (baseFee tx + 1)) :=
        Int.mul_lt_mul_of_pos_left hnext (by omega)
    _ = (minimum tx + (tx.operations.length + 1)) * tx.operations.length := by
        rw [minimum]
        push_cast
        ring
    _ ≤ (fee.toInt + (tx.operations.length + 1)) * tx.operations.length :=
        Int.mul_le_mul_of_nonneg_right (by omega) (by omega)

/-! ## In words of 64 bits -/

/-- A number as a signed word, if it is one. -/
def word? (n : Int) : Option Int64 :=
  if -2 ^ 63 ≤ n ∧ n < 2 ^ 63 then some (Int64.ofInt n) else none

/-- The lowest fee, worked out in signed words step by step, as long as none of them overflows. -/
def minimumWord? (tx : Transaction) : Option Int64 := do
  let count ← word? tx.operations.length
  let rate ← word? (Int.tdiv tx.fee.toNat count.toInt)
  let more ← word? (count.toInt + 1)
  word? (more.toInt * rate.toInt)

theorem exists_word {n : Int} (hlow : 0 ≤ n) (hhigh : n < 2 ^ 63) :
    ∃ word, word? n = some word ∧ word.toInt = n := by
  refine ⟨Int64.ofInt n, if_pos ⟨by omega, hhigh⟩, ?_⟩
  exact Int64.toInt_ofInt_of_le (by omega) hhigh

/-- No step overflows, for as many operations as a list in memory can hold. -/
theorem exists_minimumWord {tx : Transaction} (hcount : tx.operations.length + 1 < 2 ^ 63) :
    ∃ word, minimumWord? tx = some word ∧ word.toInt = minimum tx := by
  have hfee := tx.fee.toNat_lt
  have hrate : baseFee tx ≤ tx.fee.toNat := Nat.div_le_self _ _
  have hminimum := minimum_le tx
  obtain ⟨count, hcountWord, hcountInt⟩ :=
    exists_word (n := tx.operations.length) (by omega) (by omega)
  -- the fee is not negative, so division is that of natural numbers
  have hdiv : Int.tdiv tx.fee.toNat count.toInt = baseFee tx := by
    rw [hcountInt]
    exact (Int.ofNat_tdiv _ _).symm
  obtain ⟨rate, hrateWord, hrateInt⟩ := exists_word (n := baseFee tx) (by omega) (by omega)
  obtain ⟨more, hmoreWord, hmoreInt⟩ :=
    exists_word (n := tx.operations.length + 1) (by omega) (by omega)
  have hproduct : more.toInt * rate.toInt = minimum tx := by
    rw [hmoreInt, hrateInt, minimum]
    push_cast
    ring
  obtain ⟨word, hword, hwordInt⟩ := exists_word (n := minimum tx) (by omega) (by omega)
  refine ⟨word, ?_, hwordInt⟩
  -- no step fails, so each gives the number that it stands for
  unfold minimumWord?
  rw [hcountWord]
  dsimp only [bind, Option.bind]
  rw [hdiv, hrateWord]
  dsimp only [bind, Option.bind]
  rw [hcountInt, hmoreWord]
  dsimp only [bind, Option.bind]
  rw [hproduct, hword]

/-! ## The rate of a fee bump -/

/-- A fee bump is built exactly if it pays the base fee, which is rounded down, for one operation more,
and not less than the transaction inside.  A fee at the exact rate always does, the two are the same where
nothing is rounded, and never is one stroop missing for each operation.  Nothing overflows. -/
theorem built_iff_pays_base_fee (inner : Signed Transaction)
    (hcount : inner.tx.operations.length ≠ 0) :
    (∀ feeSource (fee : Int64), (∃ bump, build feeSource fee inner = .ok bump)
        ↔ ((inner.tx.operations.length + 1) * (inner.tx.fee.toNat / inner.tx.operations.length) : Int)
            ≤ fee.toInt
          ∧ (inner.tx.fee.toNat : Int) ≤ fee.toInt)
      ∧ (∀ feeSource fee, KeepsRate inner.tx fee → ∃ bump, build feeSource fee inner = .ok bump)
      ∧ (inner.tx.operations.length ∣ inner.tx.fee.toNat → ∀ feeSource fee,
          (∃ bump, build feeSource fee inner = .ok bump) ↔ KeepsRate inner.tx fee)
      ∧ (∀ feeSource (fee : Int64) bump, build feeSource fee inner = .ok bump →
          ((inner.tx.operations.length + 1) * inner.tx.fee.toNat : Int)
            < (fee.toInt + (inner.tx.operations.length + 1)) * inner.tx.operations.length)
      ∧ (inner.tx.operations.length + 1 < 2 ^ 63 →
          ∃ word, minimumWord? inner.tx = some word
            ∧ word.toInt = (inner.tx.operations.length + 1)
                * (inner.tx.fee.toNat / inner.tx.operations.length)) := by
  have hminimum : (minimum inner.tx : Int)
      = (inner.tx.operations.length + 1) * (inner.tx.fee.toNat / inner.tx.operations.length) := by
    rw [minimum, baseFee]
    push_cast
    rfl
  refine ⟨?_, ?_, ?_, ?_, ?_⟩
  · intro feeSource fee
    rw [← hminimum]
    exact exists_build_iff feeSource hcount
  -- the rounded rate is never above the exact one
  · intro feeSource fee hrate
    exact (exists_build_iff feeSource hcount).mpr (minimum_le_of_keepsRate hcount hrate)
  -- where nothing is rounded off, both are the same
  · intro hdvd feeSource fee
    constructor
    · intro hbuilt
      exact keepsRate_of_dvd hdvd ((exists_build_iff feeSource hcount).mp hbuilt).1
    · intro hrate
      exact (exists_build_iff feeSource hcount).mpr (minimum_le_of_keepsRate hcount hrate)
  -- rounding loses less than one stroop for each operation
  · intro feeSource fee bump hbump
    exact rate_lt_of_minimum_le hcount ((exists_build_iff feeSource hcount).mp ⟨bump, hbump⟩).1
  -- the computation in words of 64 bits gives the same number
  · intro hlength
    rw [← hminimum]
    exact exists_minimumWord hlength

/-- Three operations, once for five stroops and once for three hundred. -/
theorem built_iff_pays_base_fee_of_three :
    let account : MuxedAccount := .plain ⟨List.replicate 32 3, rfl⟩
    let tx : UInt32 → Transaction := fun fee =>
      ⟨account, fee, 1, .none, .none, List.replicate 3 (.ofBody .inflation), none⟩
    (∀ feeSource (fee : Int64), (∃ bump, build feeSource fee (.unsigned (tx 5)) = .ok bump)
        ↔ 4 ≤ fee.toInt ∧ 5 ≤ fee.toInt)
      ∧ (∃ word, minimumWord? (tx 5) = some word ∧ word.toInt = 4)
      ∧ ∀ feeSource fee, (∃ bump, build feeSource fee (.unsigned (tx 300)) = .ok bump)
        ↔ KeepsRate (tx 300) fee := by
  intro account tx
  have hcount : ∀ fee, (Signed.unsigned (tx fee)).tx.operations.length ≠ 0 := by
    intro fee
    exact Nat.succ_ne_zero 2
  have hrounded := built_iff_pays_base_fee (.unsigned (tx 5)) (hcount 5)
  have hexact := built_iff_pays_base_fee (.unsigned (tx 300)) (hcount 300)
  -- one stroop each for four operations, since five stroops for three are rounded to one
  have hminimum : ((3 : Nat) + 1 : Int) * ((5 : Nat) / (3 : Nat)) = 4 := by decide
  refine ⟨?_, ?_, ?_⟩
  · intro feeSource fee
    have hbuilt := hrounded.1 feeSource fee
    exact hminimum ▸ hbuilt
  · obtain ⟨word, hword, hwordInt⟩ := hrounded.2.2.2.2 (by decide)
    exact ⟨word, hword, hwordInt.trans hminimum⟩
  · exact hexact.2.2.1 (by decide)

/-- Three operations for five stroops are bumped for five, although at the exact rate four operations cost
more than six. -/
theorem built_below_exact_rate :
    let account : MuxedAccount := .plain ⟨List.replicate 32 3, rfl⟩
    let tx : Transaction :=
      ⟨account, 5, 1, .none, .none, List.replicate 3 (.ofBody .inflation), none⟩
    (∃ bump, build account 5 (.unsigned tx) = .ok bump) ∧ ¬KeepsRate tx 5 := by
  intro account tx
  constructor
  · refine ⟨{ feeSource := account, fee := 5, inner := .unsigned tx, ext := .v0 }, ?_⟩
    exact build_eq_ok.mpr ⟨by decide, by decide, by decide, rfl⟩
  · unfold KeepsRate
    decide

end LedgerTx.FeeBump
