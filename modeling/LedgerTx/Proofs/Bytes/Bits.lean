import Mathlib.Algebra.Group.Nat.Defs
import Mathlib.Data.List.Basic

namespace LedgerTx.Bits

/-! # Numbers as bits

Bits stand highest first. -/

/-- The lowest `width` bits of a number. -/
def ofNat : (width : Nat) → Nat → List Bool
  | 0, _ => []
  | width + 1, n => n.testBit width :: ofNat width n

/-- The number that bits spell. -/
def toNat : List Bool → Nat
  | [] => 0
  | b :: bits => b.toNat * 2 ^ bits.length + toNat bits

@[simp]
theorem length_ofNat (width n : Nat) : (ofNat width n).length = width := by
  induction width with
  | zero => rfl
  | succ w ih => rw [ofNat, List.length_cons, ih]

/-- As many bits spell no larger number. -/
theorem toNat_lt (bits : List Bool) : toNat bits < 2 ^ bits.length := by
  induction bits with
  | nil => exact Nat.one_pos
  | cons b bits ih =>
    have hb : b.toNat ≤ 1 := Bool.toNat_le b
    -- the highest bit adds as much as all the others can at most, and one
    have hmul : b.toNat * 2 ^ bits.length ≤ 2 ^ bits.length := by
      simpa using Nat.mul_le_mul_right (2 ^ bits.length) hb
    rw [toNat, List.length_cons, Nat.pow_succ]
    omega

/-- Only the lowest bits count. -/
theorem ofNat_congr {width n m : Nat} (h : ∀ i < width, n.testBit i = m.testBit i) :
    ofNat width n = ofNat width m := by
  induction width with
  | zero => rfl
  | succ w ih =>
    have hhead := h w (Nat.lt_succ_self w)
    have htail := ih fun i hi => h i (Nat.lt_succ_of_lt hi)
    rw [ofNat, ofNat, hhead, htail]

/-- What stands above the width makes no difference. -/
theorem ofNat_mod_two_pow (width n : Nat) : ofNat width (n % 2 ^ width) = ofNat width n := by
  refine ofNat_congr fun i hi => ?_
  rw [Nat.testBit_mod_two_pow, decide_eq_true hi, Bool.true_and]

theorem ofNat_zero (width : Nat) : ofNat width 0 = List.replicate width false := by
  induction width with
  | zero => rfl
  | succ w ih => rw [ofNat, ih, Nat.zero_testBit, List.replicate_succ]

/-- The bits of a number are those of its upper part and then those of its lower part. -/
theorem ofNat_add (high low n : Nat) :
    ofNat (high + low) n = ofNat high (n >>> low) ++ ofNat low n := by
  induction high with
  | zero =>
    rw [Nat.zero_add]
    rfl
  | succ h ih =>
    have hbit : (n >>> low).testBit h = n.testBit (h + low) := by
      rw [Nat.testBit_shiftRight, Nat.add_comm]
    rw [Nat.succ_add, ofNat, ih, ofNat, hbit]
    rfl

/-- A number is read back from its bits, as far as the width goes. -/
theorem toNat_ofNat (width n : Nat) : toNat (ofNat width n) = n % 2 ^ width := by
  induction width with
  | zero => exact (Nat.mod_one n).symm
  | succ w ih =>
    rw [ofNat, toNat, ih, length_ofNat, Nat.mod_pow_succ, Nat.toNat_testBit, Nat.add_comm,
      Nat.mul_comm]

/-- Bits are read back from the number that they spell. -/
theorem ofNat_toNat (bits : List Bool) : ofNat bits.length (toNat bits) = bits := by
  induction bits with
  | nil => rfl
  | cons b bits ih =>
    -- the highest bit stands alone above the number that the others spell
    have hlt := toNat_lt bits
    have hlow : (b.toNat * 2 ^ bits.length + toNat bits) % 2 ^ bits.length = toNat bits := by
      rw [Nat.add_comm, Nat.add_mul_mod_self_right, Nat.mod_eq_of_lt hlt]
    have hhead : (b.toNat * 2 ^ bits.length + toNat bits).testBit bits.length = b := by
      rw [Nat.testBit_eq_decide_div_mod_eq, Nat.add_comm,
        Nat.add_mul_div_right _ _ (Nat.two_pow_pos _), Nat.div_eq_of_lt hlt]
      cases b <;> rfl
    rw [List.length_cons, toNat, ofNat, hhead, ← ofNat_mod_two_pow, hlow, ih]

/-! ## Differences -/

/-- Where two words of bits of the same length differ. -/
def diff (bits other : List Bool) : List Bool :=
  List.zipWith xor bits other

theorem length_diff {bits other : List Bool} (h : bits.length = other.length) :
    (diff bits other).length = bits.length := by
  simp [diff, h]

/-- A word differs nowhere from itself. -/
theorem diff_self (bits : List Bool) : diff bits bits = List.replicate bits.length false := by
  induction bits with
  | nil => rfl
  | cons b bits ih =>
    have hcons : diff (b :: bits) (b :: bits) = xor b b :: diff bits bits := rfl
    rw [hcons, ih, Bool.xor_self]
    rfl

theorem diff_append {bits other : List Bool} (h : bits.length = other.length)
    (more rest : List Bool) :
    diff (bits ++ more) (other ++ rest) = diff bits other ++ diff more rest :=
  List.zipWith_append h

/-- Words that differ nowhere are the same. -/
theorem eq_of_diff {bits other : List Bool} (h : bits.length = other.length)
    (hdiff : ∀ b ∈ diff bits other, b = false) : bits = other := by
  induction bits generalizing other with
  | nil => exact (List.eq_nil_of_length_eq_zero h.symm).symm
  | cons b bits ih =>
    cases other with
    | nil => cases h
    | cons c other =>
      have hcons : diff (b :: bits) (c :: other) = xor b c :: diff bits other := rfl
      rw [hcons, List.forall_mem_cons] at hdiff
      have hhead : b = c := by simpa using hdiff.1
      rw [hhead, ih (Nat.succ.inj h) hdiff.2]

/-- Two numbers differ at the bits of their exclusive or. -/
theorem diff_ofNat (width n m : Nat) :
    diff (ofNat width n) (ofNat width m) = ofNat width (n ^^^ m) := by
  induction width with
  | zero => rfl
  | succ w ih =>
    have hcons : diff (ofNat (w + 1) n) (ofNat (w + 1) m)
        = xor (n.testBit w) (m.testBit w) :: diff (ofNat w n) (ofNat w m) := rfl
    rw [hcons, ih, ofNat, Nat.testBit_xor]

/-- A word is zeros, or begins with zeros before a one. -/
theorem exists_first_one (bits : List Bool) :
    (∀ b ∈ bits, b = false) ∨ ∃ zeros rest, bits = List.replicate zeros false ++ true :: rest := by
  induction bits with
  | nil => exact Or.inl fun b hb => absurd hb List.not_mem_nil
  | cons b bits ih =>
    cases b with
    | true => exact Or.inr ⟨0, bits, rfl⟩
    | false =>
      -- a zero in front adds to the zeros
      rcases ih with hnone | ⟨zeros, rest, rfl⟩
      · exact Or.inl (List.forall_mem_cons.mpr ⟨rfl, hnone⟩)
      · exact Or.inr ⟨zeros + 1, rest, rfl⟩

/-- In a word of which all ones are in a window, none stands further behind the first one than the window
is wide. -/
theorem drop_false_of_window {first front back width : Nat} {tail window : List Bool}
    (h : List.replicate first false ++ true :: tail
      = List.replicate front false ++ (window ++ List.replicate back false))
    (hwidth : window.length ≤ width + 1) : ∀ b ∈ tail.drop width, b = false := by
  -- the first one cannot stand before the window, where there are zeros only
  have hfirst : front ≤ first := by
    by_contra hlt
    have hone : (List.replicate first false ++ true :: tail)[first]? = some true := by simp
    have hzero : (List.replicate front false ++ (window ++ List.replicate back false))[first]?
        = some false := by
      rw [List.getElem?_append_left (by simp; omega), List.getElem?_replicate_of_lt (by omega)]
    rw [h, hzero] at hone
    cases hone
  intro b hb
  rcases List.mem_iff_getElem?.mp hb with ⟨j, hj⟩
  have hword : (List.replicate first false ++ true :: tail)[first + (width + j + 1)]? = some b := by
    rw [List.getElem?_append_right (by simp), List.length_replicate, Nat.add_sub_cancel_left,
      List.getElem?_cons_succ, ← List.getElem?_drop]
    exact hj
  -- so far back the window is over
  rw [h, List.getElem?_append_right (by simp; omega),
    List.getElem?_append_right (by simp; omega)] at hword
  exact List.eq_of_mem_replicate (List.mem_of_getElem? hword)

end LedgerTx.Bits
