import LedgerTx.Strkey.Checksum
import LedgerTx.Proofs.Strkey.Base32

namespace LedgerTx.Checksum

/-! # What checksums tell apart

The checksum is linear, so the checksums of two strings of the same length differ by the checksum of their
difference.  Said of bits, a difference within a window of ten is never missed, although the checksum
stands low byte first, so that a window at its edge is no burst in the order of the polynomial. -/

/-! ## Shifts -/

/-- The mask picks the highest bit. -/
theorem and_top_ne_zero_iff (crc : UInt16) : crc &&& 0x8000 ≠ 0 ↔ crc.toBitVec.msb = true := by
  have hand : (crc &&& 0x8000).toBitVec = crc.toBitVec &&& BitVec.twoPow 16 15 := rfl
  have hmsb : crc.toBitVec.msb = crc.toBitVec.getLsbD 15 := rfl
  rw [Ne, ← UInt16.toBitVec_inj, hand, BitVec.and_twoPow, hmsb]
  cases crc.toBitVec.getLsbD 15 <;> decide

/-- A shift takes the polynomial off where the highest bit leaves. -/
theorem toBitVec_shift (crc : UInt16) :
    (shift crc).toBitVec
      = if crc.toBitVec.msb then crc.toBitVec <<< 1 ^^^ 0x1021#16 else crc.toBitVec <<< 1 := by
  unfold shift
  by_cases h : crc.toBitVec.msb = true
  · rw [if_pos ((and_top_ne_zero_iff crc).mpr h), if_pos h]
    rfl
  · rw [if_neg fun htop => h ((and_top_ne_zero_iff crc).mp htop), if_neg h]
    rfl

/-- Shifts are linear. -/
theorem shift_xor (a b : UInt16) : shift (a ^^^ b) = shift a ^^^ shift b := by
  apply UInt16.toBitVec_inj.mp
  simp only [UInt16.toBitVec_xor, toBitVec_shift, BitVec.msb_xor, BitVec.shiftLeft_xor_distrib]
  cases a.toBitVec.msb with
  | false =>
    cases b.toBitVec.msb with
    | false => rfl
    | true => exact BitVec.xor_assoc ..
  | true =>
    cases b.toBitVec.msb with
    | false =>
      show a.toBitVec <<< 1 ^^^ b.toBitVec <<< 1 ^^^ 0x1021#16
        = a.toBitVec <<< 1 ^^^ 0x1021#16 ^^^ b.toBitVec <<< 1
      ac_rfl
    | true =>
      -- the polynomial is taken off twice
      show a.toBitVec <<< 1 ^^^ b.toBitVec <<< 1
        = (a.toBitVec <<< 1 ^^^ 0x1021#16) ^^^ (b.toBitVec <<< 1 ^^^ 0x1021#16)
      rw [BitVec.xor_comm (b.toBitVec <<< 1), BitVec.xor_assoc, ← BitVec.xor_assoc 0x1021#16,
        BitVec.xor_self, BitVec.zero_xor]

/-- The polynomial ends in one, so nothing is lost by a shift. -/
theorem eq_zero_of_shift_eq_zero {crc : UInt16} (h : shift crc = 0) : crc = 0 := by
  apply UInt16.toBitVec_inj.mp
  have hshift := congrArg UInt16.toBitVec h
  rw [toBitVec_shift] at hshift
  by_cases hmsb : crc.toBitVec.msb = true
  · rw [if_pos hmsb] at hshift
    have hlow := congrArg (fun v : BitVec 16 => v.getLsbD 0) hshift
    simp at hlow
  · rw [if_neg hmsb] at hshift
    apply BitVec.eq_of_getLsbD_eq
    intro i hi
    -- the highest bit is zero as no polynomial was taken off
    by_cases hlast : i = 15
    · subst hlast
      have htop : crc.toBitVec.msb = crc.toBitVec.getLsbD 15 := rfl
      rw [← htop]
      simpa using hmsb
    · have hbit := congrArg (fun v : BitVec 16 => v.getLsbD (i + 1)) hshift
      simp at hbit
      simpa using hbit (by omega)

/-- Any number of shifts keeps a checksum that is not zero from becoming zero. -/
theorem eq_zero_of_repeat_shift {crc : UInt16} {n : Nat} (h : Nat.repeat shift n crc = 0) : crc = 0 := by
  induction n with
  | zero => exact h
  | succ n ih => exact ih (eq_zero_of_shift_eq_zero h)

/-! ## Bit by bit -/

/-- Takes one bit into the checksum. -/
def step (crc : UInt16) (b : Bool) : UInt16 :=
  shift (crc ^^^ if b then 0x8000 else 0)

/-- Takes bits into the checksum, one after the other. -/
def run (crc : UInt16) (bits : List Bool) : UInt16 :=
  bits.foldl step crc

/-- Bits are taken in from left to right. -/
theorem run_append (crc : UInt16) (bits more : List Bool) :
    run crc (bits ++ more) = run (run crc bits) more :=
  List.foldl_append

/-- One step is linear in the checksum and in the bit. -/
theorem step_xor (a b : UInt16) (x y : Bool) :
    step (a ^^^ b) (xor x y) = step a x ^^^ step b y := by
  have hbit : (if xor x y then (0x8000 : UInt16) else 0)
      = (if x then 0x8000 else 0) ^^^ if y then 0x8000 else 0 := by
    cases x <;> cases y <;> rfl
  unfold step
  rw [hbit, ← shift_xor]
  congr 1
  ac_rfl

/-- The checksum is linear. -/
theorem run_diff (a b : UInt16) {bits other : List Bool} (h : bits.length = other.length) :
    run (a ^^^ b) (Bits.diff bits other) = run a bits ^^^ run b other := by
  induction bits generalizing a b other with
  | nil =>
    obtain rfl := List.eq_nil_of_length_eq_zero h.symm
    rfl
  | cons x bits ih =>
    cases other with
    | nil => cases h
    | cons y other =>
      have hstep := ih (step a x) (step b y) (Nat.succ.inj h)
      rw [← step_xor] at hstep
      exact hstep

/-- Zeros only shift. -/
theorem run_replicate_false (crc : UInt16) (n : Nat) :
    run crc (List.replicate n false) = Nat.repeat shift n crc := by
  induction n with
  | zero => rfl
  | succ n ih =>
    have hstep : step (Nat.repeat shift n crc) false = shift (Nat.repeat shift n crc) := by
      simp [step]
    rw [List.replicate_succ', run_append, ih]
    exact hstep

/-- Zeros do not change a checksum of zero. -/
theorem run_zero_replicate_false (n : Nat) : run 0 (List.replicate n false) = 0 := by
  rw [run_replicate_false]
  induction n with
  | zero => rfl
  | succ n ih =>
    rw [Nat.repeat, ih]
    rfl

/-- For a byte at the upper end of the word, eight shifts do what its bits do one by one. -/
theorem run_shifted_byte : ∀ n < 256,
    run (UInt16.ofNat n <<< 8) (List.replicate 8 false) = run 0 (Bits.ofNat 8 n) := by
  decide +kernel

/-- A byte is taken in at once as its bits are one after the other. -/
theorem update_eq_run (crc : UInt16) (b : UInt8) : update crc b = run crc (Bits.ofNat 8 b.toNat) := by
  have hword : b.toUInt16 = UInt16.ofNat b.toNat := by simp
  have hlength : (List.replicate 8 false).length = (Bits.ofNat 8 b.toNat).length := by simp
  have hbits : Bits.diff (List.replicate 8 false) (Bits.ofNat 8 b.toNat) = Bits.ofNat 8 b.toNat := by
    rw [← Bits.ofNat_zero, Bits.diff_ofNat, Nat.zero_xor]
  have hbyte := run_diff crc 0 hlength
  have hshifted := run_diff crc (b.toUInt16 <<< 8) (rfl : (List.replicate 8 false).length = _)
  -- the checksum and the byte are shifted each on its own
  rw [hbits, UInt16.xor_zero] at hbyte
  rw [Bits.diff_self, List.length_replicate, hword, run_shifted_byte _ b.toNat_lt] at hshifted
  unfold update
  rw [← run_replicate_false, hbyte, hword, hshifted]

/-- Bytes are taken in as their bits are. -/
theorem foldl_update_eq_run (crc : UInt16) (bytes : List UInt8) :
    bytes.foldl update crc = run crc (Base32.bitsOf bytes) := by
  induction bytes generalizing crc with
  | nil => rfl
  | cons b bytes ih =>
    rw [List.foldl_cons, ih, Base32.bitsOf_cons, run_append, update_eq_run]

/-- The checksum of bytes is that of their bits. -/
theorem crc_eq_run (bytes : List UInt8) : crc bytes = run 0 (Base32.bitsOf bytes) :=
  foldl_update_eq_run 0 bytes

/-! ## Bursts -/

/-- Bits that lead to zero are all that was in the checksum before them. -/
theorem getLsbD_of_run_eq_zero {crc : UInt16} {bits : List Bool} (h : run crc bits = 0) :
    ∀ i, i + bits.length < 16 → crc.toBitVec.getLsbD i = false := by
  induction bits generalizing crc with
  | nil =>
    intro i _
    have hzero : crc = 0 := h
    rw [hzero]
    exact BitVec.getLsbD_zero
  | cons b bits ih =>
    intro i hi
    rw [List.length_cons] at hi
    have hafter := ih h
    -- with feedback the lowest bit would be one now
    have hmsb : (crc ^^^ if b then 0x8000 else 0).toBitVec.msb = false := by
      by_contra hset
      have hlow := hafter 0 (by omega)
      rw [Bool.not_eq_false] at hset
      rw [step, toBitVec_shift, if_pos hset] at hlow
      simp at hlow
    have hinput : (if b then (0x8000 : UInt16) else 0).toBitVec.getLsbD i = false := by
      have htop : (0x8000 : UInt16).toBitVec = BitVec.twoPow 16 15 := rfl
      cases b with
      | false => exact BitVec.getLsbD_zero
      | true =>
        rw [if_pos rfl, htop, BitVec.getLsbD_twoPow]
        simp
        omega
    have hnext := hafter (i + 1) (by omega)
    rw [step, toBitVec_shift, hmsb, if_neg Bool.false_ne_true, BitVec.getLsbD_shiftLeft,
      UInt16.toBitVec_xor, BitVec.getLsbD_xor, Nat.add_sub_cancel, hinput, Bool.xor_false] at hnext
    have hwidth : i + 1 < 16 := by omega
    simpa [hwidth] using hnext

/-- A burst of at most sixteen bits changes the checksum. -/
theorem run_burst_ne_zero {bits : List Bool} (h : bits.length < 16) : run 0 (true :: bits) ≠ 0 := by
  intro hzero
  -- the first one leaves the polynomial, of which the lowest bit is one
  have hfirst : run 0 (true :: bits) = run 0x1021 bits := rfl
  rw [hfirst] at hzero
  have hlow := getLsbD_of_run_eq_zero hzero 0 (by omega)
  cases hlow

/-! ## The checksum among the bits -/

/-- The bits of a checksum as it stands in a strkey. -/
def bitsOf (sum : UInt16) : List Bool :=
  Bits.ofNat 8 sum.toUInt8.toNat ++ Bits.ofNat 8 (sum >>> 8).toUInt8.toNat

/-- The two bytes of a checksum hold its bits, those of the low byte first. -/
theorem bitsOf_bytesOf (bytes : List UInt8) : Base32.bitsOf (bytesOf bytes) = bitsOf (crc bytes) := by
  have hpair : Base32.bitsOf (bytesOf bytes) = Bits.ofNat 8 (crc bytes).toUInt8.toNat
      ++ (Bits.ofNat 8 (crc bytes >>> 8).toUInt8.toNat ++ []) := rfl
  rw [hpair, List.append_nil]
  rfl

/-- Checksums differ in the bits of their difference. -/
theorem diff_bitsOf (a b : UInt16) : Bits.diff (bitsOf a) (bitsOf b) = bitsOf (a ^^^ b) := by
  have hlow : (a ^^^ b).toUInt8.toNat = a.toUInt8.toNat ^^^ b.toUInt8.toNat := by
    rw [UInt16.toUInt8_xor, UInt8.toNat_xor]
  have hshift : (a ^^^ b) >>> 8 = (a >>> 8) ^^^ (b >>> 8) := by
    apply UInt16.toBitVec_inj.mp
    exact BitVec.ushiftRight_xor_distrib ..
  have hhigh : ((a ^^^ b) >>> 8).toUInt8.toNat
      = (a >>> 8).toUInt8.toNat ^^^ (b >>> 8).toUInt8.toNat := by
    rw [hshift, UInt16.toUInt8_xor, UInt8.toNat_xor]
  unfold bitsOf
  rw [Bits.diff_append (by simp), Bits.diff_ofNat, Bits.diff_ofNat, hlow, hhigh]

/-- A checksum without ones is zero. -/
theorem eq_zero_of_bitsOf {sum : UInt16} (h : ∀ b ∈ bitsOf sum, b = false) : sum = 0 := by
  have hbyte : ∀ n : Nat, (∀ b ∈ Bits.ofNat 8 n, b = false) → n % 256 = 0 := by
    intro n hn
    have hzeros := List.eq_replicate_iff.mpr ⟨Bits.length_ofNat 8 n, hn⟩
    have hnumber := Bits.toNat_ofNat 8 n
    rw [hzeros] at hnumber
    exact hnumber.symm
  -- both bytes are zero
  rcases List.forall_mem_append.mp h with ⟨hlow, hhigh⟩
  replace hlow := hbyte _ hlow
  replace hhigh := hbyte _ hhigh
  have hlt := sum.toNat_lt
  apply UInt16.toNat_inj.mp
  rw [UInt16.toNat_toUInt8] at hlow hhigh
  rw [UInt16.toNat_shiftRight, Nat.shiftRight_eq_div_pow] at hhigh
  simp at hlow hhigh ⊢
  omega

/-- Where a burst of ten bits begins among the last nine before the checksum, the checksum of what it
changes there never is the rest of the burst. -/
theorem bitsOf_run_straddling : ∀ n < 9, ∀ v < 2 ^ n,
    ¬∀ b ∈ (bitsOf (run 0 (true :: Bits.ofNat n v))).drop (9 - n), b = false := by
  decide +kernel

/-- Bits with their checksum are zeros, if all ones are within a window of ten. -/
theorem false_of_window {body window : List Bool} {front back zeros : Nat}
    (h : body ++ (bitsOf (run 0 body) ++ List.replicate zeros false)
      = List.replicate front false ++ (window ++ List.replicate back false))
    (hwidth : window.length ≤ 10) : ∀ b ∈ body ++ bitsOf (run 0 body), b = false := by
  rcases Bits.exists_first_one body with hnone | ⟨first, rest, rfl⟩
  · -- nothing is changed but perhaps the checksum, which must be that of zeros
    have hsum : run 0 body = 0 := by
      rw [List.eq_replicate_iff.mpr ⟨rfl, hnone⟩, run_zero_replicate_false]
    rw [hsum]
    exact List.forall_mem_append.mpr ⟨hnone, by decide⟩
  · exfalso
    have hrun : run 0 (List.replicate first false ++ true :: rest) = run 0 (true :: rest) := by
      rw [run_append, run_zero_replicate_false]
    rw [hrun, List.append_assoc, List.cons_append] at h
    have hafter := Bits.drop_false_of_window h hwidth
    by_cases hshort : rest.length < 9
    · -- the window may reach into the checksum
      rw [List.drop_append, List.drop_eq_nil_of_le (by omega), List.nil_append,
        List.drop_append] at hafter
      have hsum := (List.forall_mem_append.mp hafter).1
      have hnever := bitsOf_run_straddling rest.length hshort (Bits.toNat rest) (Bits.toNat_lt rest)
      rw [Bits.ofNat_toNat] at hnever
      exact hnever hsum
    · -- the window ends before the checksum
      rw [List.drop_append_of_le_length (by omega)] at hafter
      rcases List.forall_mem_append.mp hafter with ⟨hrest, hmore⟩
      have hsum := eq_zero_of_bitsOf (List.forall_mem_append.mp hmore).1
      have hsplit : true :: rest
          = (true :: rest.take 9) ++ List.replicate (rest.drop 9).length false := by
        rw [← List.eq_replicate_iff.mpr ⟨rfl, hrest⟩, List.cons_append, List.take_append_drop]
      rw [hsplit, run_append, run_replicate_false] at hsum
      have hburst : (rest.take 9).length < 16 := by
        rw [List.length_take]
        omega
      exact run_burst_ne_zero hburst (eq_zero_of_repeat_shift hsum)

end LedgerTx.Checksum
