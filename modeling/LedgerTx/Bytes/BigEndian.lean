namespace LedgerTx.BigEndian

/-! # Numbers as big-endian bytes

The most significant byte comes first.  `toNat_ofNat` says that a number is read back from its bytes
modulo what the width can hold. -/

/-- The lowest `width` bytes of a number. -/
def ofNat : (width : Nat) → Nat → List UInt8
  | 0, _ => []
  | width + 1, n => ofNat width (n / 256) ++ [UInt8.ofNat n]

/-- The number that the bytes spell. -/
def toNat (bytes : List UInt8) : Nat :=
  bytes.foldl (fun acc b => acc * 256 + b.toNat) 0

@[simp]
theorem length_ofNat (width n : Nat) : (ofNat width n).length = width := by
  induction width generalizing n with
  | zero => rfl
  | succ w ih => rw [ofNat, List.length_append, ih, List.length_singleton]

/-- The last byte counts once, those before it count 256 times. -/
theorem toNat_append_singleton (bytes : List UInt8) (b : UInt8) :
    toNat (bytes ++ [b]) = toNat bytes * 256 + b.toNat := by
  rw [toNat, List.foldl_append, List.foldl_cons, List.foldl_nil, toNat]

/-- Writing a number and reading it back keeps it modulo the power of 256 that the width says. -/
theorem toNat_ofNat (width n : Nat) : toNat (ofNat width n) = n % Nat.pow 256 width := by
  induction width generalizing n with
  | zero => exact (Nat.mod_one n).symm
  | succ w ih =>
    have step : n % (256 * Nat.pow 256 w) = n % 256 + 256 * (n / 256 % Nat.pow 256 w) :=
      Nat.mod_mul
    have power : Nat.pow 256 (w + 1) = 256 * Nat.pow 256 w := Nat.mul_comm _ _
    rw [ofNat, toNat_append_singleton, ih, UInt8.toNat_ofNat', power, step]
    omega

end LedgerTx.BigEndian
