namespace LedgerTx

/-! # Byte strings of a fixed size -/

/-- A byte string of exactly `n` bytes. -/
structure FixedBytes (n : Nat) where
  toList : List UInt8
  length_toList : toList.length = n
deriving DecidableEq

/-- A 256-bit hash or key. -/
abbrev Bytes32 := FixedBytes 32

namespace FixedBytes

variable {n : Nat}

/-- The bytes as a fixed-size string, if there are exactly `n` of them. -/
def ofList? (bytes : List UInt8) : Option (FixedBytes n) :=
  if h : bytes.length = n then some ⟨bytes, h⟩ else none

/-- The first `n` bytes, filled up with zeros when there are fewer. -/
def ofListPadded (n : Nat) (bytes : List UInt8) : FixedBytes n :=
  ⟨(bytes ++ List.replicate n 0).take n, by simp⟩

/-- The last `k` of the bytes. -/
def last (bytes : FixedBytes n) (k : Nat) (h : k ≤ n) : FixedBytes k :=
  ⟨bytes.toList.drop (n - k), by simp [bytes.length_toList]; omega⟩

/-- The exclusive or of two byte strings, byte by byte. -/
def xor (a b : FixedBytes n) : FixedBytes n :=
  ⟨List.zipWith (· ^^^ ·) a.toList b.toList, by simp [a.length_toList, b.length_toList]⟩

@[ext]
theorem ext {a b : FixedBytes n} (h : a.toList = b.toList) : a = b := by
  cases a; cases b; cases h; rfl

@[simp]
theorem ofList?_toList (a : FixedBytes n) : ofList? a.toList = some a := by
  simp [ofList?, a.length_toList]

end FixedBytes

end LedgerTx
