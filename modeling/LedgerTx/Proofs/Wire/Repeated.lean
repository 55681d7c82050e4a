import LedgerTx.Proofs.Front
import LedgerTx.Proofs.Wire.Aligned

namespace LedgerTx

/-! # How often values are read

A list is read value by value, as many as its count says or until one fails.  Where every value takes four
bytes, what is left of the input bounds how often a value is read, whatever the count says. -/

namespace Decoder

variable {α : Type}

/-- Reads `count` values one after the other, and says how often a value was read or tried. -/
def repeatedCounted (decode : Decoder α) :
    (count : Nat) → List UInt8 → Nat × Except Failure (List α × List UInt8)
  | 0, bytes => (0, .ok ([], bytes))
  | count + 1, bytes =>
    match decode bytes with
    | .error failure => (1, .error failure)
    | .ok (item, bytes) =>
      let (reads, result) := repeatedCounted decode count bytes
      (reads + 1, do
        let (items, bytes) ← result
        return (item :: items, bytes))

variable {decode : Decoder α} {count : Nat} {bytes rest : List UInt8} {vs : List α}

/-- Counting changes nothing. -/
theorem repeatedCounted_snd (decode : Decoder α) (count : Nat) (bytes : List UInt8) :
    (repeatedCounted decode count bytes).2 = repeated decode count bytes := by
  induction count generalizing bytes with
  | zero => rfl
  | succ count ih =>
    unfold repeatedCounted repeated
    cases decode bytes with
    | error failure => rfl
    | ok r =>
      show ((repeatedCounted decode count r.2).2 >>= _) = (repeated decode count r.2 >>= _)
      rw [ih]

/-- The last read may fail, and each one before it took four bytes. -/
theorem repeatedCounted_fst_le (h : Takes 4 decode) (count : Nat) (bytes : List UInt8) :
    (repeatedCounted decode count bytes).1 ≤ bytes.length / 4 + 1 := by
  induction count generalizing bytes with
  | zero => exact Nat.zero_le _
  | succ count ih =>
    unfold repeatedCounted
    cases hread : decode bytes with
    | error failure => exact Nat.le_add_left 1 _
    | ok r =>
      obtain ⟨item, mid⟩ := r
      have hlength := (h hread).2
      have hmid := ih mid
      show (repeatedCounted decode count mid).1 + 1 ≤ bytes.length / 4 + 1
      omega

/-- Of the values that are read, each one took four bytes. -/
theorem count_le_of_repeated (h : Takes 4 decode) (hread : repeated decode count bytes = .ok (vs, rest)) :
    count ≤ bytes.length / 4 := by
  have hlength := (h.repeated count hread).2
  omega

end Decoder

/-- A value that is read from some bytes, but from none at all, takes a whole group of four. -/
theorem Codec.Composed.takes_four {α : Type} {lenient : Bool} {codec : Codec α} {rules : Rules}
    (h : Composed lenient codec) (haligned : codec.Aligned)
    (hnil : ∀ r, codec.decode rules [] ≠ .ok r) : Takes 4 (codec.decode rules) := by
  intro bytes v rest hread
  obtain ⟨hfits, hlength⟩ := h.fits_and_length hread
  refine ⟨h.rest_suffix hread, ?_⟩
  have hpos : 0 < (codec.encode v).length := by
    rw [List.length_pos_iff]
    intro hnone
    have hown := h.decode_encode hfits []
    rw [hnone] at hown
    exact hnil _ hown
  have hfour := Nat.le_of_dvd hpos (haligned.dvd_length v)
  omega

end LedgerTx
