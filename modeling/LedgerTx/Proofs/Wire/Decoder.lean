import LedgerTx.Wire.Codec
import Mathlib.Data.List.Induction

namespace LedgerTx

/-! # What single reads accept

For each codec of a single value, one equation says which bytes it reads as a value and what it leaves:
the bytes are the value's own encoding, and then the rest. -/

/-! ## Failing computations -/

/-- A sequence of two computations succeeds if both do. -/
theorem Except.bind_eq_ok {ε α β : Type} {x : Except ε α} {f : α → Except ε β} {b : β} :
    (x >>= f) = .ok b ↔ ∃ a, x = .ok a ∧ f a = .ok b := by
  cases x with
  | error e =>
    constructor
    · intro h
      cases h
    · rintro ⟨a, ha, _⟩
      cases ha
  | ok a =>
    constructor
    · intro h
      exact ⟨a, rfl, h⟩
    · rintro ⟨a', ha, h⟩
      cases ha
      exact h

/-- A sequence of two computations fails with the failure of the first, or of the second if the first
succeeds. -/
theorem Except.bind_eq_error {ε α β : Type} {x : Except ε α} {f : α → Except ε β} {e : ε} :
    (x >>= f) = .error e ↔ x = .error e ∨ ∃ a, x = .ok a ∧ f a = .error e := by
  cases x with
  | error e' =>
    constructor
    · intro h
      cases h
      exact .inl rfl
    · rintro (h | ⟨a, ha, _⟩)
      · cases h
        rfl
      · cases ha
  | ok a =>
    constructor
    · intro h
      exact .inr ⟨a, rfl, h⟩
    · rintro (h | ⟨a', ha, h⟩)
      · cases h
      · cases ha
        exact h

/-- Another wording of errors changes no result. -/
theorem Except.mapError_eq_ok {ε ε' α : Type} {x : Except ε α} {f : ε → ε'} {a : α} :
    x.mapError f = .ok a ↔ x = .ok a := by
  cases x with
  | error e =>
    constructor
    · intro h
      cases h
    · intro h
      cases h
  | ok a' =>
    constructor
    · intro h
      cases h
      rfl
    · intro h
      cases h
      rfl

/-- A computation that fails first under a condition succeeds if the condition does not hold. -/
theorem Except.guard_bind_eq_ok {ε α : Type} {c : Prop} [Decidable c] {cause : ε}
    {next : Except ε α} {a : α} :
    (if c then throw cause >>= fun (_ : PUnit) => next else next) = .ok a ↔ ¬c ∧ next = .ok a := by
  split
  · rename_i hc
    constructor
    · intro h
      cases h
    · rintro ⟨hno, -⟩
      exact absurd hc hno
  · rename_i hc
    constructor
    · intro h
      exact ⟨hc, h⟩
    · rintro ⟨-, h⟩
      exact h

/-- A value that is given back is the result. -/
theorem Except.pure_eq_ok {ε α : Type} {a b : α} : (pure a : Except ε α) = .ok b ↔ b = a := by
  constructor
  · intro h
    cases h
    rfl
  · rintro rfl
    rfl

namespace Decoder

theorem fail_ne_ok {α : Type} {cause : DecodeError} {rest : List UInt8} {a : α × List UInt8} :
    Decoder.fail cause rest ≠ .ok a := by
  intro h
  cases h

/-- Some bytes are taken if they stand in front. -/
theorem take_eq_ok {n : Nat} {bytes front rest : List UInt8} :
    take n bytes = .ok (front, rest) ↔ front.length = n ∧ bytes = front ++ rest := by
  unfold take
  dsimp only
  constructor
  · intro h
    split at h
    · rename_i hlen
      cases h
      exact ⟨hlen, (List.take_append_drop n bytes).symm⟩
    · exact absurd h fail_ne_ok
  · rintro ⟨hlen, rfl⟩
    subst hlen
    simp

/-- A fixed number of bytes is read if they stand in front. -/
theorem fixed_eq_ok {n : Nat} {bytes rest : List UInt8} {v : FixedBytes n} :
    fixed n bytes = .ok (v, rest) ↔ bytes = v.toList ++ rest := by
  unfold fixed
  dsimp only
  constructor
  · intro h
    split at h
    · cases h
      exact (List.take_append_drop n bytes).symm
    · exact absurd h fail_ne_ok
  · rintro rfl
    have htake : (v.toList ++ rest).take n = v.toList := List.take_left' v.length_toList
    have hdrop : (v.toList ++ rest).drop n = rest := List.drop_left' v.length_toList
    have hlen : ((v.toList ++ rest).take n).length = n := by
      rw [htake, v.length_toList]
    rw [dif_pos hlen, hdrop]
    exact congrArg Except.ok (Prod.ext (FixedBytes.ext htake) rfl)

/-- A whole input is read as a value if nothing is left. -/
theorem whole_eq_ok {α : Type} {decode : Decoder α} {bytes : List UInt8} {v : α} :
    whole decode bytes = .ok v ↔ decode bytes = .ok (v, []) := by
  unfold whole
  cases hd : decode bytes with
  | error e =>
    constructor
    · intro h
      cases h
    · intro h
      cases h
  | ok r =>
    rcases r with ⟨w, rest⟩
    cases rest with
    | nil =>
      constructor
      · intro h
        cases h
        rfl
      · intro h
        cases h
        rfl
    | cons b rest =>
      constructor
      · intro h
        cases h
      · intro h
        cases h

/-- No values are read from nothing. -/
theorem repeated_zero_eq_ok {α : Type} {decode : Decoder α} {bytes rest : List UInt8} {vs : List α} :
    repeated decode 0 bytes = .ok (vs, rest) ↔ vs = [] ∧ bytes = rest := by
  constructor
  · intro h
    cases h
    exact ⟨rfl, rfl⟩
  · rintro ⟨rfl, rfl⟩
    rfl

/-- One value more is read before the others. -/
theorem repeated_succ_eq_ok {α : Type} {decode : Decoder α} {n : Nat} {bytes rest : List UInt8}
    {vs : List α} :
    repeated decode (n + 1) bytes = .ok (vs, rest) ↔
      ∃ w ws mid, vs = w :: ws ∧ decode bytes = .ok (w, mid)
        ∧ repeated decode n mid = .ok (ws, rest) := by
  -- one value, and what is left is read as the others
  rw [repeated, Except.bind_eq_ok]
  constructor
  · rintro ⟨⟨w, mid⟩, hw, h⟩
    rcases Except.bind_eq_ok.mp h with ⟨⟨ws, rest'⟩, hws, h⟩
    cases h
    exact ⟨w, ws, mid, rfl, hw, hws⟩
  · rintro ⟨w, ws, mid, rfl, hw, hws⟩
    exact ⟨(w, mid), hw, Except.bind_eq_ok.mpr ⟨(ws, rest), hws, rfl⟩⟩

end Decoder

/-! ## Numbers as bytes -/

namespace BigEndian

/-- As many bytes as the width says are written again as they were read. -/
theorem ofNat_toNat (bytes : List UInt8) : ofNat bytes.length (toNat bytes) = bytes := by
  -- digits are written from the last one, so the induction takes bytes off the end
  induction bytes using List.reverseRecOn with
  | nil => rfl
  | append_singleton bytes b ih =>
    have hb : b.toNat < 256 := b.toNat_lt
    have hdiv : (toNat bytes * 256 + b.toNat) / 256 = toNat bytes := by omega
    have hlast : UInt8.ofNat (toNat bytes * 256 + b.toNat) = b := by
      apply UInt8.toNat_inj.mp
      rw [UInt8.toNat_ofNat']
      omega
    rw [toNat_append_singleton, List.length_append, List.length_singleton, ofNat, hdiv, ih, hlast]

/-- Bytes spell a number below the power of 256 that their count says. -/
theorem toNat_lt (bytes : List UInt8) : toNat bytes < Nat.pow 256 bytes.length := by
  rw [← ofNat_toNat bytes, toNat_ofNat, length_ofNat]
  exact Nat.mod_lt _ (Nat.pow_pos (by decide))

/-- A number that the width can hold is read back. -/
theorem toNat_ofNat_of_lt {width n : Nat} (h : n < Nat.pow 256 width) : toNat (ofNat width n) = n := by
  rw [toNat_ofNat, Nat.mod_eq_of_lt h]

end BigEndian

/-- A word that numbers of so many bytes stand for is read if its bytes stand in front. -/
theorem Decoder.word_eq_ok {α : Type} (width : Nat) {ofNat : Nat → α} {toNat : α → Nat}
    (hof : ∀ v, ofNat (toNat v) = v) (hlt : ∀ v, toNat v < Nat.pow 256 width)
    (hto : ∀ n, n < Nat.pow 256 width → toNat (ofNat n) = n) {bytes rest : List UInt8} {v : α} :
    (take width bytes >>= fun r => .ok (ofNat (BigEndian.toNat r.1), r.2)) = .ok (v, rest) ↔
      bytes = BigEndian.ofNat width (toNat v) ++ rest := by
  constructor
  · intro h
    replace h := Except.bind_eq_ok.mp h
    rcases h with ⟨⟨word, mid⟩, hword, h⟩
    rcases take_eq_ok.mp hword with ⟨rfl, rfl⟩
    cases h
    -- the bytes spell a number that the word can hold
    rw [hto _ (BigEndian.toNat_lt word), BigEndian.ofNat_toNat]
  · rintro rfl
    refine Except.bind_eq_ok.mpr ⟨_, take_eq_ok.mpr ⟨BigEndian.length_ofNat width _, rfl⟩, ?_⟩
    rw [BigEndian.toNat_ofNat_of_lt (hlt v), hof]

end LedgerTx
