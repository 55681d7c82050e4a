import LedgerTx.Proofs.Schema.Types
import LedgerTx.Proofs.Wire.Local

namespace LedgerTx.Schema

open Decoder

/-! # Wire types are read locally

Bytes behind a value change nothing, a value that is cut off is reported as too short wherever it is cut,
and any other fault is reported alike whatever bytes come after it. -/

variable {α : Type} {decode : Decoder α} {bytes rest : List UInt8} {v : α}

/-- A value is read from the bytes in front alone, and less of them is reported as too short. -/
theorem exists_front_of_local (h : Local decode) (hread : decode bytes = .ok (v, rest)) :
    ∃ front, bytes = front ++ rest ∧ (∀ other, decode (front ++ other) = .ok (v, other))
      ∧ ∀ j < front.length, ∃ failure, decode (bytes.take j) = .error failure
          ∧ failure.cause.IsTooShort := by
  obtain ⟨front, rfl, hfront⟩ := h.ok hread
  refine ⟨front, rfl, hfront, fun j hj => h.tooShort hread ?_⟩
  rw [List.length_append]
  exact Nat.add_lt_add_right hj _

/-- What a type reads depends on the bytes that it takes alone: other bytes behind them change nothing, any
part of them is too short, and a fault that is no lack of bytes stays.  The same holds of byte strings of
any fixed size. -/
theorem decode_front :
    (∀ {name : String} {type : WireType}, wireType? name = some type → ∀ {bytes : List UInt8},
      (∀ {v rest}, type.codec.decode .standard bytes = .ok (v, rest) →
        ∃ front, bytes = front ++ rest
          ∧ (∀ other, type.codec.decode .standard (front ++ other) = .ok (v, other))
          ∧ ∀ j < front.length, ∃ failure, type.codec.decode .standard (bytes.take j) = .error failure
              ∧ failure.cause.IsTooShort)
      ∧ ∀ {cause rest}, type.codec.decode .standard bytes = .error ⟨cause, rest⟩ →
          ¬cause.IsTooShort →
            ∀ more, type.codec.decode .standard (bytes ++ more) = .error ⟨cause, rest ++ more⟩)
    ∧ ∀ {n : Nat} {bytes : List UInt8},
      (∀ {v rest}, (Codec.fixed n).decode .standard bytes = .ok (v, rest) →
        ∃ front, bytes = front ++ rest
          ∧ (∀ other, (Codec.fixed n).decode .standard (front ++ other) = .ok (v, other))
          ∧ ∀ j < front.length, ∃ failure, (Codec.fixed n).decode .standard (bytes.take j) = .error failure
              ∧ failure.cause.IsTooShort)
      ∧ ∀ {cause rest}, (Codec.fixed n).decode .standard bytes = .error ⟨cause, rest⟩ →
          ¬cause.IsTooShort →
            ∀ more, (Codec.fixed n).decode .standard (bytes ++ more) = .error ⟨cause, rest ++ more⟩ := by
  constructor
  · intro name type h bytes
    have hlocal : Local (type.codec.decode .standard) := (lawful_of_wireType? h).decode_local
    exact ⟨exists_front_of_local hlocal, hlocal.error⟩
  · intro n bytes
    have hlocal : Local ((Codec.fixed n).decode .standard) := .fixed n
    exact ⟨exists_front_of_local hlocal, hlocal.error⟩

/-- A truth value, cut off or followed by anything, and a word that is none. -/
theorem decode_front_bool :
    (∀ j < 8, ∃ failure,
        Contract.Value.layout.wire.decode .standard (([0, 0, 0, 0, 0, 0, 0, 1, 9] : List UInt8).take j)
          = .error failure ∧ failure.cause.IsTooShort)
      ∧ (∀ other, Contract.Value.layout.wire.decode .standard ([0, 0, 0, 0, 0, 0, 0, 1] ++ other)
          = .ok (.bool true, other))
      ∧ ∀ more, Contract.Value.layout.wire.decode .standard ([0, 0, 0, 0, 0, 0, 0, 2] ++ more)
          = .error ⟨.invalidBoolean 2, [] ++ more⟩ := by
  have hvalue : wireType? "ScVal"
      = some (.summed Contract.Value.layout fun v => Summary.name v.kind) := rfl
  have hread : Contract.Value.layout.wire.decode .standard [0, 0, 0, 0, 0, 0, 0, 1, 9]
      = .ok (.bool true, [9]) := rfl
  have hfault : Contract.Value.layout.wire.decode .standard [0, 0, 0, 0, 0, 0, 0, 2]
      = .error ⟨.invalidBoolean 2, []⟩ := rfl
  obtain ⟨front, hfront, hother, hpart⟩ := (decode_front.1 hvalue).1 hread
  obtain rfl : front = [0, 0, 0, 0, 0, 0, 0, 1] := (List.append_cancel_right hfront).symm
  refine ⟨hpart, hother, (decode_front.1 hvalue).2 hfault ?_⟩
  rintro ⟨needed, remaining, hcause⟩
  cases hcause

end LedgerTx.Schema
