import LedgerTx.Proofs.Wire.Composed

namespace LedgerTx

/-! # Looser limits

A reader with larger limits takes all that a reader with smaller ones takes, and finds the same in it.  So
the encoding of a value of which every count can be said is read as that value or refused, whatever the
limits of the reader are. -/

namespace Rules

/-- Ledger keys of later kinds are let through, and a counted field may be as long as its count can say. -/
def loosest : Rules := ⟨false, false⟩

/-- The limits of one reader are no larger than those of another that knows the same kinds. -/
structure Within (rules loose : Rules) : Prop where
  known : rules.knownKindsOnly = loose.knownKindsOnly
  limit_le : ∀ max, rules.limit max ≤ loose.limit max

theorem standard_within_loosest : standard.Within loosest where
  known := rfl
  limit_le max := Nat.min_le_right max maxCount

end Rules

namespace Codec.Composed

variable {α : Type} {lenient : Bool} {codec : Codec α} {rules loose : Rules} {bytes rest : List UInt8}
  {v : α}

/-- Items are read in the same way if each of them is. -/
theorem repeated_of_within {item : Codec α} {vs : List α}
    (h : ∀ {bytes v rest}, item.decode rules bytes = .ok (v, rest) →
      item.decode loose bytes = .ok (v, rest))
    (hread : Decoder.repeated (item.decode rules) vs.length bytes = .ok (vs, rest)) :
    Decoder.repeated (item.decode loose) vs.length bytes = .ok (vs, rest) := by
  induction vs generalizing bytes with
  | nil => exact hread
  | cons v vs ih =>
    obtain ⟨w, ws, mid, heq, hw, hws⟩ := Decoder.repeated_succ_eq_ok.mp hread
    cases heq
    exact Decoder.repeated_succ_eq_ok.mpr ⟨v, vs, mid, rfl, h hw, ih hws⟩

/-- What is read within some limits is read in the same way within larger ones. -/
theorem decode_of_within (h : Composed lenient codec) (hwithin : rules.Within loose)
    (hread : codec.decode rules bytes = .ok (v, rest)) : codec.decode loose bytes = .ok (v, rest) := by
  induction h generalizing bytes rest with
  | uint32 | uint64 | flag | fixed | constant | arms | unit | empty => exact hread
  | bytes max =>
    obtain ⟨hle, hbytes⟩ := bytes_decode_eq_ok.mp hread
    exact bytes_decode_eq_ok.mpr ⟨Nat.le_trans hle (hwithin.limit_le max), hbytes⟩
  | string max =>
    obtain ⟨hle, hbytes⟩ := string_decode_eq_ok.mp hread
    exact string_decode_eq_ok.mpr ⟨Nat.le_trans hle (hwithin.limit_le max), hbytes⟩
  | openConstant title last =>
    -- unknown kinds are let through by both rules or by neither
    obtain ⟨n, hbytes, hfound⟩ := openConstant_decode_eq_ok.mp hread
    rw [hwithin.known] at hfound
    exact openConstant_decode_eq_ok.mpr ⟨n, hbytes, hfound⟩
  | map _ ih =>
    have hview := map_decode_eq_ok.mp hread
    exact map_decode_eq_ok.mpr (ih hview)
  | pair _ _ ihfirst ihsecond =>
    obtain ⟨mid, hfirst, hsecond⟩ := pair_decode_eq_ok.mp hread
    exact pair_decode_eq_ok.mpr ⟨mid, ihfirst hfirst, ihsecond hsecond⟩
  | sigma _ _ ihtag ihpayload =>
    obtain ⟨mid, htag, hpayload⟩ := sigma_decode_eq_ok.mp hread
    exact sigma_decode_eq_ok.mpr ⟨mid, ihtag htag, ihpayload _ hpayload⟩
  | list max _ ih =>
    obtain ⟨mid, hle, hbytes, hitems⟩ := list_decode_eq_ok.mp hread
    -- a count within the smaller limit is within the larger one
    have hlimit := Nat.le_trans hle (hwithin.limit_le max)
    exact list_decode_eq_ok.mpr ⟨mid, hlimit, hbytes, repeated_of_within ih hitems⟩
  | option _ ih =>
    -- the option is read by its mark, which no limit applies to
    cases v with
    | none =>
      have hnone := option_decode_none.mp hread
      exact option_decode_none.mpr hnone
    | some a =>
      obtain ⟨mid, hbytes, ha⟩ := option_decode_some.mp hread
      exact option_decode_some.mpr ⟨mid, hbytes, ih ha⟩
  | delay _ ih => exact ih hread
  | ofLevels _ _ ih => exact ih _ hread

/-- What is read from the encoding of a value of which every count can be said is that value. -/
theorem eq_of_decodeWhole_encode (h : Composed lenient codec) {w : α}
    (hfits : codec.fits .loosest v = true) (hread : codec.decodeWhole (codec.encode v) = .ok w) :
    w = v := by
  have hown := h.decode_encode hfits []
  rw [List.append_nil] at hown
  have hfound := h.decode_of_within Rules.standard_within_loosest (Decoder.whole_eq_ok.mp hread)
  rw [hown] at hfound
  cases hfound
  rfl

end Codec.Composed

end LedgerTx
