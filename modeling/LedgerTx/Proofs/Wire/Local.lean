import LedgerTx.Proofs.Front
import LedgerTx.Proofs.Wire.Composed

namespace LedgerTx

/-! # Decoders that look at nothing ahead

A decoder is local if what it does depends on the bytes that it takes alone: other bytes behind them change
nothing, bytes that are missing are reported as missing, and every other fault is found by then for good. -/

/-- Whether bytes are missing. -/
def DecodeError.IsTooShort (cause : DecodeError) : Prop :=
  ∃ needed remaining, cause = .tooShort needed remaining

namespace Decoder

variable {α β : Type}

/-- Decoders that look at no byte behind those that they take. -/
structure Local (decode : Decoder α) : Prop where
  /-- A value is read from the bytes in front, whatever follows them. -/
  ok : ∀ {bytes a rest}, decode bytes = .ok (a, rest) →
    ∃ front, bytes = front ++ rest ∧ ∀ other, decode (front ++ other) = .ok (a, other)
  /-- More bytes change no fault but the lack of bytes. -/
  error : ∀ {bytes cause rest}, decode bytes = .error ⟨cause, rest⟩ → ¬cause.IsTooShort →
    ∀ more, decode (bytes ++ more) = .error ⟨cause, rest ++ more⟩

namespace Local

variable {decode : Decoder α}

theorem pure (a : α) : Local fun bytes => .ok (a, bytes) where
  ok h := by
    cases h
    exact ⟨[], rfl, fun _ => rfl⟩
  error h := by cases h

theorem fail (cause : DecodeError) : Local (Decoder.fail cause : Decoder α) where
  ok h := absurd h fail_ne_ok
  error h := by
    cases h
    exact fun _ _ => rfl

/-- Too few bytes are all that can be wrong with bytes that are taken. -/
theorem take (n : Nat) : Local (take n) where
  ok h := by
    obtain ⟨hlength, rfl⟩ := take_eq_ok.mp h
    exact ⟨_, rfl, fun other => take_eq_ok.mpr ⟨hlength, rfl⟩⟩
  error h hcause := by
    unfold Decoder.take at h
    dsimp only at h
    split at h
    · cases h
    · cases h
      exact absurd ⟨_, _, rfl⟩ hcause

/-- Like bytes that are taken, those of a fixed number can only be too few. -/
theorem fixed (n : Nat) : Local (fixed n) where
  ok h := by
    obtain rfl := fixed_eq_ok.mp h
    exact ⟨_, rfl, fun other => fixed_eq_ok.mpr rfl⟩
  error h hcause := by
    unfold Decoder.fixed at h
    dsimp only at h
    split at h
    · cases h
    · cases h
      exact absurd ⟨_, _, rfl⟩ hcause

/-- What is read next may depend on what was read first. -/
theorem bind (h : Local decode) {next : α × List UInt8 → Except Failure (β × List UInt8)}
    (hnext : ∀ a, Local fun bytes => next (a, bytes)) : Local fun bytes => decode bytes >>= next where
  ok {bytes b rest} hread := by
    obtain ⟨⟨a, mid⟩, ha, hb⟩ := Except.bind_eq_ok.mp hread
    obtain ⟨front, rfl, hfront⟩ := h.ok ha
    obtain ⟨back, rfl, hback⟩ := (hnext a).ok hb
    refine ⟨front ++ back, (List.append_assoc ..).symm, fun other => ?_⟩
    rw [List.append_assoc]
    exact Except.bind_eq_ok.mpr ⟨_, hfront _, hback other⟩
  error {bytes cause rest} hread hcause more := by
    -- the fault may be that of the first part, or that of the second behind it
    cases ha : decode bytes with
    | error failure =>
      rw [ha] at hread
      cases hread
      rw [h.error ha hcause]
      rfl
    | ok r =>
      obtain ⟨a, mid⟩ := r
      obtain ⟨front, rfl, hfront⟩ := h.ok ha
      rw [ha] at hread
      rw [List.append_assoc, hfront]
      exact (hnext a).error hread hcause more

theorem map (h : Local decode) (f : α → β) :
    Local
      (fun bytes => do
        let (a, bytes) ← decode bytes
        return (f a, bytes)) :=
  h.bind fun a => pure (f a)

/-- A value is accepted, or refused for what it is. -/
theorem ite {c : Prop} [Decidable c] {other : Decoder α} (h : Local decode) (hother : Local other) :
    Local fun bytes => if c then decode bytes else other bytes := by
  by_cases hc : c
  · simpa only [if_pos hc] using h
  · simpa only [if_neg hc] using hother

theorem repeated (h : Local decode) (count : Nat) : Local (repeated decode count) := by
  induction count with
  | zero => exact pure []
  | succ count ih => exact h.bind fun item => ih.map fun items => item :: items

theorem readPresent (h : Local decode) (present : Bool) : Local (readPresent decode present) := by
  cases present with
  | false => exact pure none
  | true => exact h.map some

/-- Fewer bytes than a value takes are reported as too few. -/
theorem tooShort (h : Local decode) {bytes rest : List UInt8} {a : α}
    (hread : decode bytes = .ok (a, rest)) {j : Nat} (hj : j + rest.length < bytes.length) :
    ∃ failure, decode (bytes.take j) = .error failure ∧ failure.cause.IsTooShort := by
  obtain ⟨front, rfl, hfront⟩ := h.ok hread
  rw [List.length_append] at hj
  have htake : (front ++ rest).take j = front.take j := List.take_append_of_le_length (by omega)
  have hwhole : decode (front.take j ++ front.drop j) = .ok (a, []) := by
    have hread := hfront []
    rwa [List.append_nil, ← List.take_append_drop j front] at hread
  rw [htake]
  cases hcut : decode (front.take j) with
  | ok r =>
    -- the same value would be read with bytes left over
    obtain ⟨b, left⟩ := r
    obtain ⟨part, hpart, hall⟩ := h.ok hcut
    rw [hpart, List.append_assoc, hall] at hwhole
    have hnone : left ++ front.drop j = [] := congrArg Prod.snd (Except.ok.inj hwhole)
    have hlength := congrArg List.length hnone
    rw [List.length_append, List.length_drop, List.length_nil] at hlength
    omega
  | error failure =>
    refine ⟨failure, rfl, ?_⟩
    by_contra hcause
    rw [h.error hcut hcause] at hwhole
    cases hwhole

end Local

end Decoder

namespace Codec

open Decoder

variable {α : Type} {rules : Rules}

theorem uint32_local : Local (uint32.decode rules) :=
  (Local.take 4).map fun word => UInt32.ofNat (BigEndian.toNat word)

theorem uint64_local : Local (uint64.decode rules) :=
  (Local.take 8).map fun word => UInt64.ofNat (BigEndian.toNat word)

/-- The sign is told by the same four bytes. -/
theorem int32_local : Local (int32.decode rules) :=
  uint32_local.map UInt32.toInt32

theorem flag_local (fault : UInt32 → DecodeError) : Local ((flag fault).decode rules) := by
  refine uint32_local.bind fun word => ?_
  exact .ite (.pure false) (.ite (.pure true) (.fail (fault word)))

/-- A count is refused for what it says, not for what follows it. -/
theorem count_local (what : String) (max : Nat) : Local ((count what max).decode rules) := by
  refine uint32_local.bind fun word => ?_
  exact .ite (.pure word.toNat) (.fail _)

/-- The bytes that fill a field are looked at once all of them are there. -/
theorem bytes_local (max : Nat) : Local ((Codec.bytes max).decode rules) := by
  refine (count_local "opaque" max).bind fun length => ?_
  refine (Local.take length).bind fun v => ?_
  refine (Local.take (padding length)).bind fun zeros => ?_
  exact .ite (.pure v) (.fail _)

/-- A text is looked at once the bytes that fill its field are there too. -/
theorem string_local (max : Nat) : Local ((string max).decode rules) := by
  refine (bytes_local max).bind fun v => ?_
  dsimp only
  cases Utf8.decode v with
  | ok s => exact .pure s
  | error fault => exact .fail _

section Constants

variable {κ : Type} [Enumeration κ]

/-- A number has a constant or has none, whatever follows it. -/
theorem constant_local : Local ((constant κ).decode rules) := by
  refine int32_local.bind fun n => ?_
  dsimp only
  cases Enumeration.ofNumber? (κ := κ) n with
  | some k => exact .pure k
  | none => exact .fail _

/-- An unknown number is refused or let through at once. -/
theorem openConstant_local (title : String) (last : κ) :
    Local ((openConstant title last).decode rules) := by
  refine int32_local.bind fun n => ?_
  dsimp only
  cases Enumeration.ofNumber? (κ := κ) n with
  | some k => exact .pure k
  | none => exact .ite (.fail _) (.pure last)

/-- Whether a constant chooses an arm does not depend on what follows. -/
theorem arms_local {τ : Type} {title : String} {constantOf : τ → κ} {arm? : κ → Option τ} :
    Local ((arms title constantOf arm?).decode rules) := by
  refine constant_local.bind fun k => ?_
  dsimp only
  cases arm? k with
  | some t => exact .pure t
  | none => exact .fail _

end Constants

/-- What is read from few levels is read in the same way from as many as there can be. -/
theorem ofLevels_local {levels : Nat → Codec α} {depth : α → Nat} (h : ∀ n, Local ((levels n).decode rules))
    (htower : Tower levels depth) : Local ((ofLevels levels depth).decode rules) := by
  -- enough levels for both inputs read each of them as its own levels do
  have henough : ∀ bytes n, bytes.length / 4 < n →
      (ofLevels levels depth).decode rules bytes = (levels n).decode rules bytes := by
    intro bytes n hn
    exact htower.decode_eq (by omega) (by omega) rules
  constructor
  · intro bytes v rest hread
    obtain ⟨front, rfl, -⟩ := (h _).ok hread
    refine ⟨front, rfl, fun other => ?_⟩
    obtain ⟨n, hn, hn'⟩ : ∃ n, (front ++ rest).length / 4 < n ∧ (front ++ other).length / 4 < n :=
      ⟨_, Nat.lt_succ_of_le (Nat.le_max_left _ _), Nat.lt_succ_of_le (Nat.le_max_right _ _)⟩
    rw [henough _ n hn] at hread
    rw [henough _ n hn']
    obtain ⟨front', heq, hall⟩ := (h n).ok hread
    rw [List.append_cancel_right heq]
    exact hall other
  · intro bytes cause rest hread hcause more
    obtain ⟨n, hn, hn'⟩ : ∃ n, bytes.length / 4 < n ∧ (bytes ++ more).length / 4 < n :=
      ⟨_, Nat.lt_succ_of_le (Nat.le_max_left _ _), Nat.lt_succ_of_le (Nat.le_max_right _ _)⟩
    rw [henough _ n hn] at hread
    rw [henough _ n hn']
    exact (h n).error hread hcause more

/-- All codecs that are put together from those of single values are local. -/
theorem Composed.decode_local {lenient : Bool} {codec : Codec α} (h : Composed lenient codec) :
    Local (codec.decode rules) := by
  induction h with
  | uint32 => exact uint32_local
  | uint64 => exact uint64_local
  | flag fault => exact flag_local fault
  | fixed n => exact .fixed n
  | bytes max => exact bytes_local max
  | string max => exact string_local max
  | constant κ => exact constant_local
  | openConstant title last => exact openConstant_local title last
  | arms => exact arms_local
  | unit => exact .pure ()
  | map _ ih => exact ih.map _
  | pair _ _ ihfirst ihsecond => exact ihfirst.bind fun a => ihsecond.map fun b => (a, b)
  | sigma _ _ ihtag ihpayload => exact ihtag.bind fun k => (ihpayload k).map (Sigma.mk k)
  | list max _ ih => exact (count_local "array" max).bind ih.repeated
  | option _ ih => exact (flag_local .invalidPresence).bind ih.readPresent
  | empty =>
    refine ⟨fun hread => absurd hread empty_decode_ne_ok, fun hread hcause => ?_⟩
    cases hread
    exact absurd ⟨_, _, rfl⟩ hcause
  | delay _ ih => exact ih
  | ofLevels _ htower ih => exact ofLevels_local ih htower

end Codec

end LedgerTx
