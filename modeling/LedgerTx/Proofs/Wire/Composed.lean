import LedgerTx.Proofs.Wire.Reads

namespace LedgerTx

/-! # How codecs are put together

`Codec.Composed` holds of the codecs that are put together from those of single values in the ways that
`Wire.Codec` has.  A law of codecs is proved by induction on it, with one case for each way, and holds
then of every wire type. -/

/-- Enumerations of which the numbers tell the constants apart. -/
class Enumeration.Numbered (κ : Type) [Enumeration κ] : Prop where
  ofNumber?_number : ∀ k : κ, Enumeration.ofNumber? (Enumeration.number k) = some k

namespace Codec

variable {α : Type}

/-! ## Recursive types -/

/-- The codec of a type of which `levels n` reads and writes the values nested at most `n` deep.  What is
left to read bounds the levels, four bytes each. -/
def ofLevels (levels : Nat → Codec α) (depth : α → Nat) : Codec α where
  encode v := (levels (depth v)).encode v
  decode rules bytes := (levels (bytes.length / 4 + 1)).decode rules bytes
  fits rules v := (levels (depth v)).fits rules v

/-- What makes levels of codecs those of one recursive type. -/
structure Tower (levels : Nat → Codec α) (depth : α → Nat) : Prop where
  /-- A level knows no deeper values. -/
  depth_le : ∀ {n rules v}, (levels n).fits rules v = true → depth v ≤ n
  /-- Every level that is deep enough writes a value in the same way. -/
  encode_eq : ∀ {n v}, depth v ≤ n → (levels n).encode v = (levels (depth v)).encode v
  fits_eq : ∀ {n rules v}, depth v ≤ n → (levels n).fits rules v = (levels (depth v)).fits rules v
  /-- Each level takes four bytes. -/
  le_length : ∀ v, 4 * depth v ≤ ((levels (depth v)).encode v).length
  /-- Levels that are more than the bytes can fill read in the same way. -/
  decode_eq : ∀ {n m bytes}, bytes.length < 4 * n → bytes.length < 4 * m →
    ∀ rules, (levels n).decode rules bytes = (levels m).decode rules bytes

/-! ## All codecs -/

/-- Codecs that are put together from codecs of single values.  Unknown constants may be let through
only if `lenient` says so. -/
inductive Composed (lenient : Bool) : {α : Type} → Codec α → Prop
  | uint32 : Composed lenient Codec.uint32
  | uint64 : Composed lenient Codec.uint64
  | flag (fault : UInt32 → DecodeError) : Composed lenient (Codec.flag fault)
  | fixed (n : Nat) : Composed lenient (Codec.fixed n)
  | bytes (max : Nat) : Composed lenient (Codec.bytes max)
  | string (max : Nat) : Composed lenient (Codec.string max)
  | constant (κ : Type) [Enumeration κ] [Enumeration.Numbered κ] : Composed lenient (Codec.constant κ)
  | openConstant {κ : Type} [Enumeration κ] [Enumeration.Numbered κ] (title : String) (last : κ)
      (hlenient : lenient = true) : Composed lenient (Codec.openConstant title last)
  | arms {κ τ : Type} [Enumeration κ] [Enumeration.Numbered κ] {title : String} {constantOf : τ → κ}
      {arm? : κ → Option τ} (hsome : ∀ t, arm? (constantOf t) = some t)
      (hof : ∀ k t, arm? k = some t → constantOf t = k) :
      Composed lenient (Codec.arms title constantOf arm?)
  | unit : Composed lenient Codec.unit
  | map {α β : Type} {view : Bijection α β} {codec : Codec β} (h : Composed lenient codec) :
      Composed lenient (codec.map view)
  | pair {α β : Type} {first : Codec α} {second : Codec β} (hfirst : Composed lenient first)
      (hsecond : Composed lenient second) : Composed lenient (Codec.pair first second)
  | sigma {κ : Type} {π : κ → Type} {tag : Codec κ} {payload : (k : κ) → Codec (π k)}
      (htag : Composed lenient tag) (hpayload : ∀ k, Composed lenient (payload k)) :
      Composed lenient (Codec.sigma tag payload)
  | list {α : Type} {item : Codec α} (max : Nat) (h : Composed lenient item) :
      Composed lenient (Codec.list max item)
  | option {α : Type} {item : Codec α} (h : Composed lenient item) :
      Composed lenient (Codec.option item)
  | empty {α : Type} : Composed lenient (Codec.empty : Codec α)
  | delay {α : Type} {codec : Unit → Codec α} (h : Composed lenient (codec ())) :
      Composed lenient (Codec.delay codec)
  | ofLevels {α : Type} {levels : Nat → Codec α} {depth : α → Nat}
      (h : ∀ n, Composed lenient (levels n)) (htower : Tower levels depth) :
      Composed lenient (Codec.ofLevels levels depth)

/-- Whether some bytes are read as a value. -/
def Readable (codec : Codec α) (v : α) : Prop :=
  ∃ bytes, codec.decodeWhole bytes = .ok v

namespace Composed

variable {lenient : Bool} {codec : Codec α} {rules : Rules} {bytes rest : List UInt8} {v : α}

theorem int32 : Composed lenient Codec.int32 := map uint32

theorem int64 : Composed lenient Codec.int64 := map uint64

theorem bool : Composed lenient Codec.bool := flag _

/-! ## Limits -/

/-- Only the limits say which values fit. -/
theorem fits_congr (h : Composed lenient codec) {rules' : Rules} (hlimited : rules.limited = rules'.limited)
    (v : α) : codec.fits rules v = codec.fits rules' v := by
  have hlimit : ∀ max, rules.limit max = rules'.limit max := by
    intro max
    unfold Rules.limit
    rw [hlimited]
  induction h with
  | uint32 | uint64 | flag | fixed | constant | openConstant | arms | unit | empty => rfl
  | bytes max | string max => simp only [Codec.string, Codec.bytes, Codec.count, hlimit]
  | map _ ih => exact ih _
  | pair _ _ ihfirst ihsecond =>
    show (_ && _) = (_ && _)
    rw [ihfirst, ihsecond]
  | sigma _ _ ihtag ihpayload =>
    show (_ && _) = (_ && _)
    rw [ihtag, ihpayload]
  | list max _ ih =>
    show (decide (v.length ≤ _) && v.all _) = (decide (v.length ≤ _) && v.all _)
    rw [hlimit, funext ih]
  | option _ ih =>
    show v.all _ = v.all _
    rw [funext ih]
  | delay _ ih => exact ih v
  | ofLevels _ _ ih => exact ih _ v

/-! ## Reading what was written -/

/-- Items that are written one after the other are read one after the other. -/
theorem repeated_flatMap {item : Codec α} {vs : List α}
    (h : ∀ v ∈ vs, ∀ rest, item.decode rules (item.encode v ++ rest) = .ok (v, rest)) :
    Decoder.repeated (item.decode rules) vs.length (vs.flatMap item.encode ++ rest)
      = .ok (vs, rest) := by
  induction vs with
  | nil => rfl
  | cons v vs ih =>
    have hv := h v (List.mem_cons_self ..) (vs.flatMap item.encode ++ rest)
    rw [List.flatMap_cons, List.append_assoc, List.length_cons]
    refine Decoder.repeated_succ_eq_ok.mpr ⟨v, vs, _, rfl, hv, ?_⟩
    exact ih fun w hw => h w (List.mem_cons_of_mem v hw)

/-- A value that keeps the limits is read back from its encoding, whatever follows it. -/
theorem decode_encode (h : Composed lenient codec) (hfits : codec.fits rules v = true)
    (rest : List UInt8) : codec.decode rules (codec.encode v ++ rest) = .ok (v, rest) := by
  induction h generalizing rest with
  | uint32 => exact uint32_decode_eq_ok.mpr rfl
  | uint64 => exact uint64_decode_eq_ok.mpr rfl
  | flag fault => exact flag_decode_eq_ok.mpr rfl
  | fixed n => exact fixed_decode_eq_ok.mpr rfl
  | bytes max => exact bytes_decode_eq_ok.mpr ⟨of_decide_eq_true hfits, rfl⟩
  | string max => exact string_decode_eq_ok.mpr ⟨of_decide_eq_true hfits, rfl⟩
  | constant κ => exact constant_decode_eq_ok.mpr ⟨Enumeration.Numbered.ofNumber?_number v, rfl⟩
  | openConstant title last =>
    have hnumber := Enumeration.Numbered.ofNumber?_number v
    exact openConstant_decode_eq_ok.mpr ⟨_, rfl, Or.inl hnumber⟩
  | @arms κ τ _ _ title constantOf arm? hsome hof =>
    have hnumber := Enumeration.Numbered.ofNumber?_number (constantOf v)
    exact arms_decode_eq_ok.mpr ⟨_, constant_decode_eq_ok.mpr ⟨hnumber, rfl⟩, hsome v⟩
  | unit => rfl
  | map _ ih => exact map_decode_eq_ok.mpr (ih hfits rest)
  | pair _ _ ihfirst ihsecond =>
    rcases Bool.and_eq_true_iff.mp hfits with ⟨hfirst, hsecond⟩
    rw [pair_encode, List.append_assoc]
    exact pair_decode_eq_ok.mpr ⟨_, ihfirst hfirst _, ihsecond hsecond rest⟩
  | sigma _ _ ihtag ihpayload =>
    rcases Bool.and_eq_true_iff.mp hfits with ⟨htag, hpayload⟩
    rw [sigma_encode, List.append_assoc]
    exact sigma_decode_eq_ok.mpr ⟨_, ihtag htag _, ihpayload _ hpayload rest⟩
  | list max _ ih =>
    rcases Bool.and_eq_true_iff.mp hfits with ⟨hcount, hitems⟩
    rw [list_encode, List.append_assoc]
    refine list_decode_eq_ok.mpr ⟨_, of_decide_eq_true hcount, rfl, ?_⟩
    exact repeated_flatMap fun w hw rest => ih (List.all_eq_true.mp hitems w hw) rest
  | option _ ih =>
    cases v with
    | none => exact option_decode_none.mpr rfl
    | some a =>
      rw [option_encode_some, List.append_assoc]
      exact option_decode_some.mpr ⟨_, rfl, ih hfits rest⟩
  | empty => cases hfits
  | delay _ ih => exact ih hfits rest
  | @ofLevels α levels depth _ htower ih =>
    -- what is left to read is long enough for the levels of the value
    have hlength := htower.le_length v
    have hdepth : depth v ≤ (((levels (depth v)).encode v ++ rest).length) / 4 + 1 := by
      rw [List.length_append]
      omega
    have hdeep := ih _ ((htower.fits_eq hdepth).trans hfits) rest
    rw [htower.encode_eq hdepth] at hdeep
    exact hdeep

/-- No encoding is the front of another one, so values that are written one after the other can be told
apart.  Decoding with any limits that they keep shows it. -/
theorem encode_append_inj (h : Composed lenient codec) {w : α} {rest' : List UInt8}
    (hv : codec.fits rules v = true) (hw : codec.fits rules w = true)
    (heq : codec.encode v ++ rest = codec.encode w ++ rest') : v = w ∧ rest = rest' := by
  have hread := h.decode_encode hv rest
  rw [heq, h.decode_encode hw rest'] at hread
  cases hread
  exact ⟨rfl, rfl⟩

theorem encode_inj (h : Composed lenient codec) {w : α} (hv : codec.fits rules v = true)
    (hw : codec.fits rules w = true) (heq : codec.encode v = codec.encode w) : v = w :=
  (h.encode_append_inj hv hw (congrArg (· ++ []) heq)).1

/-- A value that keeps the limits is read back from all of its bytes. -/
theorem decodeWhole_encode (h : Composed lenient codec) (hfits : codec.fits .standard v = true) :
    codec.decodeWhole (codec.encode v) = .ok v := by
  have hread := h.decode_encode hfits []
  rw [List.append_nil] at hread
  exact Decoder.whole_eq_ok.mpr hread

/-! ## What is read -/

/-- Items that are read keep the limits, and are as long as what was read. -/
theorem repeated_fits_and_length {item : Codec α} {vs : List α}
    (h : ∀ {bytes v rest}, item.decode rules bytes = .ok (v, rest) →
      item.fits rules v = true ∧ bytes.length = (item.encode v).length + rest.length)
    (hread : Decoder.repeated (item.decode rules) vs.length bytes = .ok (vs, rest)) :
    vs.all (item.fits rules) = true
      ∧ bytes.length = (vs.flatMap item.encode).length + rest.length := by
  induction vs generalizing bytes with
  | nil =>
    rcases Decoder.repeated_zero_eq_ok.mp hread with ⟨-, rfl⟩
    exact ⟨rfl, (Nat.zero_add _).symm⟩
  | cons v vs ih =>
    rcases Decoder.repeated_succ_eq_ok.mp hread with ⟨w, ws, mid, heq, hw, hws⟩
    cases heq
    rcases h hw with ⟨hfits, hlength⟩
    rcases ih hws with ⟨hfits', hlength'⟩
    rw [List.all_cons, hfits, hfits', List.flatMap_cons, List.length_append]
    exact ⟨rfl, by omega⟩

/-- Every number of 32 bits takes four bytes, unknown ones too. -/
theorem length_int32_encode (n : Int32) : (Codec.int32.encode n).length = 4 :=
  BigEndian.length_ofNat 4 _

/-- A value that is read keeps the limits, and its encoding is as long as what was read. -/
theorem fits_and_length (h : Composed lenient codec)
    (hread : codec.decode rules bytes = .ok (v, rest)) :
    codec.fits rules v = true ∧ bytes.length = (codec.encode v).length + rest.length := by
  induction h generalizing bytes rest with
  | uint32 =>
    rw [uint32_decode_eq_ok.mp hread]
    exact ⟨rfl, List.length_append⟩
  | uint64 =>
    rw [uint64_decode_eq_ok.mp hread]
    exact ⟨rfl, List.length_append⟩
  | flag fault =>
    rw [flag_decode_eq_ok.mp hread]
    exact ⟨rfl, List.length_append⟩
  | fixed n =>
    rw [fixed_decode_eq_ok.mp hread]
    exact ⟨rfl, List.length_append⟩
  | bytes max =>
    rcases bytes_decode_eq_ok.mp hread with ⟨hle, rfl⟩
    exact ⟨decide_eq_true hle, List.length_append⟩
  | string max =>
    rcases string_decode_eq_ok.mp hread with ⟨hle, rfl⟩
    exact ⟨decide_eq_true hle, List.length_append⟩
  | constant κ =>
    rcases constant_decode_eq_ok.mp hread with ⟨-, rfl⟩
    exact ⟨rfl, List.length_append⟩
  | openConstant title last =>
    -- the number that was read may be another one, but it is as long
    rcases openConstant_decode_eq_ok.mp hread with ⟨n, rfl, -⟩
    refine ⟨rfl, ?_⟩
    rw [List.length_append, length_int32_encode]
    exact congrArg (· + rest.length) (length_int32_encode _).symm
  | arms hsome hof =>
    rcases arms_decode_eq_ok.mp hread with ⟨k, hk, ht⟩
    rcases constant_decode_eq_ok.mp hk with ⟨-, rfl⟩
    rw [← hof k v ht]
    exact ⟨rfl, List.length_append⟩
  | unit =>
    rcases unit_decode_eq_ok.mp hread with rfl
    exact ⟨rfl, (Nat.zero_add _).symm⟩
  | map _ ih => exact ih (map_decode_eq_ok.mp hread)
  | pair _ _ ihfirst ihsecond =>
    rcases pair_decode_eq_ok.mp hread with ⟨mid, hfirst, hsecond⟩
    rcases ihfirst hfirst with ⟨hfits, hlength⟩
    rcases ihsecond hsecond with ⟨hfits', hlength'⟩
    refine ⟨Bool.and_eq_true_iff.mpr ⟨hfits, hfits'⟩, ?_⟩
    rw [pair_encode, List.length_append]
    omega
  | sigma _ _ ihtag ihpayload =>
    rcases sigma_decode_eq_ok.mp hread with ⟨mid, htag, hpayload⟩
    rcases ihtag htag with ⟨hfits, hlength⟩
    rcases ihpayload _ hpayload with ⟨hfits', hlength'⟩
    refine ⟨Bool.and_eq_true_iff.mpr ⟨hfits, hfits'⟩, ?_⟩
    rw [sigma_encode, List.length_append]
    omega
  | list max _ ih =>
    rcases list_decode_eq_ok.mp hread with ⟨mid, hle, rfl, hitems⟩
    rcases repeated_fits_and_length ih hitems with ⟨hfits, hlength⟩
    refine ⟨Bool.and_eq_true_iff.mpr ⟨decide_eq_true hle, hfits⟩, ?_⟩
    rw [list_encode, List.length_append, List.length_append]
    omega
  | option _ ih =>
    cases v with
    | none =>
      rw [option_decode_none.mp hread]
      exact ⟨rfl, List.length_append⟩
    | some a =>
      rcases option_decode_some.mp hread with ⟨mid, rfl, ha⟩
      rcases ih ha with ⟨hfits, hlength⟩
      refine ⟨hfits, ?_⟩
      rw [option_encode_some, List.length_append, List.length_append]
      omega
  | empty => exact absurd hread empty_decode_ne_ok
  | delay _ ih => exact ih hread
  | ofLevels _ htower ih =>
    -- a value that fits the level that read it is written at its own level alike
    rcases ih _ hread with ⟨hfits, hlength⟩
    have hdepth := htower.depth_le hfits
    rw [htower.fits_eq hdepth] at hfits
    rw [htower.encode_eq hdepth] at hlength
    exact ⟨hfits, hlength⟩

/-- Items that are read leave the end of what was there. -/
theorem repeated_suffix {item : Codec α} {vs : List α}
    (h : ∀ {bytes v rest}, item.decode rules bytes = .ok (v, rest) → rest <:+ bytes)
    (hread : Decoder.repeated (item.decode rules) vs.length bytes = .ok (vs, rest)) :
    rest <:+ bytes := by
  induction vs generalizing bytes with
  | nil =>
    rcases Decoder.repeated_zero_eq_ok.mp hread with ⟨-, rfl⟩
    exact List.suffix_refl bytes
  | cons v vs ih =>
    rcases Decoder.repeated_succ_eq_ok.mp hread with ⟨w, ws, mid, heq, hw, hws⟩
    cases heq
    exact (ih hws).trans (h hw)

/-- What is left after a value is the end of what was there. -/
theorem rest_suffix (h : Composed lenient codec) (hread : codec.decode rules bytes = .ok (v, rest)) :
    rest <:+ bytes := by
  -- the encoding that was read stands in front, so its rest is an end
  induction h generalizing bytes rest with
  | uint32 => exact ⟨_, (uint32_decode_eq_ok.mp hread).symm⟩
  | uint64 => exact ⟨_, (uint64_decode_eq_ok.mp hread).symm⟩
  | flag fault => exact ⟨_, (flag_decode_eq_ok.mp hread).symm⟩
  | fixed n => exact ⟨_, (fixed_decode_eq_ok.mp hread).symm⟩
  | bytes max => exact ⟨_, (bytes_decode_eq_ok.mp hread).2.symm⟩
  | string max => exact ⟨_, (string_decode_eq_ok.mp hread).2.symm⟩
  | constant κ => exact ⟨_, (constant_decode_eq_ok.mp hread).2.symm⟩
  | openConstant title last =>
    rcases openConstant_decode_eq_ok.mp hread with ⟨n, rfl, -⟩
    exact List.suffix_append ..
  | arms hsome hof =>
    rcases arms_decode_eq_ok.mp hread with ⟨k, hk, -⟩
    exact ⟨_, (constant_decode_eq_ok.mp hk).2.symm⟩
  | unit =>
    rcases unit_decode_eq_ok.mp hread with rfl
    exact List.suffix_refl bytes
  | map _ ih => exact ih (map_decode_eq_ok.mp hread)
  | pair _ _ ihfirst ihsecond =>
    rcases pair_decode_eq_ok.mp hread with ⟨mid, hfirst, hsecond⟩
    exact (ihsecond hsecond).trans (ihfirst hfirst)
  | sigma _ _ ihtag ihpayload =>
    rcases sigma_decode_eq_ok.mp hread with ⟨mid, htag, hpayload⟩
    exact (ihpayload _ hpayload).trans (ihtag htag)
  | list max _ ih =>
    rcases list_decode_eq_ok.mp hread with ⟨mid, -, rfl, hitems⟩
    exact (repeated_suffix ih hitems).trans (List.suffix_append ..)
  | option _ ih =>
    cases v with
    | none => exact ⟨_, (option_decode_none.mp hread).symm⟩
    | some a =>
      rcases option_decode_some.mp hread with ⟨mid, rfl, ha⟩
      exact (ih ha).trans (List.suffix_append ..)
  | empty => exact absurd hread empty_decode_ne_ok
  | delay _ ih => exact ih hread
  | ofLevels _ _ ih => exact ih _ hread

/-- Items that are read stand in front as they are written. -/
theorem repeated_bytes_eq {item : Codec α} {vs : List α}
    (h : ∀ {bytes v rest}, item.decode rules bytes = .ok (v, rest) → bytes = item.encode v ++ rest)
    (hread : Decoder.repeated (item.decode rules) vs.length bytes = .ok (vs, rest)) :
    bytes = vs.flatMap item.encode ++ rest := by
  induction vs generalizing bytes with
  | nil => exact (Decoder.repeated_zero_eq_ok.mp hread).2
  | cons v vs ih =>
    rcases Decoder.repeated_succ_eq_ok.mp hread with ⟨w, ws, mid, heq, hw, hws⟩
    cases heq
    rw [h hw, ih hws, List.flatMap_cons, List.append_assoc]

/-- Where every kind must be known, a value is read from its encoding only. -/
theorem bytes_eq_encode_append (h : Composed lenient codec)
    (hstrict : lenient = false ∨ rules.knownKindsOnly = true)
    (hread : codec.decode rules bytes = .ok (v, rest)) : bytes = codec.encode v ++ rest := by
  induction h generalizing bytes rest with
  | uint32 => exact uint32_decode_eq_ok.mp hread
  | uint64 => exact uint64_decode_eq_ok.mp hread
  | flag fault => exact flag_decode_eq_ok.mp hread
  | fixed n => exact fixed_decode_eq_ok.mp hread
  | bytes max => exact (bytes_decode_eq_ok.mp hread).2
  | string max => exact (string_decode_eq_ok.mp hread).2
  | constant κ => exact (constant_decode_eq_ok.mp hread).2
  | openConstant title last hlenient =>
    -- the one place where a value may have other bytes than its own
    have hknown : rules.knownKindsOnly = true := by
      rcases hstrict with hno | hyes
      · rw [hno] at hlenient
        cases hlenient
      · exact hyes
    obtain ⟨n, rfl, hfound | ⟨-, hopen, -⟩⟩ := openConstant_decode_eq_ok.mp hread
    · rw [← number_of_ofNumber? hfound]
      rfl
    · rw [hknown] at hopen
      cases hopen
  | arms hsome hof =>
    rcases arms_decode_eq_ok.mp hread with ⟨k, hk, ht⟩
    rcases constant_decode_eq_ok.mp hk with ⟨-, rfl⟩
    rw [← hof k v ht]
    rfl
  | unit => exact unit_decode_eq_ok.mp hread
  | map _ ih => exact ih (map_decode_eq_ok.mp hread)
  | pair _ _ ihfirst ihsecond =>
    rcases pair_decode_eq_ok.mp hread with ⟨mid, hfirst, hsecond⟩
    rw [ihfirst hfirst, ihsecond hsecond]
    exact (List.append_assoc ..).symm
  | sigma _ _ ihtag ihpayload =>
    rcases sigma_decode_eq_ok.mp hread with ⟨mid, htag, hpayload⟩
    rw [ihtag htag, ihpayload _ hpayload]
    exact (List.append_assoc ..).symm
  | list max _ ih =>
    rcases list_decode_eq_ok.mp hread with ⟨mid, -, rfl, hitems⟩
    rw [repeated_bytes_eq ih hitems]
    exact (List.append_assoc ..).symm
  | option _ ih =>
    cases v with
    | none => exact option_decode_none.mp hread
    | some a =>
      rcases option_decode_some.mp hread with ⟨mid, rfl, ha⟩
      rw [ih ha]
      exact (List.append_assoc ..).symm
  | empty => exact absurd hread empty_decode_ne_ok
  | delay _ ih => exact ih hread
  | ofLevels hlevels htower ih =>
    have hdepth := htower.depth_le ((hlevels _).fits_and_length hread).1
    have hbytes := ih _ hread
    rw [htower.encode_eq hdepth] at hbytes
    exact hbytes

/-- A value without ledger keys is read where its own encoding stands in front, and nowhere else. -/
theorem decode_eq_ok_iff (h : Composed false codec) :
    codec.decode rules bytes = .ok (v, rest) ↔
      codec.fits rules v = true ∧ bytes = codec.encode v ++ rest := by
  constructor
  · intro hread
    exact ⟨(h.fits_and_length hread).1, h.bytes_eq_encode_append (Or.inl rfl) hread⟩
  · rintro ⟨hfits, rfl⟩
    exact h.decode_encode hfits rest

/-! ## Strict reading -/

/-- What is read when every kind must be known is read in the same way by every rules of the same
limits. -/
theorem decode_of_strict (h : Composed lenient codec) {strict : Rules}
    (hknown : strict.knownKindsOnly = true) (hlimited : strict.limited = rules.limited)
    (hread : codec.decode strict bytes = .ok (v, rest)) :
    codec.decode rules bytes = .ok (v, rest) := by
  -- the value keeps the same limits, and strict reading has read its own encoding
  have hfits := (h.fits_and_length hread).1
  rw [h.fits_congr hlimited] at hfits
  rw [h.bytes_eq_encode_append (Or.inr hknown) hread]
  exact h.decode_encode hfits rest

/-! ## Whole inputs -/

/-- The encoding of a value that is read is as long as the input, and is read as that value. -/
theorem length_and_decodeWhole_encode (h : Composed lenient codec)
    (hread : codec.decodeWhole bytes = .ok v) :
    (codec.encode v).length = bytes.length ∧ codec.decodeWhole (codec.encode v) = .ok v := by
  rcases h.fits_and_length (Decoder.whole_eq_ok.mp hread) with ⟨hfits, hlength⟩
  exact ⟨hlength.symm, h.decodeWhole_encode hfits⟩

/-- Where every kind must be known anyway, the input is the encoding of the value that is read. -/
theorem encode_eq (h : Composed false codec) (hread : codec.decodeWhole bytes = .ok v) :
    codec.encode v = bytes := by
  have hbytes := h.bytes_eq_encode_append (Or.inl rfl) (Decoder.whole_eq_ok.mp hread)
  rw [List.append_nil] at hbytes
  exact hbytes.symm

/-- The input is the encoding of the value that is read exactly if it is read strictly as well. -/
theorem encode_eq_iff (h : Composed lenient codec) (hread : codec.decodeWhole bytes = .ok v) :
    codec.encode v = bytes ↔ ∃ w, Decoder.whole (codec.decode .strict) bytes = .ok w := by
  have hdecode := Decoder.whole_eq_ok.mp hread
  have hlimited : Rules.strict.limited = Rules.standard.limited := rfl
  have hknown : Rules.strict.knownKindsOnly = true := rfl
  constructor
  · intro heq
    -- the same limits hold when all kinds must be known
    have hfits := (h.fits_congr hlimited v).trans (h.fits_and_length hdecode).1
    have hown := h.decode_encode hfits []
    rw [List.append_nil, heq] at hown
    exact ⟨v, Decoder.whole_eq_ok.mpr hown⟩
  · rintro ⟨w, hw⟩
    replace hw := Decoder.whole_eq_ok.mp hw
    -- strict reading finds the value that was read
    have hsame := h.decode_of_strict hknown hlimited hw
    rw [hdecode] at hsame
    cases hsame
    have hbytes := h.bytes_eq_encode_append (Or.inr hknown) hw
    rw [List.append_nil] at hbytes
    exact hbytes.symm

/-- A value is read from some bytes exactly if it keeps the limits. -/
theorem readable_iff (h : Composed lenient codec) :
    codec.Readable v ↔ codec.fits .standard v = true := by
  constructor
  · rintro ⟨bytes, hread⟩
    exact (h.fits_and_length (Decoder.whole_eq_ok.mp hread)).1
  · intro hfits
    exact ⟨codec.encode v, h.decodeWhole_encode hfits⟩

end Composed

end Codec

end LedgerTx
