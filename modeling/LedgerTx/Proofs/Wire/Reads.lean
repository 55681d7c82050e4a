import LedgerTx.Proofs.Wire.Decoder

namespace LedgerTx.Codec

/-! # What codecs accept

One equation for each way of putting codecs together.  For single values it says that exactly the
encodings of values that keep the limits are read; for compound values it says how the parts are read
one after another. -/

variable {α β κ : Type} {rules : Rules} {bytes rest : List UInt8}

/-! ## Single values -/

theorem uint32_decode_eq_ok {v : UInt32} :
    uint32.decode rules bytes = .ok (v, rest) ↔ bytes = uint32.encode v ++ rest :=
  Decoder.word_eq_ok 4 (fun _ => UInt32.ofNat_toNat) UInt32.toNat_lt
    fun _ => UInt32.toNat_ofNat_of_lt'

theorem uint64_decode_eq_ok {v : UInt64} :
    uint64.decode rules bytes = .ok (v, rest) ↔ bytes = uint64.encode v ++ rest :=
  Decoder.word_eq_ok 8 (fun _ => UInt64.ofNat_toNat) UInt64.toNat_lt
    fun _ => UInt64.toNat_ofNat_of_lt'

/-- What stands for a value is read where the value's other form is. -/
theorem map_decode_eq_ok {view : Bijection α β} {codec : Codec β} {a : α} :
    (codec.map view).decode rules bytes = .ok (a, rest) ↔
      codec.decode rules bytes = .ok (view.forth a, rest) := by
  constructor
  · intro h
    replace h := Except.bind_eq_ok.mp h
    rcases h with ⟨⟨b, mid⟩, hb, h⟩
    cases h
    rw [view.forth_back, hb]
  · intro h
    refine Except.bind_eq_ok.mpr ⟨_, h, ?_⟩
    show Except.ok (view.back (view.forth a), rest) = _
    rw [view.back_forth]

theorem int32_decode_eq_ok {v : Int32} :
    int32.decode rules bytes = .ok (v, rest) ↔ bytes = int32.encode v ++ rest :=
  map_decode_eq_ok.trans uint32_decode_eq_ok

/-- A flag is read from a zero or a one, and from no other number. -/
theorem flag_decode_eq_ok {fault : UInt32 → DecodeError} {b : Bool} :
    (flag fault).decode rules bytes = .ok (b, rest) ↔ bytes = (flag fault).encode b ++ rest := by
  constructor
  · intro h
    replace h := Except.bind_eq_ok.mp h
    rcases h with ⟨⟨word, mid⟩, hword, h⟩
    rw [uint32_decode_eq_ok] at hword
    subst hword
    dsimp only at h
    -- the number that was read is zero, one or a fault
    split at h
    · rename_i hzero
      cases h
      rw [hzero]
      rfl
    · split at h
      · rename_i hone
        cases h
        rw [hone]
        rfl
      · exact absurd h Decoder.fail_ne_ok
  · rintro rfl
    refine Except.bind_eq_ok.mpr ⟨_, uint32_decode_eq_ok.mpr rfl, ?_⟩
    cases b <;> rfl

theorem fixed_decode_eq_ok {n : Nat} {v : FixedBytes n} :
    (fixed n).decode rules bytes = .ok (v, rest) ↔ bytes = (fixed n).encode v ++ rest :=
  Decoder.fixed_eq_ok

/-- No limit is larger than what four bytes can count. -/
theorem limit_le_maxCount (rules : Rules) (max : Nat) : rules.limit max ≤ Rules.maxCount := by
  unfold Rules.limit
  split
  · exact Nat.min_le_right max Rules.maxCount
  · exact Nat.le_refl Rules.maxCount

/-- A number within a limit is what a count of four bytes says. -/
theorem toNat_ofNat_of_le_limit {n max : Nat} (h : n ≤ rules.limit max) :
    (UInt32.ofNat n).toNat = n := by
  have hmax : n ≤ UInt32.size - 1 := Nat.le_trans h (limit_le_maxCount rules max)
  have hsize : UInt32.size = 2 ^ 32 := rfl
  exact UInt32.toNat_ofNat_of_lt' (by omega)

/-- A count is read where its bytes stand in front, if it keeps the limit. -/
theorem count_decode_eq_ok {what : String} {max n : Nat} :
    (count what max).decode rules bytes = .ok (n, rest) ↔
      n ≤ rules.limit max ∧ bytes = (count what max).encode n ++ rest := by
  constructor
  · intro h
    replace h := Except.bind_eq_ok.mp h
    rcases h with ⟨⟨word, mid⟩, hword, h⟩
    rw [uint32_decode_eq_ok] at hword
    subst hword
    dsimp only at h
    split at h
    · rename_i hle
      cases h
      refine ⟨hle, ?_⟩
      show uint32.encode word ++ rest = uint32.encode (UInt32.ofNat word.toNat) ++ rest
      rw [UInt32.ofNat_toNat]
    · exact absurd h Decoder.fail_ne_ok
  -- within the limit, the four bytes hold the count itself
  · rintro ⟨hle, rfl⟩
    refine Except.bind_eq_ok.mpr ⟨_, uint32_decode_eq_ok.mpr rfl, ?_⟩
    dsimp only
    rw [toNat_ofNat_of_le_limit hle, if_pos hle]
    rfl

/-- A byte string is read from its count, its bytes and the zeros behind them. -/
theorem bytes_decode_eq_ok {max : Nat} {v : List UInt8} :
    (Codec.bytes max).decode rules bytes = .ok (v, rest) ↔
      v.length ≤ rules.limit max ∧ bytes = (Codec.bytes max).encode v ++ rest := by
  constructor
  · intro h
    replace h := Except.bind_eq_ok.mp h
    rcases h with ⟨⟨n, afterCount⟩, hn, h⟩
    rcases count_decode_eq_ok.mp hn with ⟨hle, rfl⟩
    replace h := Except.bind_eq_ok.mp h
    rcases h with ⟨⟨v', afterData⟩, hv, h⟩
    rcases Decoder.take_eq_ok.mp hv with ⟨rfl, rfl⟩
    replace h := Except.bind_eq_ok.mp h
    rcases h with ⟨⟨zeros, afterZeros⟩, hz, h⟩
    rcases Decoder.take_eq_ok.mp hz with ⟨hlen, rfl⟩
    dsimp only at h
    split at h
    · rename_i hall
      cases h
      -- only one filling of that length is accepted
      have hzeros : zeros = List.replicate (padding v.length) 0 := by
        refine List.eq_replicate_iff.mpr ⟨hlen, ?_⟩
        intro b hb
        exact eq_of_beq (List.all_eq_true.mp hall b hb)
      refine ⟨hle, ?_⟩
      rw [hzeros]
      simp only [Codec.bytes, List.append_assoc]
    · exact absurd h Decoder.fail_ne_ok
  · -- the count, the data and the zeros behind it are taken one after the other
    rintro ⟨hle, rfl⟩
    refine Except.bind_eq_ok.mpr ⟨(v.length, v ++ (List.replicate (padding v.length) 0 ++ rest)),
      count_decode_eq_ok.mpr ⟨hle, ?_⟩, ?_⟩
    · simp only [Codec.bytes, List.append_assoc]
    · refine Except.bind_eq_ok.mpr ⟨_, Decoder.take_eq_ok.mpr ⟨rfl, rfl⟩, ?_⟩
      refine Except.bind_eq_ok.mpr
        ⟨_, Decoder.take_eq_ok.mpr ⟨List.length_replicate, rfl⟩, ?_⟩
      dsimp only
      rw [if_pos]
      · rfl
      · simp

/-- A text is read from the byte string of its encoding. -/
theorem string_decode_eq_ok {max : Nat} {s : String} :
    (string max).decode rules bytes = .ok (s, rest) ↔
      (Utf8.encode s).length ≤ rules.limit max ∧ bytes = (string max).encode s ++ rest := by
  constructor
  · intro h
    replace h := Except.bind_eq_ok.mp h
    rcases h with ⟨⟨v, mid⟩, hv, h⟩
    rcases bytes_decode_eq_ok.mp hv with ⟨hle, rfl⟩
    dsimp only at h
    split at h
    · rename_i t ht
      cases h
      -- the decoder takes one encoding of each character only
      have hbytes : Utf8.encode s = v := Utf8.encode_of_decode ht
      rw [hbytes]
      refine ⟨hle, ?_⟩
      show _ = (Codec.bytes max).encode (Utf8.encode s) ++ rest
      rw [hbytes]
    · exact absurd h Decoder.fail_ne_ok
  · rintro ⟨hle, rfl⟩
    refine Except.bind_eq_ok.mpr ⟨_, bytes_decode_eq_ok.mpr ⟨hle, rfl⟩, ?_⟩
    dsimp only
    rw [Utf8.decode_encode]
    rfl

/-! ## Constants -/

section Constants

variable [Enumeration κ]

/-- The constant found for a number has that number. -/
theorem number_of_ofNumber? {n : Int32} {k : κ} (h : Enumeration.ofNumber? n = some k) :
    Enumeration.number k = n := by
  have := List.find?_some h
  exact eq_of_beq this

/-- A constant is read from its number. -/
theorem constant_decode_eq_ok {k : κ} :
    (constant κ).decode rules bytes = .ok (k, rest) ↔
      Enumeration.ofNumber? (Enumeration.number k) = some k
        ∧ bytes = (constant κ).encode k ++ rest := by
  constructor
  · intro h
    replace h := Except.bind_eq_ok.mp h
    rcases h with ⟨⟨n, mid⟩, hn, h⟩
    rw [int32_decode_eq_ok] at hn
    subst hn
    dsimp only at h
    split at h
    · rename_i k' hk
      cases h
      -- the constant that is found has the number that was read
      have hnumber := number_of_ofNumber? hk
      rw [← hnumber] at hk ⊢
      exact ⟨hk, rfl⟩
    · exact absurd h Decoder.fail_ne_ok
  · rintro ⟨hk, rfl⟩
    refine Except.bind_eq_ok.mpr ⟨_, int32_decode_eq_ok.mpr rfl, ?_⟩
    dsimp only
    rw [hk]
    rfl

/-- A constant of an open set is read from its number, or as the last one from an unknown number. -/
theorem openConstant_decode_eq_ok {title : String} {last k : κ} :
    (openConstant title last).decode rules bytes = .ok (k, rest) ↔
      ∃ n, bytes = int32.encode n ++ rest ∧
        (Enumeration.ofNumber? n = some k
          ∨ Enumeration.ofNumber? (κ := κ) n = none ∧ rules.knownKindsOnly = false ∧ k = last) := by
  constructor
  · intro h
    replace h := Except.bind_eq_ok.mp h
    rcases h with ⟨⟨n, mid⟩, hn, h⟩
    rw [int32_decode_eq_ok] at hn
    subst hn
    dsimp only at h
    split at h
    · rename_i k' hk
      cases h
      exact ⟨n, rfl, Or.inl hk⟩
    · -- an unknown number: refused, or read as the last constant
      rename_i hnone
      split at h
      · exact absurd h Decoder.fail_ne_ok
      · rename_i hrules
        cases h
        exact ⟨n, rfl, Or.inr ⟨hnone, eq_false_of_ne_true hrules, rfl⟩⟩
  · rintro ⟨n, rfl, hk⟩
    refine Except.bind_eq_ok.mpr ⟨_, int32_decode_eq_ok.mpr rfl, ?_⟩
    dsimp only
    rcases hk with hk | ⟨hnone, hrules, rfl⟩
    · rw [hk]
      rfl
    · rw [hnone, hrules]
      rfl

/-- An arm is read where a constant is that chooses it. -/
theorem arms_decode_eq_ok {τ : Type} {title : String} {constantOf : τ → κ} {arm? : κ → Option τ}
    {t : τ} :
    (arms title constantOf arm?).decode rules bytes = .ok (t, rest) ↔
      ∃ k, (constant κ).decode rules bytes = .ok (k, rest) ∧ arm? k = some t := by
  constructor
  · intro h
    replace h := Except.bind_eq_ok.mp h
    rcases h with ⟨⟨k, mid⟩, hk, h⟩
    dsimp only at h
    split at h
    · rename_i t' ht
      cases h
      exact ⟨k, hk, ht⟩
    · exact absurd h Decoder.fail_ne_ok
  · rintro ⟨k, hk, ht⟩
    refine Except.bind_eq_ok.mpr ⟨_, hk, ?_⟩
    dsimp only
    rw [ht]
    rfl

end Constants

/-! ## Compound values -/

@[simp]
theorem pair_encode {first : Codec α} {second : Codec β} {v : α × β} :
    (pair first second).encode v = first.encode v.1 ++ second.encode v.2 := rfl

@[simp]
theorem sigma_encode {π : κ → Type} {tag : Codec κ} {payload : (k : κ) → Codec (π k)} {v : Sigma π} :
    (sigma tag payload).encode v = tag.encode v.1 ++ (payload v.1).encode v.2 := rfl

@[simp]
theorem list_encode {max : Nat} {item : Codec α} {vs : List α} :
    (list max item).encode vs = (count "array" max).encode vs.length ++ vs.flatMap item.encode := rfl

@[simp]
theorem option_encode_some {item : Codec α} {a : α} :
    (option item).encode (some a) = (flag .invalidPresence).encode true ++ item.encode a := rfl

/-- Nothing is read from no bytes. -/
theorem unit_decode_eq_ok {u : Unit} :
    unit.decode rules bytes = .ok (u, rest) ↔ bytes = rest := by
  constructor
  · intro h
    cases h
    rfl
  · rintro rfl
    rfl

/-- A pair is read part by part. -/
theorem pair_decode_eq_ok {first : Codec α} {second : Codec β} {v : α × β} :
    (pair first second).decode rules bytes = .ok (v, rest) ↔
      ∃ mid, first.decode rules bytes = .ok (v.1, mid)
        ∧ second.decode rules mid = .ok (v.2, rest) := by
  constructor
  · intro h
    replace h := Except.bind_eq_ok.mp h
    rcases h with ⟨⟨a, mid⟩, ha, h⟩
    replace h := Except.bind_eq_ok.mp h
    rcases h with ⟨⟨b, mid'⟩, hb, h⟩
    cases h
    exact ⟨mid, ha, hb⟩
  · rintro ⟨mid, ha, hb⟩
    exact Except.bind_eq_ok.mpr ⟨_, ha, Except.bind_eq_ok.mpr ⟨_, hb, rfl⟩⟩

/-- The first part says how the second one is read. -/
theorem sigma_decode_eq_ok {π : κ → Type} {tag : Codec κ} {payload : (k : κ) → Codec (π k)}
    {v : Sigma π} :
    (sigma tag payload).decode rules bytes = .ok (v, rest) ↔
      ∃ mid, tag.decode rules bytes = .ok (v.1, mid)
        ∧ (payload v.1).decode rules mid = .ok (v.2, rest) := by
  constructor
  · intro h
    replace h := Except.bind_eq_ok.mp h
    rcases h with ⟨⟨k, mid⟩, hk, h⟩
    replace h := Except.bind_eq_ok.mp h
    rcases h with ⟨⟨b, mid'⟩, hb, h⟩
    cases h
    exact ⟨mid, hk, hb⟩
  · rintro ⟨mid, hk, hb⟩
    exact Except.bind_eq_ok.mpr ⟨_, hk, Except.bind_eq_ok.mpr ⟨_, hb, rfl⟩⟩

/-- Reading a number of values gives that many. -/
theorem length_of_repeated_eq_ok {decode : Decoder α} {n : Nat} {vs : List α}
    (h : Decoder.repeated decode n bytes = .ok (vs, rest)) : vs.length = n := by
  induction n generalizing bytes vs with
  | zero =>
    rcases Decoder.repeated_zero_eq_ok.mp h with ⟨rfl, -⟩
    rfl
  | succ n ih =>
    rcases Decoder.repeated_succ_eq_ok.mp h with ⟨w, ws, mid, rfl, -, hws⟩
    rw [List.length_cons, ih hws]

/-- A list is read from its count and as many items, if the count keeps the limit. -/
theorem list_decode_eq_ok {max : Nat} {item : Codec α} {vs : List α} :
    (list max item).decode rules bytes = .ok (vs, rest) ↔
      ∃ mid, vs.length ≤ rules.limit max ∧ bytes = (count "array" max).encode vs.length ++ mid
        ∧ Decoder.repeated (item.decode rules) vs.length mid = .ok (vs, rest) := by
  constructor
  · intro h
    replace h := Except.bind_eq_ok.mp h
    rcases h with ⟨⟨n, mid⟩, hn, h⟩
    rcases count_decode_eq_ok.mp hn with ⟨hle, rfl⟩
    -- the count that was read is the length of what was read
    rcases length_of_repeated_eq_ok h with rfl
    exact ⟨mid, hle, rfl, h⟩
  · rintro ⟨mid, hle, rfl, h⟩
    exact Except.bind_eq_ok.mpr ⟨_, count_decode_eq_ok.mpr ⟨hle, rfl⟩, h⟩

/-- An absent value is a flag that says so. -/
theorem option_decode_none {item : Codec α} :
    (option item).decode rules bytes = .ok (none, rest) ↔
      bytes = (flag .invalidPresence).encode false ++ rest := by
  constructor
  · intro h
    replace h := Except.bind_eq_ok.mp h
    rcases h with ⟨⟨present, mid⟩, hp, h⟩
    rw [flag_decode_eq_ok] at hp
    subst hp
    cases present with
    | false =>
      cases h
      rfl
    | true =>
      replace h := Except.bind_eq_ok.mp h
      rcases h with ⟨⟨a, mid'⟩, -, h⟩
      cases h
  · rintro rfl
    exact Except.bind_eq_ok.mpr ⟨_, flag_decode_eq_ok.mpr rfl, rfl⟩

/-- A value that is present stands behind its flag. -/
theorem option_decode_some {item : Codec α} {a : α} :
    (option item).decode rules bytes = .ok (some a, rest) ↔
      ∃ mid, bytes = (flag .invalidPresence).encode true ++ mid
        ∧ item.decode rules mid = .ok (a, rest) := by
  constructor
  · intro h
    replace h := Except.bind_eq_ok.mp h
    rcases h with ⟨⟨present, mid⟩, hp, h⟩
    rw [flag_decode_eq_ok] at hp
    subst hp
    cases present with
    | false => cases h
    | true =>
      replace h := Except.bind_eq_ok.mp h
      rcases h with ⟨⟨a', mid'⟩, ha, h⟩
      cases h
      exact ⟨mid, rfl, ha⟩
  · rintro ⟨mid, rfl, ha⟩
    exact Except.bind_eq_ok.mpr
      ⟨_, flag_decode_eq_ok.mpr rfl, Except.bind_eq_ok.mpr ⟨_, ha, rfl⟩⟩

theorem empty_decode_ne_ok {r : α × List UInt8} : empty.decode rules bytes ≠ .ok r :=
  Decoder.fail_ne_ok

end LedgerTx.Codec
