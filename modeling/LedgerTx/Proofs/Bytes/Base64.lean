import LedgerTx.Bytes.Base64
import LedgerTx.Proofs.Bytes.Ascii
import LedgerTx.Proofs.Text.Blank

namespace LedgerTx.Base64

/-! # Reading base64 that was written

Each group of three bytes is read back from its four symbols, and the last one from as many symbols as
its bytes take. -/

/-! ## Symbols -/

/-- Each of the 64 symbols is a printed ASCII character and has its number. -/
theorem symbol_cases {n : Nat} (h : n < 64) :
    (symbol n).toNat < 0x80 ∧ Blank.isBlank (symbol n) = false
      ∧ Utf8.byteOf (symbol n) ≠ pad ∧ symbolValue? (Utf8.byteOf (symbol n)) = some n := by
  have hall : ∀ i : Fin 64, (symbol i).toNat < 0x80 ∧ Blank.isBlank (symbol i) = false
      ∧ Utf8.byteOf (symbol i) ≠ pad ∧ symbolValue? (Utf8.byteOf (symbol i)) = some i.val := by
    -- 64 cases
    decide
  exact hall ⟨n, h⟩

/-- A symbol is read as its number, wherever it stands. -/
theorem readSymbol_symbol {n : Nat} (h : n < 64) (index : Nat) :
    readSymbol index (Utf8.byteOf (symbol n)) = .ok n := by
  rw [readSymbol, (symbol_cases h).2.2.2]

/-- A symbol of the last group is taken up unless padding stands before it. -/
theorem push_symbol {n : Nat} (h : n < 64) (symbols : List (UInt8 × Nat)) (place index : Nat) :
    Group.push ⟨symbols, none, 0⟩ place index (Utf8.byteOf (symbol n))
      = .ok ⟨(Utf8.byteOf (symbol n), n) :: symbols, none, 0⟩ := by
  rw [Group.push, if_neg (symbol_cases h).2.2.1]
  dsimp only
  rw [readSymbol_symbol h]
  rfl

/-- Padding of the last group is counted from the third place on. -/
theorem push_pad {group : Group} {place : Nat} (h : 2 ≤ place) (index : Nat) :
    group.push place index pad
      = .ok { group with padStart := group.padStart.or (some index), padCount := group.padCount + 1 } := by
  rw [Group.push, if_pos rfl, if_neg (Nat.not_lt.mpr h)]

/-! ## The last group -/

/-- Symbols of the last group are taken up one after the other. -/
theorem read_symbols {numbers : List Nat} (h : ∀ n ∈ numbers, n < 64) (symbols : List (UInt8 × Nat))
    (start place : Nat) (rest : List UInt8) :
    Group.read ⟨symbols, none, 0⟩ start place
        (numbers.map (fun n => Utf8.byteOf (symbol n)) ++ rest)
      = Group.read ⟨(numbers.map fun n => (Utf8.byteOf (symbol n), n)).reverse ++ symbols, none, 0⟩
          start (place + numbers.length) rest := by
  induction numbers generalizing symbols place with
  | nil => rfl
  | cons n numbers ih =>
    have hn := h n (List.mem_cons_self ..)
    have hrest := ih (fun m hm => h m (List.mem_cons_of_mem n hm))
      ((Utf8.byteOf (symbol n), n) :: symbols) (place + 1)
    rw [List.map_cons, List.cons_append, Group.read, push_symbol hn]
    show Group.read ⟨(Utf8.byteOf (symbol n), n) :: symbols, none, 0⟩ start (place + 1) _ = _
    rw [hrest, List.map_cons, List.reverse_cons, List.append_assoc, List.length_cons,
      Nat.add_right_comm, Nat.add_assoc]
    rfl

/-- Padding fills the last group up. -/
theorem read_padding (group : Group) {place : Nat} (h : 2 ≤ place) (start count : Nat) :
    ∃ padStart, group.read start place (List.replicate count pad)
      = .ok { group with padStart, padCount := group.padCount + count } := by
  induction count generalizing group place with
  | zero => exact ⟨_, rfl⟩
  | succ count ih =>
    -- only the first padding byte sets where padding starts
    rcases ih { group with
      padStart := group.padStart.or (some (start + place)), padCount := group.padCount + 1 }
      (Nat.le_succ_of_le h) with ⟨padStart, hread⟩
    refine ⟨padStart, ?_⟩
    rw [List.replicate_succ, Group.read, push_pad h]
    refine hread.trans ?_
    rw [Nat.add_assoc, Nat.add_comm 1 count]

/-- A last group is the bytes of its symbols, with as much padding as makes four places. -/
theorem decodeGroups_last {numbers : List Nat} (h : ∀ n ∈ numbers, n < 64)
    (htwo : 2 ≤ numbers.length) (hfour : numbers.length ≤ 4) (start : Nat) :
    ∃ padStart, decodeGroups start
        (numbers.map (fun n => Utf8.byteOf (symbol n)) ++ List.replicate (4 - numbers.length) pad)
      = Group.toBytes ⟨(numbers.map fun n => (Utf8.byteOf (symbol n), n)).reverse, padStart,
          4 - numbers.length⟩ start := by
  have hplace : 2 ≤ 0 + numbers.length := by omega
  rcases read_padding ⟨(numbers.map fun n => (Utf8.byteOf (symbol n), n)).reverse, none, 0⟩ hplace start
    (4 - numbers.length) with ⟨padStart, hread⟩
  refine ⟨padStart, ?_⟩
  unfold decodeGroups
  split
  · -- no group is followed by another
    rename_i heq
    have hlength := congrArg List.length heq
    simp only [List.length_append, List.length_map, List.length_replicate, List.length_cons] at hlength
    omega
  · rw [read_symbols h, List.append_nil, hread, Nat.zero_add]
    rfl

/-! ## Bytes of a group -/

/-- A byte is known from its number, of which all above the eighth bit is cut off. -/
theorem ofNat_eq {n : Nat} {b : UInt8} (h : n % 256 = b.toNat) : UInt8.ofNat n = b := by
  apply UInt8.toNat_inj.mp
  rw [UInt8.toNat_ofNat', h]

/-- A last group of one byte, which leaves four bits of the second symbol over. -/
theorem decodeGroups_one (a : UInt8) (start : Nat) :
    decodeGroups start ((encode [a]).map Utf8.byteOf) = .ok [a] := by
  have ha := a.toNat_lt
  have hbyte : UInt8.ofNat (a.toNat * 16 / 64 * 4 + a.toNat * 16 % 64 / 16) = a := ofNat_eq (by omega)
  -- bits left over must be zeros, or the group is refused
  have hspare : a.toNat * 16 % 64 % 16 = 0 := by omega
  have hlt : ∀ n ∈ [a.toNat * 16 / 64, a.toNat * 16 % 64], n < 64 := by
    simp only [List.forall_mem_cons]
    exact ⟨by omega, by omega, fun n h => absurd h List.not_mem_nil⟩
  rcases decodeGroups_last hlt (Nat.le_refl 2) (Nat.le_add_left 2 2) start with ⟨padStart, hlast⟩
  refine hlast.trans ?_
  simp [Group.toBytes, hspare, hbyte]

/-- A last group of two bytes, which leaves two bits of the third symbol over. -/
theorem decodeGroups_two (a b : UInt8) (start : Nat) :
    decodeGroups start ((encode [a, b]).map Utf8.byteOf) = .ok [a, b] := by
  have ha := a.toNat_lt
  have hb := b.toNat_lt
  obtain ⟨n, hn⟩ : ∃ n, n = (a.toNat * 256 + b.toNat) * 4 := ⟨_, rfl⟩
  have hfirst : UInt8.ofNat (n / 4096 * 4 + n / 64 % 64 / 16) = a := ofNat_eq (by omega)
  have hsecond : UInt8.ofNat (n / 64 % 64 * 16 + n % 64 / 4) = b := ofNat_eq (by omega)
  have hspare : n % 64 % 4 = 0 := by omega
  have hlt : ∀ m ∈ [n / 4096, n / 64 % 64, n % 64], m < 64 := by
    simp only [List.forall_mem_cons]
    exact ⟨by omega, by omega, by omega, fun n h => absurd h List.not_mem_nil⟩
  rcases decodeGroups_last hlt (Nat.le_add_left 2 1) (Nat.le_add_left 3 1) start with ⟨padStart, hlast⟩
  subst hn
  refine hlast.trans ?_
  simp [Group.toBytes, hspare, hfirst, hsecond]

/-- Three bytes are put together from four numbers of six bits. -/
theorem ofNat_group (a b c : UInt8) {n : Nat} (hn : n = (a.toNat * 256 + b.toNat) * 256 + c.toNat) :
    UInt8.ofNat (n / 262144 * 4 + n / 4096 % 64 / 16) = a
      ∧ UInt8.ofNat (n / 4096 % 64 * 16 + n / 64 % 64 / 4) = b
      ∧ UInt8.ofNat (n / 64 % 64 * 64 + n % 64) = c := by
  have ha := a.toNat_lt
  have hb := b.toNat_lt
  have hc := c.toNat_lt
  refine ⟨ofNat_eq ?_, ofNat_eq ?_, ofNat_eq ?_⟩ <;> omega

/-- The four numbers of a group have six bits each. -/
theorem lt_of_group (a b c : UInt8) {n : Nat} (hn : n = (a.toNat * 256 + b.toNat) * 256 + c.toNat) :
    ∀ m ∈ [n / 262144, n / 4096 % 64, n / 64 % 64, n % 64], m < 64 := by
  have ha := a.toNat_lt
  have hb := b.toNat_lt
  have hc := c.toNat_lt
  simp only [List.forall_mem_cons]
  exact ⟨by omega, by omega, by omega, by omega, fun n h => absurd h List.not_mem_nil⟩

/-- A last group of three bytes, which leaves no bits over and needs no padding. -/
theorem decodeGroups_three (a b c : UInt8) (start : Nat) :
    decodeGroups start ((encode [a, b, c]).map Utf8.byteOf) = .ok [a, b, c] := by
  obtain ⟨n, hn⟩ : ∃ n, n = (a.toNat * 256 + b.toNat) * 256 + c.toNat := ⟨_, rfl⟩
  have hlt := lt_of_group a b c hn
  rcases ofNat_group a b c hn with ⟨hfirst, hsecond, hthird⟩
  rcases decodeGroups_last hlt (Nat.le_add_left 2 2) (Nat.le_refl 4) start with ⟨padStart, hlast⟩
  subst hn
  refine hlast.trans ?_
  simp [Group.toBytes, hfirst, hsecond, hthird]

/-! ## Bytes -/

/-- Each group takes four places. -/
theorem length_encode (bytes : List UInt8) : (encode bytes).length % 4 = 0 := by
  induction bytes using encode.induct with
  | case1 a b c rest ih =>
    rw [encode]
    simp only [List.length_cons]
    omega
  | case2 a b => simp [encode]
  | case3 a => simp [encode]
  | case4 => rfl

/-- What is written for a byte string that is not empty begins with a symbol. -/
theorem exists_encode_cons (b : UInt8) (bytes : List UInt8) :
    ∃ n text, n < 64 ∧ encode (b :: bytes) = symbol n :: text := by
  have hb := b.toNat_lt
  match bytes with
  | [] => exact ⟨b.toNat * 16 / 64, _, by omega, rfl⟩
  | [c] =>
    have hc := c.toNat_lt
    exact ⟨(b.toNat * 256 + c.toNat) * 4 / 4096, _, by omega, rfl⟩
  | c :: d :: rest =>
    exact ⟨_, _, lt_of_group b c d rfl _ (List.mem_cons_self ..), rfl⟩

/-- Every character is a symbol or fills up. -/
theorem mem_encode {bytes : List UInt8} {ch : Char} (h : ch ∈ encode bytes) :
    ch = '=' ∨ ∃ n, n < 64 ∧ ch = symbol n := by
  induction bytes using encode.induct with
  | case1 a b c rest ih =>
    -- four symbols of a full group, then those of the rest
    have hlt := lt_of_group a b c rfl
    simp only [List.forall_mem_cons] at hlt
    rw [encode] at h
    simp only [List.mem_cons] at h
    rcases h with rfl | rfl | rfl | rfl | h
    · exact Or.inr ⟨_, hlt.1, rfl⟩
    · exact Or.inr ⟨_, hlt.2.1, rfl⟩
    · exact Or.inr ⟨_, hlt.2.2.1, rfl⟩
    · exact Or.inr ⟨_, hlt.2.2.2.1, rfl⟩
    · exact ih h
  | case2 a b =>
    have ha := a.toNat_lt
    have hb := b.toNat_lt
    simp only [encode, List.mem_cons, List.not_mem_nil, or_false] at h
    rcases h with rfl | rfl | rfl | rfl
    · exact Or.inr ⟨_, by omega, rfl⟩
    · exact Or.inr ⟨_, by omega, rfl⟩
    · exact Or.inr ⟨_, by omega, rfl⟩
    · exact Or.inl rfl
  | case3 a =>
    have ha := a.toNat_lt
    simp only [encode, List.mem_cons, List.not_mem_nil, or_false] at h
    rcases h with rfl | rfl | rfl | rfl
    · exact Or.inr ⟨_, by omega, rfl⟩
    · exact Or.inr ⟨_, by omega, rfl⟩
    · exact Or.inl rfl
    · exact Or.inl rfl
  | case4 => cases h

/-- Groups are read one after the other; only the last one may be filled up. -/
theorem decodeGroups_encode {bytes : List UInt8} (h : bytes ≠ []) (start : Nat) :
    decodeGroups start ((encode bytes).map Utf8.byteOf) = .ok bytes := by
  induction bytes using encode.induct generalizing start with
  | case1 a b c rest ih =>
    cases rest with
    | nil => exact decodeGroups_three a b c start
    | cons d rest =>
      rcases ofNat_group a b c rfl with ⟨hfirst, hsecond, hthird⟩
      have hlt := lt_of_group a b c rfl
      simp only [List.forall_mem_cons] at hlt
      have hrest := ih (List.cons_ne_nil d rest) (start + 4)
      -- another group follows, so this one is not the last
      rcases exists_encode_cons d rest with ⟨m, text, -, htext⟩
      rw [htext, List.map_cons] at hrest
      rw [encode, htext]
      simp only [List.map_cons, decodeGroups, readSymbol_symbol hlt.1, readSymbol_symbol hlt.2.1,
        readSymbol_symbol hlt.2.2.1, readSymbol_symbol hlt.2.2.2.1, hrest]
      show Except.ok (_ :: _ :: _ :: _) = _
      rw [hfirst, hsecond, hthird]
  | case2 a b => exact decodeGroups_two a b start
  | case3 a => exact decodeGroups_one a start
  | case4 => exact absurd rfl h

/-- Bytes are read back from base64. -/
theorem decode_encode (bytes : List UInt8) : decode (encode bytes) = .ok bytes := by
  have hascii : ∀ c ∈ encode bytes, c.toNat < 0x80 := by
    intro c hc
    rcases mem_encode hc with rfl | ⟨n, hn, rfl⟩
    · decide
    · exact (symbol_cases hn).1
  rw [decode, Utf8.encode_of_ascii hascii, decodeBytes]
  have hlength : ((encode bytes).map Utf8.byteOf).length % 4 = 0 := by
    rw [List.length_map, length_encode]
  cases bytes with
  | nil => rfl
  | cons b rest =>
    -- the last byte decides whether the padding is looked at
    split
    · rename_i hnone
      rcases exists_encode_cons b rest with ⟨n, text, -, htext⟩
      rw [htext, List.getLast?_eq_none_iff] at hnone
      cases hnone
    · rw [if_neg, decodeGroups_encode (List.cons_ne_nil b rest)]
      rintro ⟨hone, -⟩
      rw [hlength] at hone
      cases hone

/-- Base64 has no blanks to be cut off. -/
theorem trim_encode (bytes : List UInt8) : Blank.trim (encode bytes) = encode bytes := by
  refine Blank.trim_of_tight (Blank.tight_of_forall fun c hc => ?_)
  rcases mem_encode hc with rfl | ⟨n, hn, rfl⟩
  · decide
  · exact (symbol_cases hn).2.1

end LedgerTx.Base64
