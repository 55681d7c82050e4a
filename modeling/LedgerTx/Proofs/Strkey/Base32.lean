import LedgerTx.Strkey.Base32
import LedgerTx.Proofs.Bytes.Ascii
import LedgerTx.Proofs.Bytes.Bits

namespace LedgerTx.Base32

/-! # Base32 by bits

What the shift buffer does, said of the bits themselves: five at a time are a symbol, eight at a time a
byte. -/

/-! ## Symbols -/

/-- Each of the 32 symbols is a letter or digit, and has its number. -/
theorem symbol_cases {n : Nat} (h : n < 32) :
    (symbol n).isAlphanum = true ∧ symbolValue? (Utf8.byteOf (symbol n)) = some n := by
  have hall : ∀ i : Fin 32,
      (symbol i).isAlphanum = true ∧ symbolValue? (Utf8.byteOf (symbol i)) = some i.val := by
    decide
  exact hall ⟨n, h⟩

/-! ## Groups -/

/-- The numbers that bits spell five at a time; zeros fill the last five. -/
def fives : List Bool → List Nat
  | a :: b :: c :: d :: e :: rest => Bits.toNat [a, b, c, d, e] :: fives rest
  | [] => []
  | rest => [Bits.toNat (rest ++ List.replicate (5 - rest.length) false)]

/-- The bytes that bits spell eight at a time; fewer at the end are dropped. -/
def eights : List Bool → List UInt8
  | a :: b :: c :: d :: e :: f :: g :: h :: rest =>
    UInt8.ofNat (Bits.toNat [a, b, c, d, e, f, g, h]) :: eights rest
  | _ => []

/-- The bits of bytes. -/
def bitsOf (bytes : List UInt8) : List Bool :=
  bytes.flatMap fun b => Bits.ofNat 8 b.toNat

theorem bitsOf_cons (b : UInt8) (bytes : List UInt8) :
    bitsOf (b :: bytes) = Bits.ofNat 8 b.toNat ++ bitsOf bytes :=
  List.flatMap_cons

/-- Eight bits a byte. -/
theorem length_bitsOf (bytes : List UInt8) : (bitsOf bytes).length = bytes.length * 8 := by
  induction bytes with
  | nil => rfl
  | cons b bytes ih =>
    rw [bitsOf_cons, List.length_append, Bits.length_ofNat, ih, List.length_cons]
    omega

/-- Five bits in front are the first group. -/
theorem fives_append {five : List Bool} (h : five.length = 5) (rest : List Bool) :
    fives (five ++ rest) = Bits.toNat five :: fives rest := by
  match five, h with
  | [_, _, _, _, _], _ => rfl

theorem eights_append {eight : List Bool} (h : eight.length = 8) (rest : List Bool) :
    eights (eight ++ rest) = UInt8.ofNat (Bits.toNat eight) :: eights rest := by
  match eight, h with
  | [_, _, _, _, _, _, _, _], _ => rfl

theorem eights_of_lt {bits : List Bool} (h : bits.length < 8) : eights bits = [] := by
  match bits, h with
  | [], _ | [_], _ | [_, _], _ | [_, _, _], _ | [_, _, _, _], _ | [_, _, _, _, _], _
  | [_, _, _, _, _, _], _ | [_, _, _, _, _, _, _], _ => rfl

/-- Fewer bits than a group has are filled up with zeros. -/
theorem fives_of_lt {bits : List Bool} (hpos : 0 < bits.length) (hlt : bits.length < 5) :
    fives bits = [Bits.toNat (bits ++ List.replicate (5 - bits.length) false)] := by
  match bits, hpos, hlt with
  | [_], _, _ | [_, _], _, _ | [_, _, _], _, _ | [_, _, _, _], _, _ => rfl

/-- What is left after whole groups of five. -/
theorem length_of_rest {rest : List Bool}
    (hfive : ∀ (a b c d e : Bool) (tail : List Bool), rest = a :: b :: c :: d :: e :: tail → False)
    (hnil : rest = [] → False) : 0 < rest.length ∧ rest.length < 5 := by
  match rest, hfive, hnil with
  | [], _, hnil => exact absurd rfl hnil
  | [_], _, _ | [_, _], _, _ | [_, _, _], _, _ | [_, _, _, _], _, _ => simp
  | a :: b :: c :: d :: e :: rest, hfive, _ => exact absurd rfl (hfive a b c d e rest)

/-- The bits of the groups are the bits, with fewer than five zeros after them. -/
theorem exists_bits_fives (bits : List Bool) :
    ∃ zeros, zeros < 5 ∧
      (fives bits).flatMap (Bits.ofNat 5) = bits ++ List.replicate zeros false := by
  induction bits using fives.induct with
  | case1 a b c d e rest ih =>
    rcases ih with ⟨zeros, hlt, hbits⟩
    refine ⟨zeros, hlt, ?_⟩
    rw [fives, List.flatMap_cons, hbits]
    have hfive : Bits.ofNat 5 (Bits.toNat [a, b, c, d, e]) = [a, b, c, d, e] :=
      Bits.ofNat_toNat [a, b, c, d, e]
    rw [hfive]
    rfl
  | case2 => exact ⟨0, by decide, rfl⟩
  | case3 rest hfive hnil =>
    -- the last group is filled up with zeros
    have hlen := length_of_rest hfive hnil
    have hfill : (rest ++ List.replicate (5 - rest.length) false).length = 5 := by
      rw [List.length_append, List.length_replicate]
      omega
    refine ⟨5 - rest.length, by omega, ?_⟩
    rw [fives_of_lt hlen.1 hlen.2, List.flatMap_singleton]
    have hread := Bits.ofNat_toNat (rest ++ List.replicate (5 - rest.length) false)
    rw [hfill] at hread
    exact hread

/-- Bytes are read back from their bits, if fewer than eight bits follow. -/
theorem eights_bitsOf (bytes : List UInt8) {rest : List Bool} (h : rest.length < 8) :
    eights (bitsOf bytes ++ rest) = bytes := by
  induction bytes with
  | nil => exact eights_of_lt h
  | cons b bytes ih =>
    have hbyte : UInt8.ofNat (Bits.toNat (Bits.ofNat 8 b.toNat)) = b := by
      rw [Bits.toNat_ofNat, Nat.mod_eq_of_lt b.toNat_lt, UInt8.ofNat_toNat]
    rw [bitsOf_cons, List.append_assoc, eights_append (Bits.length_ofNat 8 _), hbyte, ih]

/-! ## The buffer -/

namespace Buffer

/-- The bits still to be written. -/
def liveBits (buffer : Buffer) : List Bool :=
  Bits.ofNat buffer.live buffer.bits.toNat

@[simp]
theorem length_liveBits (buffer : Buffer) : buffer.liveBits.length = buffer.live :=
  Bits.length_ofNat _ _

theorem toNat_shift {width : Nat} (h : width < 32) : (UInt32.ofNat width).toNat % 32 = width := by
  rw [UInt32.toNat_ofNat']
  omega

/-- New bits stand behind those that are live, as long as the word holds them all. -/
theorem liveBits_push {buffer : Buffer} {width : Nat} {value : UInt32} (hwidth : width < 32)
    (hfit : buffer.live + width ≤ 32) (hvalue : value.toNat < 2 ^ width) :
    (buffer.push width value).liveBits = buffer.liveBits ++ Bits.ofNat width value.toNat := by
  have hword : (buffer.push width value).bits.toNat
      = buffer.bits.toNat <<< width % 2 ^ 32 ||| value.toNat := by
    show ((buffer.bits <<< UInt32.ofNat width) ||| value).toNat = _
    rw [UInt32.toNat_or, UInt32.toNat_shiftLeft, toNat_shift hwidth]
  -- above `width` stand the bits that were live, below it those of the value
  have hhigh : ∀ i < buffer.live,
      ((buffer.push width value).bits.toNat >>> width).testBit i = buffer.bits.toNat.testBit i := by
    intro i hi
    have hroom : width + i < 32 := by omega
    have hnone : value.toNat.testBit (width + i) = false := by
      refine Nat.testBit_lt_two_pow (Nat.lt_of_lt_of_le hvalue ?_)
      exact Nat.pow_le_pow_right (by decide) (Nat.le_add_right width i)
    rw [Nat.testBit_shiftRight, hword, Nat.testBit_or, hnone, Bool.or_false,
      Nat.testBit_mod_two_pow, decide_eq_true hroom, Bool.true_and, Nat.testBit_shiftLeft,
      decide_eq_true (Nat.le_add_right width i), Bool.true_and, Nat.add_sub_cancel_left]
  have hlow : ∀ i < width,
      (buffer.push width value).bits.toNat.testBit i = value.toNat.testBit i := by
    intro i hi
    have hzero : (buffer.bits.toNat <<< width).testBit i = false := by
      rw [Nat.testBit_shiftLeft, decide_eq_false (Nat.not_le_of_lt hi), Bool.false_and]
    rw [hword, Nat.testBit_or, Nat.testBit_mod_two_pow, hzero, Bool.and_false, Bool.false_or]
  have hlive : (buffer.push width value).live = buffer.live + width := rfl
  unfold liveBits
  rw [hlive, Bits.ofNat_add, Bits.ofNat_congr hhigh, Bits.ofNat_congr hlow]

/-- The front is the highest of the live bits, and what is left are the others. -/
theorem liveBits_front {buffer : Buffer} {width : Nat} (hle : width ≤ buffer.live)
    (hfit : buffer.live - width < 32) :
    buffer.liveBits = Bits.ofNat width (buffer.front width) ++ (buffer.pop width).liveBits := by
  have hfront : Bits.ofNat width (buffer.front width)
      = Bits.ofNat width (buffer.bits.toNat >>> (buffer.live - width)) := by
    unfold front
    rw [Nat.one_shiftLeft, Bits.ofNat_mod_two_pow, UInt32.toNat_shiftRight, toNat_shift hfit]
  have hlive : buffer.live = width + (buffer.live - width) := (Nat.add_sub_cancel' hle).symm
  -- the live bits are those in front and those behind
  have hsplit := Bits.ofNat_add width (buffer.live - width) buffer.bits.toNat
  rw [← hlive] at hsplit
  rw [hfront]
  exact hsplit

/-- Zeros fill up the last bits. -/
theorem ofNat_padded {buffer : Buffer} {width : Nat} (hle : buffer.live ≤ width)
    (hwidth : width ≤ 32) (hpos : 0 < buffer.live) :
    Bits.ofNat width (buffer.padded width)
      = buffer.liveBits ++ List.replicate (width - buffer.live) false := by
  have hshift : width - buffer.live < 32 := by omega
  have hword : (buffer.bits <<< UInt32.ofNat (width - buffer.live)).toNat
      = buffer.bits.toNat <<< (width - buffer.live) % 2 ^ 32 := by
    rw [UInt32.toNat_shiftLeft, toNat_shift hshift]
  -- the live bits move up, and zeros stand below them
  have hhigh : ∀ i < buffer.live,
      ((buffer.bits.toNat <<< (width - buffer.live) % 2 ^ 32) >>> (width - buffer.live)).testBit i
        = buffer.bits.toNat.testBit i := by
    intro i hi
    have hroom : width - buffer.live + i < 32 := by omega
    rw [Nat.testBit_shiftRight, Nat.testBit_mod_two_pow, decide_eq_true hroom, Bool.true_and,
      Nat.testBit_shiftLeft, decide_eq_true (Nat.le_add_right _ i), Bool.true_and,
      Nat.add_sub_cancel_left]
  have hlow : ∀ i < width - buffer.live,
      (buffer.bits.toNat <<< (width - buffer.live) % 2 ^ 32).testBit i = Nat.testBit 0 i := by
    intro i hi
    rw [Nat.testBit_mod_two_pow, Nat.testBit_shiftLeft, decide_eq_false (Nat.not_le_of_lt hi),
      Bool.false_and, Bool.and_false, Nat.zero_testBit]
  have hlive : width = buffer.live + (width - buffer.live) := (Nat.add_sub_cancel' hle).symm
  unfold padded liveBits
  rw [Nat.one_shiftLeft, Bits.ofNat_mod_two_pow, hword, ← Bits.ofNat_zero, ← Bits.ofNat_congr hlow,
    ← Bits.ofNat_congr hhigh, ← Bits.ofNat_add, ← hlive]

end Buffer

/-! ## Writing -/

/-- Draining writes whole groups and leaves fewer than five bits. -/
theorem drain_spec {buffer : Buffer} (hfit : buffer.live ≤ 32) (rest : List Bool) :
    (drain buffer).2.live < 5 ∧
      (fives (buffer.liveBits ++ rest)).map symbol
        = (drain buffer).1 ++ (fives ((drain buffer).2.liveBits ++ rest)).map symbol := by
  -- one step of draining takes the front five off the live bits
  fun_induction drain buffer with
  -- a group is written, and draining goes on with the others
  | case1 buffer hfive symbols left hdrain ih =>
    have hpop : (buffer.pop 5).live = buffer.live - 5 := rfl
    rcases ih (by omega) with ⟨hlive, hsymbols⟩
    have hfront : buffer.front 5 < 2 ^ 5 := Nat.mod_lt _ (by decide)
    have hvalue : Bits.toNat (Bits.ofNat 5 (buffer.front 5)) = buffer.front 5 := by
      rw [Bits.toNat_ofNat, Nat.mod_eq_of_lt hfront]
    refine ⟨by rw [hdrain] at hlive; exact hlive, ?_⟩
    rw [Buffer.liveBits_front hfive (by omega), List.append_assoc,
      fives_append (Bits.length_ofNat 5 _), hvalue, List.map_cons, hsymbols, hdrain]
    rfl
  | case2 buffer hfive => exact ⟨Nat.lt_of_not_le hfive, rfl⟩

/-- What is written is the live bits and those of the bytes after them, five at a time. -/
theorem encodeFrom_eq {buffer : Buffer} (hlive : buffer.live < 5) (bytes : List UInt8) :
    encodeFrom buffer bytes = (fives (buffer.liveBits ++ bitsOf bytes)).map symbol := by
  -- between two bytes fewer than five bits are live
  induction bytes generalizing buffer with
  | nil =>
    have hnil : buffer.liveBits ++ bitsOf [] = buffer.liveBits := List.append_nil _
    rw [hnil, encodeFrom]
    split
    -- the last bits are filled up to a group
    · rename_i hpos
      have hlength : buffer.liveBits.length = buffer.live := buffer.length_liveBits
      have hpadded : buffer.padded 5 < 2 ^ 5 := Nat.mod_lt _ (by decide)
      rw [fives_of_lt (by omega) (by omega), hlength,
        ← Buffer.ofNat_padded (Nat.le_of_lt hlive) (by decide) hpos, Bits.toNat_ofNat,
        Nat.mod_eq_of_lt hpadded]
      rfl
    · rename_i hzero
      have hempty : buffer.liveBits = [] := by
        refine List.eq_nil_of_length_eq_zero ?_
        rw [buffer.length_liveBits]
        omega
      rw [hempty]
      rfl
  | cons b bytes ih =>
    have hbyte : b.toUInt32.toNat < 2 ^ 8 := by
      rw [UInt8.toNat_toUInt32]
      exact b.toNat_lt
    have hpush : (buffer.push 8 b.toUInt32).liveBits
        = buffer.liveBits ++ Bits.ofNat 8 b.toUInt32.toNat :=
      Buffer.liveBits_push (by decide) (by omega) hbyte
    rw [UInt8.toNat_toUInt32] at hpush
    have hfit : (buffer.push 8 b.toUInt32).live ≤ 32 := by
      show buffer.live + 8 ≤ 32
      omega
    rcases drain_spec hfit (bitsOf bytes) with ⟨hleft, hsymbols⟩
    rw [bitsOf_cons, ← List.append_assoc, ← hpush, hsymbols, ← ih hleft]
    rfl

/-- Bytes are written as the symbols for their bits, five at a time. -/
theorem encode_eq (bytes : List UInt8) : encode bytes = (fives (bitsOf bytes)).map symbol := by
  have hempty : Buffer.empty.live < 5 := by decide
  exact encodeFrom_eq hempty bytes

/-! ## Reading -/

/-- Five bits spell a number below 32. -/
theorem lt_of_mem_fives {bits : List Bool} {n : Nat} (h : n ∈ fives bits) : n < 32 := by
  induction bits using fives.induct with
  | case1 a b c d e rest ih =>
    rcases List.mem_cons.mp h with rfl | hrest
    · exact Bits.toNat_lt [a, b, c, d, e]
    · exact ih hrest
  | case2 => cases h
  | case3 rest hfive hnil =>
    have hlen := length_of_rest hfive hnil
    rw [fives_of_lt hlen.1 hlen.2, List.mem_singleton] at h
    have hlt := Bits.toNat_lt (rest ++ List.replicate (5 - rest.length) false)
    rw [List.length_append, List.length_replicate, Nat.add_sub_cancel' (Nat.le_of_lt hlen.2)] at hlt
    rw [h]
    exact hlt

/-- Symbols are read as the bytes of their bits, eight at a time. -/
theorem decodeFrom_symbols {buffer : Buffer} (hlive : buffer.live < 8) {numbers : List Nat}
    (h : ∀ n ∈ numbers, n < 32) :
    decodeFrom buffer (numbers.map fun n => Utf8.byteOf (symbol n))
      = .ok (eights (buffer.liveBits ++ numbers.flatMap (Bits.ofNat 5))) := by
  -- between two symbols fewer than eight bits are live
  induction numbers generalizing buffer with
  | nil =>
    have hshort : buffer.liveBits.length < 8 := by
      rw [buffer.length_liveBits]
      exact hlive
    rw [List.flatMap_nil, List.append_nil, eights_of_lt hshort]
    rfl
  | cons n numbers ih =>
    have hn := h n (List.mem_cons_self ..)
    have hnumbers : ∀ m ∈ numbers, m < 32 := fun m hm => h m (List.mem_cons_of_mem n hm)
    have hword : (UInt32.ofNat n).toNat = n := by
      rw [UInt32.toNat_ofNat']
      omega
    have hpush : (buffer.push 5 (UInt32.ofNat n)).liveBits
        = buffer.liveBits ++ Bits.ofNat 5 (UInt32.ofNat n).toNat :=
      Buffer.liveBits_push (by decide) (by omega) (by omega)
    have hlivePush : (buffer.push 5 (UInt32.ofNat n)).live = buffer.live + 5 := rfl
    rw [hword] at hpush
    rw [List.map_cons, decodeFrom, (symbol_cases hn).2, List.flatMap_cons, ← List.append_assoc,
      ← hpush]
    dsimp only
    -- with eight live bits a byte is written, and with fewer the next symbol is read
    split
    · rename_i hfull
      have hfront := Bits.toNat_ofNat 8 ((buffer.push 5 (UInt32.ofNat n)).front 8)
      have hlt : (buffer.push 5 (UInt32.ofNat n)).front 8 < 2 ^ 8 := Nat.mod_lt _ (by decide)
      have hpop : ((buffer.push 5 (UInt32.ofNat n)).pop 8).live < 8 := by
        show buffer.live + 5 - 8 < 8
        omega
      rw [Nat.mod_eq_of_lt hlt] at hfront
      rw [ih hpop hnumbers, Buffer.liveBits_front hfull (by omega), List.append_assoc,
        eights_append (Bits.length_ofNat 8 _), hfront]
      rfl
    · rename_i hfull
      exact ih (by omega) hnumbers

/-- The text of bytes is letters and digits. -/
theorem isAlphanum_of_mem_encode {bytes : List UInt8} {c : Char} (h : c ∈ encode bytes) :
    c.isAlphanum = true := by
  rw [encode_eq] at h
  rcases List.mem_map.mp h with ⟨n, hn, rfl⟩
  exact (symbol_cases (lt_of_mem_fives hn)).1

/-- Bytes are read back from their text. -/
theorem decode_encode (bytes : List UInt8) : decode (encode bytes) = .ok bytes := by
  have hascii : ∀ c ∈ encode bytes, c.toNat < 0x80 :=
    fun c hc => Utf8.lt_of_isAlphanum (isAlphanum_of_mem_encode hc)
  -- the zeros that fill the last symbol are too few for a byte
  rcases exists_bits_fives (bitsOf bytes) with ⟨zeros, hzeros, hbits⟩
  have hshort : (List.replicate zeros false).length < 8 := by
    rw [List.length_replicate]
    omega
  have hempty : Buffer.empty.live < 8 := by decide
  have hsymbols : ∀ n ∈ fives (bitsOf bytes), n < 32 := fun n hn => lt_of_mem_fives hn
  have hread := decodeFrom_symbols hempty hsymbols
  unfold decode
  rw [Utf8.encode_of_ascii hascii, encode_eq, List.map_map]
  refine hread.trans ?_
  rw [hbits]
  exact congrArg Except.ok (eights_bitsOf bytes hshort)

end LedgerTx.Base32
