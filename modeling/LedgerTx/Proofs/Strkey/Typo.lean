import LedgerTx.Proofs.Strkey.Canonical
import LedgerTx.Proofs.Strkey.Checksum

namespace LedgerTx

/-! # Typing errors in strkeys

Two neighbouring characters of a strkey are ten bits of its data, and a difference within ten bits changes
the checksum.  So no two strkeys of the same length differ in two neighbouring characters only. -/

namespace Base32

/-! ## Texts that differ in two places -/

theorem symbol_inj {n m : Nat} (hn : n < 32) (hm : m < 32) (h : symbol n = symbol m) : n = m := by
  have hvalue := (symbol_cases hn).2
  rw [h, (symbol_cases hm).2] at hvalue
  exact (Option.some.inj hvalue).symm

/-- Where texts agree, the numbers of their symbols agree. -/
theorem getElem?_fives_of_encode {data other : List UInt8} {j : Nat}
    (h : (encode data)[j]? = (encode other)[j]?) :
    (fives (bitsOf data))[j]? = (fives (bitsOf other))[j]? := by
  rw [encode_eq, encode_eq, List.getElem?_map, List.getElem?_map] at h
  cases hleft : (fives (bitsOf data))[j]? with
  | none =>
    rw [hleft] at h
    exact (Option.map_eq_none_iff.mp h.symm).symm
  | some n =>
    rw [hleft] at h
    obtain ⟨m, hright, hsymbol⟩ := Option.map_eq_some_iff.mp h.symm
    have hn := lt_of_mem_fives (List.mem_of_getElem? hleft)
    have hm := lt_of_mem_fives (List.mem_of_getElem? hright)
    rw [hright, symbol_inj hm hn hsymbol]

/-- Lists that agree but at two neighbouring places have the same front and the same back. -/
theorem exists_middle_of_agree {α : Type} {list other : List α} {i : Nat}
    (hlength : list.length = other.length)
    (hagree : ∀ j, j ≠ i → j ≠ i + 1 → list[j]? = other[j]?) :
    ∃ front middle changed back, list = front ++ (middle ++ back) ∧
      other = front ++ (changed ++ back) ∧ middle.length = changed.length ∧ middle.length ≤ 2 := by
  have hfront : list.take i = other.take i := by
    apply List.ext_getElem?
    intro j
    by_cases hj : j < i
    · rw [List.getElem?_take_of_lt hj, List.getElem?_take_of_lt hj]
      exact hagree j (by omega) (by omega)
    · have hout : ∀ l : List α, (l.take i).length ≤ j := by
        intro l
        exact Nat.le_trans (List.length_take_le i l) (Nat.le_of_not_lt hj)
      rw [List.getElem?_eq_none (hout list), List.getElem?_eq_none (hout other)]
  have hback : list.drop (i + 2) = other.drop (i + 2) := by
    apply List.ext_getElem?
    intro j
    rw [List.getElem?_drop, List.getElem?_drop]
    exact hagree (i + 2 + j) (by omega) (by omega)
  -- the two places stand between a front and a back
  have hsplit : ∀ l : List α, l = l.take i ++ ((l.drop i).take 2 ++ l.drop (i + 2)) := by
    intro l
    rw [← List.drop_drop, List.take_append_drop, List.take_append_drop]
  refine ⟨list.take i, (list.drop i).take 2, (other.drop i).take 2, list.drop (i + 2),
    hsplit list, ?_, by simp [hlength], List.length_take_le 2 _⟩
  rw [hfront, hback]
  exact hsplit other

/-- Each number has as many bits as it is written in. -/
theorem length_flatMap_ofNat (width : Nat) (numbers : List Nat) :
    (numbers.flatMap (Bits.ofNat width)).length = numbers.length * width := by
  induction numbers with
  | nil => exact (Nat.zero_mul width).symm
  | cons n numbers ih =>
    rw [List.flatMap_cons, List.length_append, Bits.length_ofNat, ih, List.length_cons,
      Nat.succ_mul, Nat.add_comm]

/-- The last symbol is filled up with fewer bits than a byte has, so the length of a text says how many
bytes it spells. -/
theorem length_eq_of_length_encode {data other : List UInt8}
    (h : (encode data).length = (encode other).length) : data.length = other.length := by
  have hnumbers : ∀ bytes : List UInt8, ∃ zeros, zeros < 5 ∧
      (encode bytes).length * 5 = bytes.length * 8 + zeros := by
    intro bytes
    obtain ⟨zeros, hlt, hbits⟩ := exists_bits_fives (bitsOf bytes)
    have hcount := congrArg List.length hbits
    rw [length_flatMap_ofNat, List.length_append, length_bitsOf, List.length_replicate] at hcount
    refine ⟨zeros, hlt, ?_⟩
    rw [encode_eq, List.length_map]
    exact hcount
  -- fewer than five zeros are not the eight bits of a byte
  obtain ⟨zeros, hzeros, hdata⟩ := hnumbers data
  obtain ⟨more, hmore, hother⟩ := hnumbers other
  omega

/-- Where texts agree but at two neighbouring places, the bits of what they spell differ within a window
of ten; it may reach into the bits that fill up the last symbol. -/
theorem exists_window_of_agree {data other : List UInt8} {i : Nat}
    (hlength : (encode data).length = (encode other).length)
    (hagree : ∀ j, j ≠ i → j ≠ i + 1 → (encode data)[j]? = (encode other)[j]?) :
    ∃ zeros front window back, window.length ≤ 10 ∧
      Bits.diff (bitsOf data) (bitsOf other) ++ List.replicate zeros false
        = List.replicate front false ++ (window ++ List.replicate back false) := by
  have hbytes := length_eq_of_length_encode hlength
  have hnumbers : (fives (bitsOf data)).length = (fives (bitsOf other)).length := by
    rw [encode_eq, encode_eq, List.length_map, List.length_map] at hlength
    exact hlength
  obtain ⟨front, middle, changed, back, hdata, hother, hmiddle, hwidth⟩ :=
    exists_middle_of_agree hnumbers fun j hj hnext => getElem?_fives_of_encode (hagree j hj hnext)
  obtain ⟨zeros, -, hbits⟩ := exists_bits_fives (bitsOf data)
  obtain ⟨more, -, hmore⟩ := exists_bits_fives (bitsOf other)
  -- both texts have the same number of bits to fill
  have hfill : more = zeros := by
    have hcount := congrArg List.length hbits
    have hothers := congrArg List.length hmore
    rw [length_flatMap_ofNat, List.length_append, length_bitsOf, List.length_replicate] at hcount
    rw [length_flatMap_ofNat, List.length_append, length_bitsOf, List.length_replicate] at hothers
    omega
  subst hfill
  rw [hdata, List.flatMap_append, List.flatMap_append] at hbits
  rw [hother, List.flatMap_append, List.flatMap_append] at hmore
  have hmiddles : (middle.flatMap (Bits.ofNat 5)).length = (changed.flatMap (Bits.ofNat 5)).length := by
    rw [length_flatMap_ofNat, length_flatMap_ofNat, hmiddle]
  have hbytesOf : (bitsOf data).length = (bitsOf other).length := by
    rw [length_bitsOf, length_bitsOf, hbytes]
  refine ⟨more, (front.flatMap (Bits.ofNat 5)).length,
    Bits.diff (middle.flatMap (Bits.ofNat 5)) (changed.flatMap (Bits.ofNat 5)),
    (back.flatMap (Bits.ofNat 5)).length, ?_, ?_⟩
  · rw [Bits.length_diff hmiddles, length_flatMap_ofNat]
    omega
  · have hzeros := Bits.diff_self (List.replicate more false)
    rw [List.length_replicate] at hzeros
    rw [← hzeros, ← Bits.diff_append hbytesOf, ← hbits, ← hmore, Bits.diff_append rfl,
      Bits.diff_append hmiddles, Bits.diff_self, Bits.diff_self]

end Base32

namespace Strkey

/-! ## Strkeys that differ in two places -/

/-- The bits of a version, a payload and their checksum. -/
theorem bitsOf_append_bytesOf (body : List UInt8) :
    Base32.bitsOf (body ++ Checksum.bytesOf body)
      = Base32.bitsOf body ++ Checksum.bitsOf (Checksum.run 0 (Base32.bitsOf body)) := by
  have happend : Base32.bitsOf (body ++ Checksum.bytesOf body)
      = Base32.bitsOf body ++ Base32.bitsOf (Checksum.bytesOf body) := List.flatMap_append
  rw [happend, Checksum.bitsOf_bytesOf, Checksum.crc_eq_run]

/-- The difference of two strings with their checksums is a string with its checksum. -/
theorem diff_with_checksum {body other : List UInt8} (h : body.length = other.length) :
    Bits.diff (Base32.bitsOf (body ++ Checksum.bytesOf body))
        (Base32.bitsOf (other ++ Checksum.bytesOf other))
      = Bits.diff (Base32.bitsOf body) (Base32.bitsOf other)
        ++ Checksum.bitsOf (Checksum.run 0 (Bits.diff (Base32.bitsOf body) (Base32.bitsOf other))) := by
  have hbits : (Base32.bitsOf body).length = (Base32.bitsOf other).length := by
    rw [Base32.length_bitsOf, Base32.length_bitsOf, h]
  have hlinear := Checksum.run_diff 0 0 hbits
  rw [UInt16.xor_self] at hlinear
  rw [bitsOf_append_bytesOf, bitsOf_append_bytesOf, Bits.diff_append hbits, Checksum.diff_bitsOf,
    hlinear]

/-- Strings with their checksums are the same, if their texts differ in two neighbouring places only. -/
theorem eq_of_agree {body other : List UInt8} {i : Nat}
    (hlength : (Base32.encode (body ++ Checksum.bytesOf body)).length
      = (Base32.encode (other ++ Checksum.bytesOf other)).length)
    (hagree : ∀ j, j ≠ i → j ≠ i + 1 → (Base32.encode (body ++ Checksum.bytesOf body))[j]?
      = (Base32.encode (other ++ Checksum.bytesOf other))[j]?) :
    body ++ Checksum.bytesOf body = other ++ Checksum.bytesOf other := by
  have hbytes := Base32.length_eq_of_length_encode hlength
  have hbody : body.length = other.length := by
    have hsum : (Checksum.bytesOf body).length = (Checksum.bytesOf other).length := rfl
    rw [List.length_append, List.length_append, hsum] at hbytes
    exact Nat.add_right_cancel hbytes
  obtain ⟨zeros, front, window, back, hwidth, hdiff⟩ := Base32.exists_window_of_agree hlength hagree
  have hsame := hdiff
  rw [diff_with_checksum hbody, List.append_assoc] at hsame
  -- a difference within the window would change the checksum
  have hzero := Checksum.false_of_window hsame hwidth
  rw [← diff_with_checksum hbody] at hzero
  have hbits := Bits.eq_of_diff (by rw [Base32.length_bitsOf, Base32.length_bitsOf, hbytes]) hzero
  -- equal bits are bits of equal bytes
  have hread := congrArg (fun bits : List Bool => Base32.eights (bits ++ [])) hbits
  rw [Base32.eights_bitsOf _ (by decide), Base32.eights_bitsOf _ (by decide)] at hread
  exact hread

/-- What stands in place of a strkey with one or two neighbouring characters changed, or swapped, is no
strkey. -/
theorem decode_error_of_typo {text typed : String} {kind : Kind} {payload : List UInt8} {i : Nat}
    (hread : decode text = .ok (kind, payload))
    (hlength : typed.toList.length = text.toList.length)
    (hagree : ∀ j, j ≠ i → j ≠ i + 1 → typed.toList[j]? = text.toList[j]?) (hne : typed ≠ text) :
    ∃ cause, decode typed = .error cause := by
  cases htyped : decode typed with
  | error cause => exact ⟨cause, rfl⟩
  | ok found =>
    obtain ⟨other, bytes⟩ := found
    -- if both were strkeys, both would be bodies with their checksums
    obtain ⟨-, htext⟩ := body_of_decode hread
    obtain ⟨-, hother⟩ := body_of_decode htyped
    rw [← htext, ← hother] at hlength
    have hdata := eq_of_agree hlength fun j hj hnext => by
      rw [htext, hother]
      exact hagree j hj hnext
    have hsame : typed = text := by
      rw [← String.toList_inj, ← hother, ← htext, hdata]
    exact absurd hsame hne

/-- The address of the account whose key is zeros. -/
theorem encode_accountId_zero :
    encode .accountId (List.replicate 32 0)
      = "GAAAAAAAAAAAAAAAAAAAAAAAAAAAAAAAAAAAAAAAAAAAAAAAAAAAAWHF" := by
  unfold encode
  dsimp only
  rw [Base32.encode_eq]
  decide +kernel

/-- The two letters before the last one are swapped. -/
theorem decode_error_of_swapped_letters :
    ∃ cause, decode "GAAAAAAAAAAAAAAAAAAAAAAAAAAAAAAAAAAAAAAAAAAAAAAAAAAAAHWF" = .error cause := by
  have hread : decode "GAAAAAAAAAAAAAAAAAAAAAAAAAAAAAAAAAAAAAAAAAAAAAAAAAAAAWHF"
      = .ok (.accountId, List.replicate 32 0) :=
    decode_eq_ok.mpr ⟨List.length_replicate, encode_accountId_zero.symm⟩
  have hagree : ∀ j, j ≠ 53 → j ≠ 54 →
      "GAAAAAAAAAAAAAAAAAAAAAAAAAAAAAAAAAAAAAAAAAAAAAAAAAAAAHWF".toList[j]?
        = "GAAAAAAAAAAAAAAAAAAAAAAAAAAAAAAAAAAAAAAAAAAAAAAAAAAAAWHF".toList[j]? := by
    intro j hj hnext
    by_cases hlt : j < 56
    · have hall : ∀ k : Fin 56, k.val ≠ 53 → k.val ≠ 54 →
          "GAAAAAAAAAAAAAAAAAAAAAAAAAAAAAAAAAAAAAAAAAAAAAAAAAAAAHWF".toList[k.val]?
            = "GAAAAAAAAAAAAAAAAAAAAAAAAAAAAAAAAAAAAAAAAAAAAAAAAAAAAWHF".toList[k.val]? := by
        decide +kernel
      exact hall ⟨j, hlt⟩ hj hnext
    · rw [List.getElem?_eq_none (by simp; omega), List.getElem?_eq_none (by simp; omega)]
  exact decode_error_of_typo hread (by decide +kernel) hagree (by decide +kernel)

end Strkey

end LedgerTx
