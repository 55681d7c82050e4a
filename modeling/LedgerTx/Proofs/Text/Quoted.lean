import LedgerTx.Text.Quoted
import LedgerTx.Proofs.Bytes.Ascii

namespace LedgerTx.Quoted

/-! # Reading strings that were quoted -/

/-! ## One character -/

/-- An escape of four hexadecimal digits and the number that they spell. -/
inductive UnitEscape (n : Nat) : List Char → Prop
  | digits {a b c d : Char} (hunit : unit? a b c d = some n)
      (halphanum : ∀ digit ∈ [a, b, c, d], digit.isAlphanum = true) :
      UnitEscape n ['\\', 'u', a, b, c, d]

/-- How a character stands inside quotes. -/
inductive Escaped (c : Char) : List Char → Prop
  /-- A backslash and a letter. -/
  | short (letter : Char) (hletter : simpleEscape? letter = some c) (hu : letter ≠ 'u')
      (hlarge : 0x20 ≤ letter.toNat) : Escaped c ['\\', letter]
  /-- A backslash and the number of the character. -/
  | unit {text : List Char} (hunit : UnitEscape c.toNat text) : Escaped c text
  /-- The two halves of a pair of surrogates. -/
  | pair {high low : List Char} (hlarge : 0x10000 ≤ c.toNat)
      (hhigh : UnitEscape (0xD800 + (c.toNat - 0x10000) / 0x400) high)
      (hlow : UnitEscape (0xDC00 + (c.toNat - 0x10000) % 0x400) low) : Escaped c (high ++ low)
  /-- The character itself. -/
  | plain (hquote : c ≠ '"') (hbackslash : c ≠ '\\') (hlarge : 0x20 ≤ c.toNat) : Escaped c [c]

/-- Each of the sixteen digits is a letter or decimal digit, and has its number. -/
theorem hexDigit_cases {n : Nat} (h : n < 16) :
    hexValue? (hexDigit n) = some n ∧ (hexDigit n).isAlphanum = true := by
  have hall : ∀ i : Fin 16,
      hexValue? (hexDigit i) = some i.val ∧ (hexDigit i).isAlphanum = true := by
    decide
  exact hall ⟨n, h⟩

/-- Every character is escaped in one of the three ways. -/
theorem escaped_escape (c : Char) : Escaped c (escape c) := by
  unfold escape
  -- the quote, the backslash and five control characters have letters of their own
  iterate 7
    split
    · rename_i hc
      subst hc
      exact .short _ rfl (by decide) (by decide)
  -- what is left is a control character without a letter, or no control character
  split
  · rename_i hsmall
    obtain ⟨hhigh, hhighDigit⟩ := hexDigit_cases (n := c.toNat / 16) (by omega)
    obtain ⟨hlow, hlowDigit⟩ := hexDigit_cases (n := c.toNat % 16) (by omega)
    have hzero : hexValue? '0' = some 0 := rfl
    have hnumber : ((0 * 16 + 0) * 16 + c.toNat / 16) * 16 + c.toNat % 16 = c.toNat := by
      omega
    refine .unit (.digits ?_ ?_)
    · unfold unit?
      rw [hzero, hhigh, hlow]
      exact congrArg some hnumber
    · simp [hhighDigit, hlowDigit]
  · rename_i hquote hbackslash _ _ _ _ _ hlarge
    exact .plain hquote hbackslash (Nat.le_of_not_lt hlarge)

/-! ## Whole strings -/

/-- A number that is no surrogate is read as the character that has it. -/
theorem decodeBody_unit {a b c d : Char} {code : Nat} (hunit : unit? a b c d = some code)
    (hcode : code < 0xD800 ∨ 0xE000 ≤ code) (rest : List Char) :
    decodeBody ('\\' :: 'u' :: a :: b :: c :: d :: rest)
      = (decodeBody rest).map (Char.ofNat code :: ·) := by
  have hhigh : ¬(0xD800 ≤ code ∧ code < 0xDC00) := by omega
  have hlow : ¬(0xDC00 ≤ code ∧ code < 0xE000) := by omega
  have hany : ¬(0xD800 ≤ code ∧ code < 0xE000) := by omega
  -- a second escape after the first might have made a pair of surrogates
  by_cases hpair : ∃ e f g h tail, rest = '\\' :: 'u' :: e :: f :: g :: h :: tail
  · rcases hpair with ⟨e, f, g, h, tail, rfl⟩
    rw [decodeBody.eq_3, hunit, Option.bind_eq_bind, Option.bind_some, if_neg hhigh, if_neg hlow]
    cases decodeBody ('\\' :: 'u' :: e :: f :: g :: h :: tail) <;> rfl
  · have hnone : ∀ (e f g h : Char) (tail : List Char),
        rest = '\\' :: 'u' :: e :: f :: g :: h :: tail → False :=
      fun e f g h tail heq => hpair ⟨e, f, g, h, tail, heq⟩
    rw [decodeBody.eq_4 _ _ _ _ _ hnone, hunit, Option.bind_eq_bind, Option.bind_some, if_neg hany]
    cases decodeBody rest <;> rfl

/-- Two halves are read as the character that they make. -/
theorem decodeBody_pair {high low : List Char} {n : Nat} (hn : n < 0x100000)
    (hhigh : UnitEscape (0xD800 + n / 0x400) high) (hlow : UnitEscape (0xDC00 + n % 0x400) low)
    (rest : List Char) :
    decodeBody (high ++ low ++ rest) = (decodeBody rest).map (Char.ofNat (0x10000 + n) :: ·) := by
  cases hhigh with
  | digits hhigh =>
    cases hlow with
    | digits hlow =>
      have hhighHalf : 0xD800 ≤ 0xD800 + n / 0x400 ∧ 0xD800 + n / 0x400 < 0xDC00 := by omega
      have hlowHalf : 0xDC00 ≤ 0xDC00 + n % 0x400 ∧ 0xDC00 + n % 0x400 < 0xE000 := by omega
      -- the halves have the upper and the lower ten bits of what is above 0x10000
      have hnumber : 0x10000 + (0xD800 + n / 0x400 - 0xD800) * 0x400 + (0xDC00 + n % 0x400 - 0xDC00)
          = 0x10000 + n := by
        omega
      simp only [List.cons_append, List.nil_append]
      rw [decodeBody.eq_3, hhigh, Option.bind_eq_bind, Option.bind_some, if_pos hhighHalf, hlow,
        Option.bind_eq_bind, Option.bind_some, if_pos hlowHalf, hnumber]
      cases decodeBody rest <;> rfl

/-- No character is a surrogate. -/
theorem toNat_cases (c : Char) : c.toNat < 0xD800 ∨ 0xE000 ≤ c.toNat ∧ c.toNat < 0x110000 :=
  c.valid

/-- An escaped character is read as that character. -/
theorem decodeBody_escaped {c : Char} {text : List Char} (h : Escaped c text) (rest : List Char) :
    decodeBody (text ++ rest) = (decodeBody rest).map (c :: ·) := by
  cases h with
  | short letter hletter hu hline =>
    have hnone : ∀ (a b d e : Char) (tail : List Char), letter = 'u' →
        rest = a :: b :: d :: e :: tail → False :=
      fun _ _ _ _ _ heq _ => hu heq
    have hpair : ∀ (a b d e f g h i : Char) (tail : List Char), letter = 'u' →
        rest = a :: b :: d :: e :: '\\' :: 'u' :: f :: g :: h :: i :: tail → False :=
      fun _ _ _ _ _ _ _ _ _ heq _ => hu heq
    show decodeBody ('\\' :: letter :: rest) = _
    rw [decodeBody.eq_5 _ _ hpair hnone, hletter]
    cases decodeBody rest <;> rfl
  | unit hunit =>
    cases hunit with
    | digits hunit =>
      simp only [List.cons_append, List.nil_append]
      rw [decodeBody_unit hunit ((toNat_cases c).imp_right And.left), Char.ofNat_toNat]
  | pair hlarge hhigh hlow =>
    have hmax := toNat_cases c
    rw [decodeBody_pair (by omega) hhigh hlow, Nat.add_sub_cancel' hlarge, Char.ofNat_toNat]
  | plain hquote hbackslash hlarge =>
    have hordinary : ¬(c = '\\' ∨ c.toNat < 0x20) := by
      rintro (hc | hc)
      · exact hbackslash hc
      · omega
    show decodeBody (c :: rest) = _
    rw [decodeBody.eq_6 c rest hquote (fun _ _ _ _ _ _ _ _ _ h => absurd h hbackslash)
      (fun _ _ _ _ _ h => absurd h hbackslash) (fun _ _ h => absurd h hbackslash),
      if_neg hordinary]
    cases decodeBody rest <;> rfl

/-- Characters that are escaped one by one are read up to the closing quote. -/
theorem decodeBody_flatMap {write : Char → List Char} (hwrite : ∀ c, Escaped c (write c))
    (text : List Char) : decodeBody (text.flatMap write ++ ['"']) = some text := by
  induction text with
  | nil => rfl
  | cons c text ih =>
    rw [List.flatMap_cons, List.append_assoc, decodeBody_escaped (hwrite c), ih]
    rfl

/-- A text is read back from its quoted form. -/
theorem decode_encode (text : List Char) : decode (encode text) = some text :=
  decodeBody_flatMap escaped_escape text

/-- What stands up to the closing quote and what stands after it are the text. -/
theorem spanBody_fst_append_snd (body : List Char) : (spanBody body).1 ++ (spanBody body).2 = body := by
  fun_induction spanBody body with
  | case1 => rfl
  | case2 => rfl
  | case3 c rest body after hsplit ih =>
    rw [hsplit] at ih
    exact congrArg (fun text => '\\' :: c :: text) ih
  | case4 c rest hquote hescape body after hsplit ih =>
    rw [hsplit] at ih
    exact congrArg (c :: ·) ih

theorem spanBody_cons {c : Char} (hquote : c ≠ '"') (hbackslash : c ≠ '\\') (rest : List Char) :
    spanBody (c :: rest) = (c :: (spanBody rest).1, (spanBody rest).2) :=
  spanBody.eq_4 c rest hquote fun _ _ h => absurd h hbackslash

/-- A letter or digit needs no escape. -/
theorem ne_of_isAlphanum {c d : Char} (hc : c.isAlphanum = true) (hd : d.isAlphanum = false) :
    c ≠ d := by
  rintro rfl
  rw [hc] at hd
  cases hd

/-- An escape of four digits is passed over. -/
theorem spanBody_unit {n : Nat} {text : List Char} (h : UnitEscape n text) (rest : List Char) :
    spanBody (text ++ rest) = (text ++ (spanBody rest).1, (spanBody rest).2) := by
  cases h with
  | @digits a b c d _ halphanum =>
    have hdigit {digit : Char} (h : digit ∈ [a, b, c, d]) (after : List Char) :
        spanBody (digit :: after) = (digit :: (spanBody after).1, (spanBody after).2) :=
      spanBody_cons (ne_of_isAlphanum (halphanum digit h) rfl)
        (ne_of_isAlphanum (halphanum digit h) rfl) after
    -- the scan passes over the backslash with the letter, then digit by digit
    show spanBody ('\\' :: 'u' :: a :: b :: c :: d :: rest) = _
    rw [spanBody.eq_3, hdigit (by simp), hdigit (by simp), hdigit (by simp), hdigit (by simp)]
    rfl

/-- However a character is escaped, it does not end the text. -/
theorem spanBody_escaped {c : Char} {text : List Char} (h : Escaped c text) (rest : List Char) :
    spanBody (text ++ rest) = (text ++ (spanBody rest).1, (spanBody rest).2) := by
  cases h with
  | short letter => rfl
  | unit hunit => exact spanBody_unit hunit rest
  | pair hlarge hhigh hlow =>
    rw [List.append_assoc, spanBody_unit hhigh, spanBody_unit hlow, List.append_assoc]
  | plain hquote hbackslash hlarge => exact spanBody_cons hquote hbackslash rest

/-- A quoted text ends where its closing quote stands, whatever follows. -/
theorem spanBody_flatMap {write : Char → List Char} (hwrite : ∀ c, Escaped c (write c))
    (text after : List Char) :
    spanBody (text.flatMap write ++ '"' :: after) = (text.flatMap write ++ ['"'], after) := by
  induction text with
  | nil => rfl
  | cons c text ih =>
    rw [List.flatMap_cons, List.append_assoc, spanBody_escaped (hwrite c), ih, List.append_assoc]

/-- What is quoted ends where its closing quote stands. -/
theorem spanBody_encode (text after : List Char) :
    spanBody (text.flatMap escape ++ '"' :: after) = (text.flatMap escape ++ ['"'], after) :=
  spanBody_flatMap escaped_escape text after

/-- An escape of four digits holds no control characters. -/
theorem le_of_mem_unit {n : Nat} {text : List Char} (h : UnitEscape n text) {d : Char}
    (hd : d ∈ text) : 0x20 ≤ d.toNat := by
  cases h with
  | digits _ halphanum =>
    rcases List.mem_cons.mp hd with rfl | hd
    · decide
    · rcases List.mem_cons.mp hd with rfl | hd
      · decide
      · have hdigit := Utf8.isAlphanum_iff.mp (halphanum d hd)
        omega

/-- However a character is escaped, no control characters are used for it. -/
theorem le_of_mem_escaped {c d : Char} {text : List Char} (h : Escaped c text) (hd : d ∈ text) :
    0x20 ≤ d.toNat := by
  cases h with
  | short letter hletter hu hlarge =>
    simp only [List.mem_cons, List.not_mem_nil, or_false] at hd
    rcases hd with rfl | rfl
    · decide
    · exact hlarge
  | unit hunit => exact le_of_mem_unit hunit hd
  | pair hlarge hhigh hlow =>
    rcases List.mem_append.mp hd with hd | hd
    · exact le_of_mem_unit hhigh hd
    · exact le_of_mem_unit hlow hd
  | plain hquote hbackslash hlarge =>
    rw [List.mem_singleton.mp hd]
    exact hlarge

/-- A quoted text holds no control characters, line feeds among them. -/
theorem le_of_mem_encode {text : List Char} {d : Char} (h : d ∈ encode text) : 0x20 ≤ d.toNat := by
  rcases List.mem_append.mp h with hbody | hend
  · rcases List.mem_cons.mp hbody with rfl | hmem
    · decide
    · rcases List.mem_flatMap.mp hmem with ⟨c, -, hd⟩
      exact le_of_mem_escaped (escaped_escape c) hd
  · rw [List.mem_singleton.mp hend]
    decide

end LedgerTx.Quoted
