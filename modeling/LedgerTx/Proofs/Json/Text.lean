import LedgerTx.Json.Text
import LedgerTx.Proofs.Bytes.Hex
import LedgerTx.Proofs.Text.Decimal
import LedgerTx.Proofs.Text.Quoted

namespace LedgerTx.Json

/-! # JSON text read back

Values that a text can spell are read back from what is written for them. -/

/-! ## Strings -/

/-- A number of 16 bits is spelled by its escape. -/
theorem unitEscape_unitText {n : Nat} (h : n < 0x10000) : Quoted.UnitEscape n (unitText n) := by
  have hdigit {i : Nat} (h : i < 16) :
      Quoted.hexValue? (Hex.digit i) = some i ∧ (Hex.digit i).isAlphanum = true :=
    Quoted.hexDigit_cases h
  -- the number is split into two bytes, and each byte into two digits
  have hhigh : (UInt8.ofNat (n / 256)).toNat = n / 256 := by
    rw [UInt8.toNat_ofNat']
    omega
  have hlow : (UInt8.ofNat n).toNat = n % 256 := UInt8.toNat_ofNat'
  show Quoted.UnitEscape n ['\\', 'u', Hex.digit ((UInt8.ofNat (n / 256)).toNat / 16),
    Hex.digit ((UInt8.ofNat (n / 256)).toNat % 16), Hex.digit ((UInt8.ofNat n).toNat / 16),
    Hex.digit ((UInt8.ofNat n).toNat % 16)]
  rw [hhigh, hlow]
  have h3 := hdigit (i := n / 256 / 16) (by omega)
  have h2 := hdigit (i := n / 256 % 16) (by omega)
  have h1 := hdigit (i := n % 256 / 16) (by omega)
  have h0 := hdigit (i := n % 256 % 16) (by omega)
  refine .digits ?_ ?_
  · unfold Quoted.unit?
    rw [h3.1, h2.1, h1.1, h0.1]
    refine congrArg some ?_
    show ((n / 256 / 16 * 16 + n / 256 % 16) * 16 + n % 256 / 16) * 16 + n % 256 % 16 = n
    omega
  · intro digit hmem
    simp only [List.mem_cons, List.not_mem_nil, or_false] at hmem
    rcases hmem with rfl | rfl | rfl | rfl
    · exact h3.2
    · exact h2.2
    · exact h1.2
    · exact h0.2

/-- Each character is escaped, as one unit of 16 bits or as a pair of them. -/
theorem escaped_charText (c : Char) : Quoted.Escaped c (charText c) := by
  have hmax := Quoted.toNat_cases c
  unfold charText
  dsimp only
  split
  -- a printable character stands for itself
  · exact Quoted.escaped_escape c
  · split
    -- other characters of 16 bits are one unit, and the rest are a pair
    · exact .unit (unitEscape_unitText (by omega))
    · exact .pair (by omega) (unitEscape_unitText (by omega)) (unitEscape_unitText (by omega))

/-- A string is read up to its closing quote. -/
theorem readString?_text (s : String) (rest : List Char) :
    readString? (s.toList.flatMap charText ++ '"' :: rest) = some (s, rest) := by
  have hdecode : Quoted.decode ('"' :: (s.toList.flatMap charText ++ ['"'])) = some s.toList :=
    Quoted.decodeBody_flatMap escaped_charText s.toList
  unfold readString?
  rw [Quoted.spanBody_flatMap escaped_charText]
  dsimp only
  rw [hdecode, Option.bind_eq_bind, Option.bind_some, String.ofList_toList]
  rfl

/-! ## Numbers -/

/-- A number in decimal is a sign and digits, and all of them belong to a number. -/
theorem isNumberChar_of_mem_ofInt {i : Int} {c : Char} (h : c ∈ Decimal.ofInt i) :
    isNumberChar c = true := by
  have hdigit {n : Nat} (h : c ∈ Decimal.ofNat n) : isNumberChar c = true := by
    rw [isNumberChar, Decimal.isDigit_of_mem_ofNat h]
    rfl
  unfold Decimal.ofInt at h
  split at h
  · rcases List.mem_cons.mp h with rfl | h
    · rfl
    · exact hdigit h
  · exact hdigit h

/-- A number in decimal has a digit at least. -/
theorem ofInt_ne_nil (i : Int) : Decimal.ofInt i ≠ [] := by
  unfold Decimal.ofInt
  split
  · simp
  · rcases Decimal.ofNat_eq_cons i.natAbs with ⟨c, rest, h, -⟩
    simp [h]

/-- A whole number in the range of 64 bits is read as whole. -/
theorem numberOf_ofInt {i : Int} (hmin : Int64.minValue.toInt ≤ i) (hmax : i ≤ UInt64.size - 1) :
    numberOf (Decimal.ofInt i) = .integer i := by
  unfold numberOf
  rw [Decimal.intWithin?_ofInt hmin hmax]
  dsimp only
  -- a zero with a sign is no whole number, but none is written
  rw [if_neg]
  rintro ⟨rfl, h⟩
  cases h

/-- No number goes on behind a value. -/
def Ends (rest : List Char) : Prop :=
  ∀ c ∈ rest.head?, isNumberChar c = false

theorem ends_nil : Ends [] := by
  simp [Ends]

/-- Behind another character no number goes on. -/
theorem ends_cons {c : Char} (h : isNumberChar c = false) (rest : List Char) : Ends (c :: rest) := by
  rintro _ ⟨⟩
  exact h

/-- No number begins with a blank. -/
theorem skipBlanks_of_isNumberChar {c : Char} (h : isNumberChar c = true) (rest : List Char) :
    skipBlanks (c :: rest) = c :: rest := by
  unfold skipBlanks
  rw [List.dropWhile_cons, if_neg]
  intro hblank
  simp only [Bool.or_eq_true, beq_iff_eq] at hblank
  rcases hblank with ((rfl | rfl) | rfl) | rfl <;> cases h

/-- A number is read up to the first character that does not belong to it. -/
theorem readValue?_number {text rest : List Char} (fuel : Nat) (hne : text ≠ [])
    (htext : ∀ c ∈ text, isNumberChar c = true) (hrest : Ends rest) :
    readValue? (fuel + 1) (text ++ rest) = some (numberOf text, rest) := by
  rcases List.exists_cons_of_ne_nil hne with ⟨c, tail, rfl⟩
  have hc := htext c List.mem_cons_self
  rw [List.cons_append, readValue?, skipBlanks_of_isNumberChar hc]
  split
  case h_7 =>
    rw [← List.cons_append, span_append htext hrest]
    rfl
  -- no other value begins like a number
  all_goals
    rename_i heq
    rcases List.cons.inj heq with ⟨rfl, -⟩
    cases hc

/-! ## Values -/

/-- The values that a text can spell: whole numbers in the range of 64 bits, other numbers as they are
written, and objects in which no name stands twice. -/
inductive Writable : Json → Prop
  | null : Writable .null
  | bool (b : Bool) : Writable (.bool b)
  | integer {i : Int} (hmin : Int64.minValue.toInt ≤ i) (hmax : i ≤ UInt64.size - 1) :
      Writable (.integer i)
  | fraction {number : List Char} (hne : number ≠ []) (hnumber : ∀ c ∈ number, isNumberChar c = true)
      (hkept : numberOf number = .fraction number) : Writable (.fraction number)
  | string (s : String) : Writable (.string s)
  | array {items : List Json} (hitems : ∀ item ∈ items, Writable item) : Writable (.array items)
  | object {fields : List (String × Json)} (hnames : (fields.map (·.1)).Nodup)
      (hfields : ∀ field ∈ fields, Writable field.2) : Writable (.object fields)

theorem writable_int64 (v : Int64) : Writable (.integer v.toInt) := by
  have hmax := v.toInt_lt
  have hsize : UInt64.size = 2 ^ 64 := rfl
  exact .integer v.minValue_le_toInt (by omega)

theorem writable_uint64 (v : UInt64) : Writable (.integer v.toNat) := by
  have hmax := v.toNat_lt
  have hmin : Int64.minValue.toInt = -2 ^ 63 := rfl
  have hsize : UInt64.size = 2 ^ 64 := rfl
  exact .integer (by omega) (by omega)

theorem writable_uint32 (v : UInt32) : Writable (.integer v.toNat) := by
  rw [← UInt32.toNat_toUInt64]
  exact writable_uint64 v.toUInt64

theorem writable_texts (texts : List String) : Writable (.array (texts.map .string)) := by
  refine .array fun item hitem => ?_
  rcases List.mem_map.mp hitem with ⟨text, -, rfl⟩
  exact .string text

/-- What is missing is spelled as null. -/
theorem writable_ofOption {α : Type} {write : α → Json} (hwrite : ∀ a, Writable (write a))
    (found : Option α) : Writable (ofOption write found) := by
  cases found with
  | none => exact .null
  | some a => exact hwrite a

/-- Where no name stands twice, no field hides another. -/
theorem lastOfEach_of_nodup {fields : List (String × Json)} (h : (fields.map (·.1)).Nodup) :
    lastOfEach fields = fields := by
  induction fields with
  | nil => rfl
  | cons field fields ih =>
    rw [List.map_cons, List.nodup_cons] at h
    rw [lastOfEach, ih h.2, if_neg]
    -- a field that was hidden would have a name that stands twice
    intro hany
    rcases List.any_eq_true.mp hany with ⟨other, hmem, hname⟩
    exact h.1 (List.mem_map.mpr ⟨other, hmem, eq_of_beq hname⟩)

/-- What a written value begins with: no blank, and no end of a list. -/
theorem exists_text_eq_cons {value : Json} (h : Writable value) :
    ∃ c tail, value.text = c :: tail ∧ (isNumberChar c = true ∨ c ∈ ['n', 't', 'f', '"', '[', '\x7b']) := by
  cases h with
  | null => exact ⟨_, _, rfl, by simp⟩
  | bool b => cases b <;> exact ⟨_, _, rfl, by simp⟩
  | integer =>
    rcases List.exists_cons_of_ne_nil (ofInt_ne_nil _) with ⟨c, tail, htext⟩
    exact ⟨c, tail, htext, .inl (isNumberChar_of_mem_ofInt (htext ▸ List.mem_cons_self))⟩
  | fraction hne hnumber =>
    rcases List.exists_cons_of_ne_nil hne with ⟨c, tail, rfl⟩
    exact ⟨c, tail, rfl, .inl (hnumber c List.mem_cons_self)⟩
  | string => exact ⟨_, _, rfl, by simp⟩
  | array => exact ⟨_, _, rfl, by simp⟩
  | object => exact ⟨_, _, rfl, by simp⟩

/-- A written value begins with no blank, so none is skipped. -/
theorem skipBlanks_text {value : Json} (h : Writable value) (rest : List Char) :
    skipBlanks (value.text ++ rest) = value.text ++ rest := by
  rcases exists_text_eq_cons h with ⟨c, tail, htext, hc⟩
  rw [htext, List.cons_append]
  rcases hc with hc | hc
  · exact skipBlanks_of_isNumberChar hc _
  · simp only [List.mem_cons, List.not_mem_nil, or_false] at hc
    rcases hc with rfl | rfl | rfl | rfl | rfl | rfl <;> rfl

/-- A written value does not begin as an array ends. -/
theorem text_ne_close {value : Json} (h : Writable value) (rest after : List Char) :
    value.text ++ rest ≠ ']' :: after := by
  rcases exists_text_eq_cons h with ⟨c, tail, htext, hc⟩
  rw [htext, List.cons_append]
  intro heq
  rcases List.cons.inj heq with ⟨rfl, -⟩
  revert hc
  decide

/-! ## Reading -/

/-- An array that does not end at once is read item by item. -/
theorem readValue?_array (fuel : Nat) {text : List Char} (htext : skipBlanks text = text)
    (hopen : ∀ after, text ≠ ']' :: after) :
    readValue? (fuel + 1) ('[' :: text)
      = (readItems? fuel text).map fun read => (.array read.1, read.2) := by
  have hblank : skipBlanks ('[' :: text) = '[' :: text := rfl
  rw [readValue?]
  -- `hopen` leaves only an array with items
  simp only [hblank, htext]

/-- The last item stands before the closing bracket. -/
theorem readItems?_last {fuel : Nat} {text rest : List Char} {item : Json}
    (hitem : readValue? fuel text = some (item, ']' :: rest)) :
    readItems? (fuel + 1) text = some ([item], rest) := by
  rw [readItems?, hitem]
  rfl

/-- A comma stands behind any other item. -/
theorem readItems?_cons {fuel : Nat} {text after rest : List Char} {item : Json} {items : List Json}
    (hitem : readValue? fuel text = some (item, ',' :: after))
    (hitems : readItems? fuel after = some (items, rest)) :
    readItems? (fuel + 1) text = some (item :: items, rest) := by
  rw [readItems?, hitem]
  show (readItems? fuel after).bind _ = _
  rw [hitems]
  rfl

/-- A string is its quotes and what is escaped between them. -/
theorem stringText_append (s : String) (rest : List Char) :
    stringText s ++ rest = '"' :: (s.toList.flatMap charText ++ '"' :: rest) := by
  rw [stringText, List.append_assoc]
  rfl

/-- A value that begins with a quote is a string. -/
theorem readValue?_string (fuel : Nat) (s : String) (rest : List Char) :
    readValue? (fuel + 1) (stringText s ++ rest) = some (.string s, rest) := by
  rw [stringText_append]
  show ((readString? (s.toList.flatMap charText ++ '"' :: rest)).map fun read =>
    (Json.string read.1, read.2)) = _
  rw [readString?_text]
  rfl

/-- The last field stands before the closing brace. -/
theorem readFields?_last {fuel : Nat} {text rest : List Char} {value : Json} (name : String)
    (hvalue : readValue? fuel text = some (value, '\x7d' :: rest)) :
    readFields? (fuel + 1) (stringText name ++ ':' :: text) = some ([(name, value)], rest) := by
  rw [stringText_append]
  show ((readString? (name.toList.flatMap charText ++ '"' :: ':' :: text)).bind _) = _
  rw [readString?_text]
  show ((readValue? fuel text).bind _) = _
  rw [hvalue]
  rfl

/-- A comma stands behind any other field. -/
theorem readFields?_cons {fuel : Nat} {text after rest : List Char} {value : Json}
    {fields : List (String × Json)} (name : String)
    (hvalue : readValue? fuel text = some (value, ',' :: after))
    (hfields : readFields? fuel after = some (fields, rest)) :
    readFields? (fuel + 1) (stringText name ++ ':' :: text) = some ((name, value) :: fields, rest) := by
  rw [stringText_append]
  show ((readString? (name.toList.flatMap charText ++ '"' :: ':' :: text)).bind _) = _
  rw [readString?_text]
  show ((readValue? fuel text).bind _) = _
  rw [hvalue]
  show (readFields? fuel after).bind _ = _
  rw [hfields]
  rfl

/-- An object that begins with a name is read field by field. -/
theorem readValue?_object (fuel : Nat) (name : String) (rest : List Char) :
    readValue? (fuel + 1) ('\x7b' :: (stringText name ++ rest))
      = (readFields? fuel (stringText name ++ rest)).map fun read =>
        (.object (lastOfEach read.1), read.2) := by
  rw [stringText_append]
  rfl

theorem itemsText_cons (item : Json) (items : List Json) :
    ∃ tail, itemsText (item :: items) = item.text ++ tail := by
  cases items with
  | nil => exact ⟨_, itemsText.eq_2 item⟩
  | cons next items => exact ⟨_, itemsText.eq_3 item (next :: items) (by simp)⟩

theorem fieldsText_cons (name : String) (value : Json) (fields : List (String × Json)) :
    ∃ tail, fieldsText ((name, value) :: fields) = stringText name ++ tail := by
  cases fields with
  | nil => exact ⟨_, (fieldsText.eq_2 name value).trans (List.append_assoc ..)⟩
  | cons next fields =>
    exact ⟨_, (fieldsText.eq_3 name value (next :: fields) (by simp)).trans (List.append_assoc ..)⟩

mutual

/-- A written value is read up to its end.  Each of its characters is the first of at most two values or
lists, which the fuel counts. -/
theorem readValue?_text {value : Json} {fuel : Nat} {rest : List Char} (h : Writable value)
    (hfuel : 2 * value.text.length ≤ fuel) (hrest : Ends rest) :
    readValue? fuel (value.text ++ rest) = some (value, rest) := by
  have hpos : 0 < fuel := by
    rcases exists_text_eq_cons h with ⟨c, tail, htext, -⟩
    rw [htext, List.length_cons] at hfuel
    omega
  -- the text is not empty, so there is fuel for one step
  rcases Nat.exists_eq_succ_of_ne_zero hpos.ne' with ⟨fuel, rfl⟩
  cases h with
  | null => rfl
  | bool b => cases b <;> rfl
  | integer hmin hmax =>
    rw [text, readValue?_number fuel (ofInt_ne_nil _) (fun _ => isNumberChar_of_mem_ofInt) hrest,
      numberOf_ofInt hmin hmax]
  | fraction hne hnumber hkept =>
    rw [text, readValue?_number fuel hne hnumber hrest, hkept]
  | string s => exact readValue?_string fuel s rest
  | @array items hitems =>
    rw [text, List.length_cons] at hfuel
    rw [text, List.cons_append]
    cases items with
    | nil => rfl
    | cons item items =>
      have hitem := hitems item List.mem_cons_self
      rcases itemsText_cons item items with ⟨tail, htail⟩
      -- the array does not end before its first item
      have hopen : skipBlanks (itemsText (item :: items) ++ rest) = itemsText (item :: items) ++ rest ∧
          ∀ after, itemsText (item :: items) ++ rest ≠ ']' :: after := by
        rw [htail, List.append_assoc]
        exact ⟨skipBlanks_text hitem _, text_ne_close hitem _⟩
      rw [readValue?_array fuel hopen.1 hopen.2, readItems?_text hitems (by omega)]
      rfl
  | @object fields hnames hfields =>
    rw [text, List.length_cons] at hfuel
    rw [text, List.cons_append]
    rcases fields with _ | ⟨⟨name, value⟩, fields⟩
    · rfl
    · rcases fieldsText_cons name value fields with ⟨tail, htail⟩
      have hread : readFields? fuel (fieldsText ((name, value) :: fields) ++ rest)
          = some ((name, value) :: fields, rest) :=
        readFields?_text hfields (by omega)
      rw [htail, List.append_assoc] at hread ⊢
      -- no name stands twice, so all the fields are kept
      rw [readValue?_object, hread, Option.map_some, lastOfEach_of_nodup hnames]
termination_by fuel

/-- Items that were written are read up to the bracket behind them. -/
theorem readItems?_text {item : Json} {items : List Json} {fuel : Nat} {rest : List Char}
    (h : ∀ other ∈ item :: items, Writable other)
    (hfuel : 2 * (itemsText (item :: items)).length < fuel) :
    readItems? fuel (itemsText (item :: items) ++ rest) = some (item :: items, rest) := by
  rcases Nat.exists_eq_succ_of_ne_zero (Nat.ne_zero_of_lt hfuel) with ⟨fuel, rfl⟩
  rcases List.forall_mem_cons.mp h with ⟨hitem, hitems⟩
  cases items with
  | nil =>
    rw [itemsText, List.length_append, List.length_singleton] at hfuel
    rw [itemsText, List.append_assoc]
    -- the bracket ends the last item
    exact readItems?_last (readValue?_text hitem (by omega) (ends_cons rfl _))
  | cons next items =>
    rw [itemsText.eq_3 _ _ (by simp), List.length_append, List.length_cons] at hfuel
    rw [itemsText.eq_3 _ _ (by simp), List.append_assoc]
    -- the comma ends this item, and the others take the rest of the fuel
    exact readItems?_cons (readValue?_text hitem (by omega) (ends_cons rfl _))
      (readItems?_text hitems (by omega))
termination_by fuel

/-- Fields that were written are read up to the brace behind them. -/
theorem readFields?_text {name : String} {value : Json} {fields : List (String × Json)} {fuel : Nat}
    {rest : List Char} (h : ∀ field ∈ (name, value) :: fields, Writable field.2)
    (hfuel : 2 * (fieldsText ((name, value) :: fields)).length < fuel) :
    readFields? fuel (fieldsText ((name, value) :: fields) ++ rest)
      = some ((name, value) :: fields, rest) := by
  rcases Nat.exists_eq_succ_of_ne_zero (Nat.ne_zero_of_lt hfuel) with ⟨fuel, rfl⟩
  rcases List.forall_mem_cons.mp h with ⟨hvalue, hfields⟩
  cases fields with
  | nil =>
    rw [fieldsText, List.length_append, List.length_append, List.length_cons] at hfuel
    rw [fieldsText, List.append_assoc, List.append_assoc]
    -- the brace ends the last field
    exact readFields?_last name (readValue?_text hvalue (by omega) (ends_cons rfl _))
  | cons next fields =>
    rw [fieldsText.eq_3 _ _ _ (by simp), List.length_append, List.length_append, List.length_cons,
      List.length_cons] at hfuel
    rw [fieldsText.eq_3 _ _ _ (by simp), List.append_assoc, List.append_assoc]
    rcases next with ⟨nextName, next⟩
    -- the comma ends this field
    exact readFields?_cons name (readValue?_text hvalue (by omega) (ends_cons rfl _))
      (readFields?_text hfields (by omega))
termination_by fuel

end

/-- A value is read back from its text. -/
theorem ofText?_text {value : Json} (h : Writable value) :
    ofText? (String.ofList value.text) = some value := by
  have hread : readValue? (2 * value.text.length + 2) (value.text ++ []) = some (value, []) :=
    readValue?_text h (by omega) ends_nil
  unfold ofText?
  rw [String.toList_ofList]
  rw [List.append_nil] at hread
  dsimp only
  rw [hread]
  rfl

end LedgerTx.Json
