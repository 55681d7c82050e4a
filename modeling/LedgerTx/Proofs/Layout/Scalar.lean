import LedgerTx.Layout.Scalar
import LedgerTx.Proofs.Bytes.Hex
import LedgerTx.Proofs.Layout.Line
import LedgerTx.Proofs.Wire.Composed

namespace LedgerTx

open Listing

/-! # Lines of single values -/

/-! ## Words -/

theorem isBlank_of_isAlphanum {c : Char} (h : c.isAlphanum = true) : Blank.isBlank c = false := by
  have hrange := Utf8.isAlphanum_iff.mp h
  simp only [Blank.isBlank, Bool.or_eq_false_iff, Bool.and_eq_false_iff, decide_eq_false_iff_not,
    beq_eq_false_iff_ne]
  omega

/-- Letters and digits are a word. -/
theorem word_of_alphanum {text : List Char} (hne : text ≠ []) (h : ∀ c ∈ text, c.isAlphanum = true) :
    Word text := by
  refine .of_all hne fun c hc => ⟨isBlank_of_isAlphanum (h c hc), ?_⟩
  exact Quoted.ne_of_isAlphanum (h c hc) rfl

/-- The digits of a number are neither blanks nor quotes. -/
theorem isBlank_of_mem_ofNat {n : Nat} {c : Char} (h : c ∈ Decimal.ofNat n) :
    Blank.isBlank c = false ∧ c ≠ '"' := by
  have hdigit := Decimal.isDigit_of_mem_ofNat h
  refine ⟨Decimal.isBlank_of_isDigit hdigit, ?_⟩
  rintro rfl
  cases hdigit

theorem word_ofNat (n : Nat) : Word (Decimal.ofNat n) :=
  .of_all Nat.toDigits_ne_nil fun _ hc => isBlank_of_mem_ofNat hc

/-- A signed number is a word, with a minus in front or without. -/
theorem word_ofInt (i : Int) : Word (Decimal.ofInt i) := by
  unfold Decimal.ofInt
  -- the minus is no digit, but no blank and no quote either
  split
  · refine .of_all (List.cons_ne_nil _ _) fun c hc => ?_
    rcases List.mem_cons.mp hc with rfl | hmem
    · exact ⟨rfl, by decide⟩
    · exact isBlank_of_mem_ofNat hmem
  · exact word_ofNat _

namespace LineLaw

variable {α : Type} {codec : Codec α}

/-- Where only plain values are read, whatever is written: the line of another value is never read as
that value. -/
theorem of_read {lenient : Bool} {print : α → Except LineError (List Char)}
    {parse : List Char → List Char → Except LineError α} {plain : α → Prop}
    (wire : Codec.Composed lenient codec)
    (hprint : ∀ a, codec.fits .standard a = true → plain a →
      ∃ value, print a = .ok value ∧ Word value ∧ ∀ after, parse value after = .ok a)
    (hread : ∀ token after b, parse token after = .ok b → plain b ∧ codec.fits .standard b = true) :
    LineLaw codec (.line print parse) plain (fun _ => True) where
  exists_parse := by
    refine ⟨print, parse, rfl, fun a hfits hplain => ?_, ?_⟩
    · rcases hprint a hfits hplain with ⟨value, hvalue, hword, hparse⟩
      refine ⟨value, hvalue, hword.sound, fun after _ => .of_eq ?_⟩
      rw [hword.splitToken_eq]
      exact hparse after
    · -- what is read is plain, so its bytes are never read as a value that is not
      intro a value token after b _ hplain _ hparse tail rest hdecode
      rcases hread token after b hparse with ⟨hb, hfits⟩
      rw [wire.decode_encode hfits] at hdecode
      cases hdecode
      exact hplain hb

/-! ## Numbers -/

/-- A number with a comment or without. -/
theorem of_digits {print digits : α → List Char} {parse? : List Char → Option α}
    (hword : ∀ a, Word (digits a))
    (hprint : ∀ a, print a = digits a
      ∨ ∃ comment, '\n' ∉ comment ∧ print a = withComment (digits a) comment)
    (hparse : ∀ a, parse? (digits a) = some a) :
    LineLaw codec (.number print parse?) (fun _ => True) (fun _ => True) := by
  have hall : ∀ a, Sound (print a) ∧ (splitToken (print a)).1 = digits a := by
    intro a
    rcases hprint a with hbare | ⟨comment, hline, hcomment⟩
    · rw [hbare, (hword a).splitToken_eq]
      exact ⟨(hword a).sound, rfl⟩
    · rw [hcomment, (hword a).splitToken_withComment]
      exact ⟨(hword a).sound_withComment hline, rfl⟩
  refine of_number (fun a => (hall a).1) fun a => ?_
  rw [(hall a).2]
  exact hparse a

theorem uint32 : LineLaw .uint32 Layout.uint32.form (fun _ => True) (fun _ => True) :=
  of_digits (fun v => word_ofNat v.toNat) (fun _ => Or.inl rfl) Decimal.uint32?_ofNat

theorem uint64 : LineLaw .uint64 Layout.uint64.form (fun _ => True) (fun _ => True) :=
  of_digits (fun v => word_ofNat v.toNat) (fun _ => Or.inl rfl) Decimal.uint64?_ofNat

theorem int32 : LineLaw .int32 Layout.int32.form (fun _ => True) (fun _ => True) :=
  of_digits (fun v => word_ofInt v.toInt) (fun _ => Or.inl rfl) Decimal.int32?_ofInt

theorem int64 : LineLaw .int64 Layout.int64.form (fun _ => True) (fun _ => True) :=
  of_digits (fun v => word_ofInt v.toInt) (fun _ => Or.inl rfl) Decimal.int64?_ofInt

theorem newline_notMem_ofNat (n : Nat) : '\n' ∉ Decimal.ofNat n :=
  (word_ofNat n).newline_notMem

/-- No line ends within the text of an amount. -/
theorem newline_notMem_magnitudeText (stroops : Nat) : '\n' ∉ Amount.magnitudeText stroops := by
  have hdigits := newline_notMem_ofNat
  unfold Amount.magnitudeText
  dsimp only
  split
  · exact hdigits _
  · -- the whole part, the point, and the places padded with zeros
    intro hmem
    rcases List.mem_append.mp hmem with hwhole | hpoint
    · exact hdigits _ hwhole
    · rcases List.mem_cons.mp hpoint with hdot | hplaces
      · cases hdot
      · unfold Amount.dropZeros Amount.padLeft at hplaces
        rw [List.mem_reverse] at hplaces
        have hpadded := (List.dropWhile_sublist _).mem hplaces
        rw [List.mem_reverse] at hpadded
        rcases List.mem_append.mp hpadded with hzero | hfraction
        · cases List.eq_of_mem_replicate hzero
        · exact hdigits _ hfraction

/-- No line ends within the comment on an amount. -/
theorem newline_notMem_comment (stroops : Int64) : '\n' ∉ Amount.comment stroops := by
  have hmagnitude := newline_notMem_magnitudeText stroops.toInt.natAbs
  unfold Amount.comment Amount.unitsText
  dsimp only
  intro hmem
  rcases List.mem_append.mp hmem with hunits | hend
  · split at hunits
    · rcases List.mem_cons.mp hunits with hsign | hrest
      · cases hsign
      · exact hmagnitude hrest
    · exact hmagnitude hunits
  · revert hend
    decide

/-- No line ends within a date. -/
theorem newline_notMem_timestamp (seconds : Nat) : '\n' ∉ Calendar.timestamp seconds := by
  have htwo : ∀ n, '\n' ∉ Calendar.twoDigits n := by
    intro n
    unfold Calendar.twoDigits
    split
    · exact List.not_mem_cons_of_ne_of_not_mem (by decide) (newline_notMem_ofNat n)
    · exact newline_notMem_ofNat n
  have hyear : ∀ n, '\n' ∉ Calendar.yearText n := by
    intro n
    unfold Calendar.yearText
    split
    · exact List.not_mem_cons_of_ne_of_not_mem (by decide) (newline_notMem_ofNat n)
    · exact newline_notMem_ofNat n
  -- year, month, day and time of day, with marks between them
  have hjoin : ∀ year month day hour minute second : Nat,
      '\n' ∉ Calendar.yearText year ++ '-' :: Calendar.twoDigits month ++ '-' :: Calendar.twoDigits day
        ++ 'T' :: Calendar.twoDigits hour ++ ':' :: Calendar.twoDigits minute
        ++ ':' :: Calendar.twoDigits second ++ ['Z'] := by
    intro year month day hour minute second
    simp [htwo, hyear]
  exact hjoin _ _ _ _ _ _

/-- An amount stands in stroops, with a comment in whole units behind it. -/
theorem amount : LineLaw .int64 Layout.amount.form (fun _ => True) (fun _ => True) :=
  of_digits (fun v => word_ofInt v.toInt)
    (fun v => Or.inr ⟨Amount.comment v, newline_notMem_comment v, rfl⟩) Decimal.int64?_ofInt

/-- Seconds are followed by a comment with their date, or by nothing if they have none. -/
theorem secondsText_cases (digits : List Char) (seconds : Nat) :
    Layout.secondsText digits seconds = digits
      ∨ ∃ comment, '\n' ∉ comment ∧ Layout.secondsText digits seconds = withComment digits comment := by
  unfold Layout.secondsText Calendar.timestamp?
  split
  · rename_i time htime
    split at htime
    · cases htime
    · cases htime
      exact Or.inr ⟨_, newline_notMem_timestamp seconds, rfl⟩
  · exact Or.inl rfl

/-- A point in time stands in seconds, with a comment if it has a date. -/
theorem time : LineLaw .uint64 Layout.time.form (fun _ => True) (fun _ => True) :=
  of_digits (fun v => word_ofNat v.toNat) (fun _ => secondsText_cases _ _) Decimal.uint64?_ofNat

theorem signedTime : LineLaw .int64 Layout.signedTime.form (fun _ => True) (fun _ => True) :=
  of_digits (fun v => word_ofInt v.toInt) (fun _ => secondsText_cases _ _) Decimal.int64?_ofInt

/-- A count within its limits. -/
theorem count (max : Nat) :
    LineLaw (.count "array" max) (.count max) (fun _ => True) (fun _ => True) := by
  refine of_printParse fun n hfits => ?_
  have hle : n ≤ min max Rules.maxCount := of_decide_eq_true hfits
  have hsmall : n ≤ UInt32.size - 1 := Nat.le_trans hle (Nat.min_le_right ..)
  have hlimit : n ≤ Rules.standard.limit max := hle
  have hword : (UInt32.ofNat n).toNat = n := Codec.toNat_ofNat_of_le_limit hlimit
  refine ⟨Decimal.ofNat n, rfl, (word_ofNat n).sound, fun _ _ => .of_eq ?_⟩
  have hparse : Decimal.uint32? (Decimal.ofNat n) = some (UInt32.ofNat n) := by
    unfold Decimal.uint32?
    rw [Decimal.natUpTo?_ofNat hsmall]
    rfl
  rw [(word_ofNat n).splitToken_eq]
  dsimp only
  rw [hparse]
  dsimp only
  rw [hword, if_pos (Nat.le_trans hle (Nat.min_le_left ..))]

theorem bool {codec : Codec Bool} : LineLaw codec .bool (fun _ => True) (fun _ => True) := by
  refine of_word (fun b => ?_) fun b _ => .of_eq ?_
  · cases b <;> exact word_of_alphanum (List.cons_ne_nil _ _) (List.all_eq_true.mp rfl)
  · cases b <;> rfl

/-! ## Bytes -/

/-- Bytes stand as one token, which two quotes are when there are none. -/
theorem hexText_cases (bytes : List UInt8) :
    Sound (if bytes.isEmpty then ['"', '"'] else Hex.encode bytes)
      ∧ splitToken (if bytes.isEmpty then ['"', '"'] else Hex.encode bytes)
        = (if bytes.isEmpty then ['"', '"'] else Hex.encode bytes, []) := by
  cases bytes with
  | nil => exact ⟨sound_encode [], splitToken_encode []⟩
  | cons b bytes =>
    have hword : Word (Hex.encode (b :: bytes)) :=
      word_of_alphanum (List.cons_ne_nil _ _) fun c hc => Hex.isAlphanum_of_mem_encode hc
    exact ⟨hword.sound, hword.splitToken_eq⟩

/-- Bytes are read back from their token, the two quotes included. -/
theorem hexText_decode (bytes : List UInt8) :
    (if (if bytes.isEmpty then ['"', '"'] else Hex.encode bytes) = ['"', '"'] then .ok []
      else (Hex.decode (if bytes.isEmpty then ['"', '"'] else Hex.encode bytes)).mapError .notHex :
        Except LineError (List UInt8)) = .ok bytes := by
  cases bytes with
  | nil => rfl
  | cons b bytes =>
    have hbare : (if (b :: bytes).isEmpty then ['"', '"'] else Hex.encode (b :: bytes))
        = Hex.encode (b :: bytes) := rfl
    -- digits are never taken for the two quotes
    have hne : Hex.encode (b :: bytes) ≠ ['"', '"'] := by
      intro heq
      have hquote : '"' ∈ Hex.encode (b :: bytes) := heq ▸ List.mem_cons_self ..
      have hdigit := Hex.isAlphanum_of_mem_encode hquote
      cases hdigit
    rw [hbare, if_neg hne, Hex.decode_encode]
    rfl

theorem hex {codec : Codec (List UInt8)} : LineLaw codec .hex (fun _ => True) (fun _ => True) := by
  refine of_token (fun bytes => (hexText_cases bytes).1) fun bytes _ => .of_eq ?_
  rw [(hexText_cases bytes).2]
  exact hexText_decode bytes

/-- Byte strings of a fixed size stand in hexadecimal digits, and are read at that size only. -/
theorem fixedHex (n : Nat) {codec : Codec (FixedBytes n)} :
    LineLaw codec (.fixedHex n) (fun _ => True) (fun _ => True) := by
  refine of_token (fun bytes => (hexText_cases bytes.toList).1) fun bytes _ => .of_eq ?_
  rw [(hexText_cases bytes.toList).2]
  have hdecode := hexText_decode bytes.toList
  have hfixed := FixedBytes.ofList?_toList bytes
  -- an empty byte string has a size too, which is zero
  by_cases htoken : (if bytes.toList.isEmpty then ['"', '"'] else Hex.encode bytes.toList) = ['"', '"']
  · rw [if_pos htoken] at hdecode ⊢
    have hempty : [] = bytes.toList := Except.ok.inj hdecode
    dsimp only [bind, Except.bind]
    rw [hempty, hfixed]
    rfl
  · rw [if_neg htoken] at hdecode ⊢
    rw [hdecode]
    dsimp only [bind, Except.bind]
    rw [hfixed]
    rfl

/-! ## Texts -/

/-- A quoted text is read whatever follows it. -/
theorem parseText_encode (text after : List Char) :
    Form.parseText (Quoted.encode text) after = .ok (String.ofList text) := by
  have hhead : (Quoted.encode text).head? = some '"' := rfl
  unfold Form.parseText
  rw [if_pos hhead, Quoted.decode_encode]

/-- A bare word is read as it stands, if nothing but a remark follows it. -/
theorem parseText_word {word after : List Char} (hword : Word word) (hafter : IsComment after) :
    Form.parseText word after = .ok (String.ofList word) := by
  unfold Form.parseText
  rw [if_neg hword.head_ne]
  unfold IsComment at hafter
  split
  · rfl
  · rfl
  · -- a remark opens with a bracket, so nothing else follows the word
    rename_i hnil hopen
    cases h : Blank.trimLeft after with
    | nil => exact absurd h hnil
    | cons c rest =>
      rw [h] at hafter
      have hc := hafter c rfl
      rw [hc] at h
      exact absurd h (hopen rest)

/-- Every text can be quoted and read back. -/
theorem printParse_quoted (s : String) :
    PrintParse (fun s => .ok (Quoted.encode s.toList)) Form.parseText True s := by
  refine ⟨_, rfl, sound_encode _, fun after _ => .of_eq ?_⟩
  rw [splitToken_encode, parseText_encode, String.ofList_toList]

theorem text {codec : Codec String} : LineLaw codec .text (fun _ => True) (fun _ => True) :=
  of_printParse fun s _ => printParse_quoted s

/-- Plain identifiers are words, and others are quoted. -/
theorem printParse_symbol (s : String) :
    PrintParse (fun s => .ok (if Form.isPlain s.toList then s.toList else Quoted.encode s.toList))
      Form.parseText True s := by
  by_cases hplain : Form.isPlain s.toList = true
  · rcases Bool.and_eq_true_iff.mp hplain with ⟨hne, hall⟩
    have hword : Word s.toList := by
      refine .of_all ?_ fun c hc => ?_
      · intro heq
        rw [heq] at hne
        cases hne
      · rcases Bool.or_eq_true_iff.mp (List.all_eq_true.mp hall c hc) with hletter | hunder
        · exact ⟨isBlank_of_isAlphanum hletter, Quoted.ne_of_isAlphanum hletter rfl⟩
        · rw [eq_of_beq hunder]
          exact ⟨rfl, by decide⟩
    refine ⟨s.toList, congrArg Except.ok (if_pos hplain), hword.sound, fun after hafter => .of_eq ?_⟩
    rw [hword.splitToken_eq, parseText_word hword hafter, String.ofList_toList]
  · -- any other symbol is written as texts are
    rcases printParse_quoted s with ⟨value, hvalue, hsound, hparse⟩
    cases hvalue
    exact ⟨_, congrArg Except.ok (if_neg hplain), hsound, hparse⟩

/-- Symbols stand bare if they are plain, and are quoted if not. -/
theorem symbol {codec : Codec String} : LineLaw codec .symbol (fun _ => True) (fun _ => True) :=
  of_printParse fun s _ => printParse_symbol s

end LineLaw

/-! ## Constants -/

/-- Whether a text is a word. -/
def isWord (text : List Char) : Bool :=
  !text.isEmpty && text.all fun c => !Blank.isBlank c && c != '"'

/-- A text that passes the check is a word. -/
theorem word_of_isWord {text : List Char} (h : isWord text = true) : Word text := by
  rcases Bool.and_eq_true_iff.mp h with ⟨hne, hall⟩
  refine .of_all ?_ fun c hc => ?_
  · intro heq
    rw [heq] at hne
    cases hne
  · rcases Bool.and_eq_true_iff.mp (List.all_eq_true.mp hall c hc) with ⟨hblank, hquote⟩
    exact ⟨Bool.not_eq_true' _ ▸ hblank, bne_iff_ne.mp hquote⟩

/-- Enumerations of which the names are words that tell the constants apart. -/
class Enumeration.Named (κ : Type) [Enumeration κ] : Prop where
  ofName?_name : ∀ k : κ, Enumeration.ofName? (Enumeration.name k) = some k
  isWord_name : ∀ k : κ, isWord (Enumeration.name k).toList = true

namespace LineLaw

variable {κ τ : Type} [Enumeration κ] [Enumeration.Named κ]

theorem constant {codec : Codec κ} : LineLaw codec (.constant κ) (fun _ => True) (fun _ => True) :=
  of_named (fun k => word_of_isWord (Enumeration.Named.isWord_name k)) Enumeration.Named.ofName?_name

/-- An arm stands in the name of its constant. -/
theorem arms {codec : Codec τ} {constantOf : τ → κ} {arm? : κ → Option τ}
    {refuse : String → LineError} (hsome : ∀ t, arm? (constantOf t) = some t) :
    LineLaw codec (.arms constantOf arm? refuse) (fun _ => True) (fun _ => True) := by
  refine of_word (fun t => word_of_isWord (Enumeration.Named.isWord_name _)) fun t _ => .of_eq ?_
  rw [String.ofList_toList, Enumeration.Named.ofName?_name]
  dsimp only
  rw [hsome]

end LineLaw

/-- A version is read back from its number. -/
theorem LineLaw.version {κ : Type} [Enumeration κ] [Enumeration.Numbered κ] {codec : Codec κ} :
    LineLaw codec (Layout.version κ).form (fun _ => True) (fun _ => True) := by
  unfold Layout.version
  dsimp only
  refine of_printParse fun k _ => ?_
  refine ⟨Decimal.ofInt (Enumeration.number k).toInt, rfl, (word_ofInt _).sound, fun _ _ => .of_eq ?_⟩
  rw [(word_ofInt _).splitToken_eq]
  dsimp only
  rw [Decimal.int32?_ofInt]
  dsimp only
  rw [Enumeration.Numbered.ofNumber?_number]

end LedgerTx
