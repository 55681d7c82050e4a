import LedgerTx.Layout.Scalar
import LedgerTx.Proofs.Text.Decimal
import LedgerTx.Proofs.Text.Quoted

namespace LedgerTx.Listing

/-! # Values of lines

What a value must be so that its first token is read as it was written. -/

/-- What may follow a token: nothing, or what begins with a bracket, after any blanks. -/
def IsComment (after : List Char) : Prop :=
  ∀ c ∈ (Blank.trimLeft after).head?, c = '('

/-- Blanks that do not end a line. -/
def IsSpace (text : List Char) : Prop :=
  ∀ c ∈ text, Blank.isBlank c = true ∧ c ≠ '\n'

/-- What may be put after a token: blanks, and after one blank at least, a bracket and any text. -/
inductive IsRemark : List Char → Prop
  | space {text : List Char} (h : IsSpace text) : IsRemark text
  | bracket {text comment : List Char} (h : IsSpace text) (hne : text ≠ []) (hline : '\n' ∉ comment) :
      IsRemark (text ++ '(' :: comment)

namespace IsSpace

variable {text : List Char}

theorem nil : IsSpace [] := by
  intro c hc
  cases hc

theorem singleton : IsSpace [' '] := by
  intro c hc
  rw [List.mem_singleton.mp hc]
  decide

theorem isBlank (h : IsSpace text) : ∀ c ∈ text, Blank.isBlank c = true :=
  fun c hc => (h c hc).1

theorem newline_notMem (h : IsSpace text) : '\n' ∉ text :=
  fun hmem => (h '\n' hmem).2 rfl

/-- No colon is a blank. -/
theorem colon_notMem (h : IsSpace text) : ':' ∉ text := by
  intro hmem
  have hblank := h.isBlank ':' hmem
  cases hblank

theorem head_isBlank (h : IsSpace text) : ∀ c ∈ text.head?, Blank.isBlank c = true :=
  fun c hc => h.isBlank c (List.mem_of_mem_head? hc)

end IsSpace

namespace IsRemark

variable {after : List Char}

theorem nil : IsRemark [] := .space .nil

/-- A remark stays on its line. -/
theorem newline_notMem (h : IsRemark after) : '\n' ∉ after := by
  cases h with
  | space h => exact h.newline_notMem
  | bracket h hne hline =>
    intro hmem
    rcases List.mem_append.mp hmem with hspace | hrest
    · exact h.newline_notMem hspace
    · rcases List.mem_cons.mp hrest with hbracket | hcomment
      · revert hbracket
        decide
      · exact hline hcomment

/-- A remark begins with a blank, so the token ends before it. -/
theorem head_isBlank (h : IsRemark after) : ∀ c ∈ after.head?, Blank.isBlank c = true := by
  cases h with
  | space h => exact h.head_isBlank
  | bracket h hne hline =>
    obtain ⟨d, text, rfl⟩ := List.exists_cons_of_ne_nil hne
    intro c hc
    cases hc
    exact h.isBlank d (List.mem_cons_self ..)

/-- What may be put after a token may follow it. -/
theorem isComment (h : IsRemark after) : IsComment after := by
  intro c hc
  cases h with
  | space h =>
    -- blanks alone are cut off, and nothing is left
    rw [Blank.trimLeft_of_blank h.isBlank] at hc
    cases hc
  | bracket h hne hline =>
    -- the bracket is the first that is left
    rw [Blank.trimLeft_append h.isBlank] at hc
    cases hc
    rfl

end IsRemark

/-- A value is its token and what follows it. -/
theorem splitToken_fst_append_snd (value : List Char) :
    (splitToken value).1 ++ (splitToken value).2 = value := by
  unfold splitToken
  split
  · rename_i rest
    exact congrArg ('"' :: ·) (Quoted.spanBody_fst_append_snd rest)
  · unfold Blank.spanWord
    rw [List.span_eq_takeWhile_dropWhile]
    exact List.takeWhile_append_dropWhile

/-- Texts that are tokens, whatever blank they are followed by. -/
structure IsToken (token : List Char) : Prop where
  ne_nil : token ≠ []
  tight : Blank.Tight token
  oneLine : '\n' ∉ token
  splitToken_append : ∀ {rest : List Char}, (∀ c ∈ rest.head?, Blank.isBlank c = true) →
    splitToken (token ++ rest) = (token, rest)

/-- Values that are read as they were written. -/
structure Sound (value : List Char) : Prop where
  isToken : IsToken (splitToken value).1
  remark : IsRemark (splitToken value).2
  tight : Blank.Tight value
  oneLine : '\n' ∉ value

/-- A sound value has a token. -/
theorem Sound.token_ne {value : List Char} (h : Sound value) : (splitToken value).1 ≠ [] :=
  h.isToken.ne_nil

/-- Nothing but a comment follows the token of a sound value. -/
theorem Sound.comment {value : List Char} (h : Sound value) : IsComment (splitToken value).2 :=
  h.remark.isComment

theorem Sound.ne_nil {value : List Char} (h : Sound value) : value ≠ [] := by
  rintro rfl
  exact h.token_ne rfl

/-! ## Bare tokens -/

/-- Texts that are tokens without quotes. -/
structure Word (text : List Char) : Prop where
  ne_nil : text ≠ []
  isBlank : ∀ c ∈ text, Blank.isBlank c = false
  head_ne : text.head? ≠ some '"'

namespace Word

variable {word : List Char}

theorem newline_notMem (h : Word word) : '\n' ∉ word := by
  intro hmem
  have hblank := h.isBlank '\n' hmem
  cases hblank

/-- A word is the token of a value that goes on with a blank. -/
theorem splitToken_append (h : Word word) {rest : List Char}
    (hrest : ∀ c ∈ rest.head?, Blank.isBlank c = true) : splitToken (word ++ rest) = (word, rest) := by
  have hspan := Blank.spanWord_append h.isBlank hrest
  unfold splitToken
  split
  · -- a quote in front would have begun a quoted token
    rename_i body heq
    cases word with
    | nil => exact absurd rfl h.ne_nil
    | cons c tail =>
      cases heq
      exact absurd rfl h.head_ne
  · exact hspan

/-- A word is all of its token. -/
theorem splitToken_eq (h : Word word) : splitToken word = (word, []) := by
  have hrest : ∀ c ∈ ([] : List Char).head?, Blank.isBlank c = true := by
    intro c hc
    cases hc
  have hsplit := h.splitToken_append hrest
  rwa [List.append_nil] at hsplit

/-- A word ends at the first blank behind it. -/
theorem isToken (h : Word word) : IsToken word where
  ne_nil := h.ne_nil
  tight := Blank.tight_of_forall h.isBlank
  oneLine := h.newline_notMem
  splitToken_append := h.splitToken_append

/-- A word is read as it was written. -/
theorem sound (h : Word word) : Sound word where
  isToken := by
    rw [h.splitToken_eq]
    exact h.isToken
  remark := by
    rw [h.splitToken_eq]
    exact .nil
  tight := Blank.tight_of_forall h.isBlank
  oneLine := h.newline_notMem

/-- A comment after a word begins with a blank, which ends the word. -/
theorem splitToken_withComment (h : Word word) (comment : List Char) :
    splitToken (withComment word comment) = (word, ' ' :: '(' :: comment ++ [')']) := by
  have hrest : ∀ c ∈ (' ' :: '(' :: comment ++ [')']).head?, Blank.isBlank c = true := by
    intro c hc
    cases hc
    rfl
  have hsplit := h.splitToken_append hrest
  have heq : withComment word comment = word ++ (' ' :: '(' :: comment ++ [')']) := by
    unfold withComment
    rw [List.append_assoc]
  rw [heq]
  exact hsplit

/-- A comment after a word does no harm. -/
theorem sound_withComment (h : Word word) {comment : List Char} (hline : '\n' ∉ comment) :
    Sound (withComment word comment) where
  isToken := by
    rw [h.splitToken_withComment]
    exact h.isToken
  remark := by
    rw [h.splitToken_withComment]
    refine .bracket .singleton (List.cons_ne_nil _ _) fun hmem => ?_
    rcases List.mem_append.mp hmem with hcomment | hclose
    · exact hline hcomment
    · revert hclose
      decide
  tight := by
    constructor
    -- the word is in front and the closing bracket at the end
    · intro c hc
      cases word with
      | nil => exact absurd rfl h.ne_nil
      | cons d tail =>
        cases hc
        exact h.isBlank c (List.mem_cons_self ..)
    · intro c hc
      unfold withComment at hc
      rw [List.getLast?_concat] at hc
      cases hc
      rfl
  oneLine := by
    intro hmem
    unfold withComment at hmem
    simp only [List.mem_append, List.mem_cons, List.not_mem_nil, or_false] at hmem
    rcases hmem with (hword | hspace | hopen | hcomment) | hclose
    · exact h.newline_notMem hword
    · cases hspace
    · cases hopen
    · exact hline hcomment
    · cases hclose

end Word

/-- A text of letters, digits, underscores and the like is a word. -/
theorem Word.of_all {text : List Char} (hne : text ≠ [])
    (h : ∀ c ∈ text, Blank.isBlank c = false ∧ c ≠ '"') : Word text where
  ne_nil := hne
  isBlank c hc := (h c hc).1
  head_ne heq := (h '"' (List.mem_of_mem_head? heq)).2 rfl

/-! ## Quoted tokens -/

/-- The closing quote ends the token, whatever follows it. -/
theorem splitToken_quoted (text after : List Char) :
    splitToken (Quoted.encode text ++ after) = (Quoted.encode text, after) := by
  have hspan := Quoted.spanBody_encode text after
  have heq : Quoted.encode text ++ after = '"' :: (text.flatMap Quoted.escape ++ '"' :: after) := by
    unfold Quoted.encode
    simp only [List.cons_append, List.append_assoc, List.nil_append]
  rw [heq]
  show ('"' :: (Quoted.spanBody _).1, (Quoted.spanBody _).2) = _
  rw [hspan]
  rfl

/-- A quoted text is all of its token. -/
theorem splitToken_encode (text : List Char) :
    splitToken (Quoted.encode text) = (Quoted.encode text, []) := by
  have hsplit := splitToken_quoted text []
  rwa [List.append_nil] at hsplit

/-- Quoted texts are tokens: no character in them is a line end, and quotes stand at both ends. -/
theorem isToken_encode (text : List Char) : IsToken (Quoted.encode text) where
  ne_nil := List.cons_ne_nil _ _
  splitToken_append _ := splitToken_quoted text _
  tight := by
    constructor
    · intro c hc
      cases hc
      rfl
    · intro c hc
      unfold Quoted.encode at hc
      rw [List.getLast?_concat] at hc
      cases hc
      rfl
  oneLine := by
    intro hmem
    -- what is quoted is printable, and a line feed is not
    have hlarge := Quoted.le_of_mem_encode hmem
    revert hlarge
    decide

/-- A quoted text is read as it was written. -/
theorem sound_encode (text : List Char) : Sound (Quoted.encode text) where
  isToken := by
    rw [splitToken_encode]
    exact isToken_encode text
  remark := by
    rw [splitToken_encode]
    exact .nil
  tight := (isToken_encode text).tight
  oneLine := (isToken_encode text).oneLine

end LedgerTx.Listing
