import LedgerTx.Text.Blank
import Mathlib.Data.List.TakeDrop
import Mathlib.Data.List.TakeWhile

namespace LedgerTx

/-! # Cutting texts -/

/-- A text is cut where the first character stands that does not belong to the front. -/
theorem span_append {α : Type} {p : α → Bool} {front rest : List α} (hfront : ∀ a ∈ front, p a = true)
    (hrest : ∀ a ∈ rest.head?, p a = false) : (front ++ rest).span p = (front, rest) := by
  rw [List.span_eq_takeWhile_dropWhile, List.takeWhile_append_of_pos hfront,
    List.dropWhile_append_of_pos hfront]
  cases rest with
  | nil => rw [List.takeWhile_nil, List.append_nil, List.dropWhile_nil]
  | cons a rest =>
    have hstop := hrest a rfl
    rw [List.takeWhile_cons, List.dropWhile_cons, hstop, if_neg Bool.false_ne_true,
      if_neg Bool.false_ne_true, List.append_nil]

/-- Cut before a character, a text is whole or has the character behind the cut. -/
theorem span_ne_cases (c : Char) (text : List Char) :
    text.span (· != c) = (text, []) ∨
      ∃ before after, text.span (· != c) = (before, c :: after) ∧ text = before ++ c :: after := by
  rw [List.span_eq_takeWhile_dropWhile]
  have htext := List.takeWhile_append_dropWhile (p := (· != c)) (l := text)
  -- either nothing is left behind the cut, or what is left begins with the character
  cases hrest : text.dropWhile (· != c) with
  | nil =>
    left
    rw [hrest, List.append_nil] at htext
    rw [htext]
  | cons found after =>
    right
    have hstop := List.head?_dropWhile_not (· != c) text
    rw [hrest] at hstop htext
    have hfound : found = c := by simpa using hstop
    rw [hfound] at htext ⊢
    exact ⟨_, after, rfl, htext.symm⟩

namespace Blank

/-! ## Blanks at the ends -/

/-- A text is tight if no blank stands at its ends. -/
structure Tight (text : List Char) : Prop where
  head : ∀ c ∈ text.head?, isBlank c = false
  last : ∀ c ∈ text.getLast?, isBlank c = false

/-- A text without blanks is tight. -/
theorem tight_of_forall {text : List Char} (h : ∀ c ∈ text, isBlank c = false) : Tight text where
  head c hc := h c (List.mem_of_mem_head? hc)
  last c hc := h c (List.mem_of_getLast? hc)

/-- Nothing is dropped in front of a character that is no blank. -/
theorem dropWhile_isBlank {text : List Char} (h : ∀ c ∈ text.head?, isBlank c = false) :
    text.dropWhile isBlank = text := by
  cases text with
  | nil => rfl
  | cons c rest =>
    have hc := h c rfl
    rw [List.dropWhile_cons, hc]
    rfl

/-- Nothing is cut off behind a character that is no blank. -/
theorem trimRight_of_last {text : List Char} (h : ∀ c ∈ text.getLast?, isBlank c = false) :
    trimRight text = text := by
  have hlast : ∀ c ∈ text.reverse.head?, isBlank c = false := by
    rw [List.head?_reverse]
    exact h
  unfold trimRight
  rw [dropWhile_isBlank hlast, List.reverse_reverse]

/-- Nothing is cut off a tight text. -/
theorem trim_of_tight {text : List Char} (h : Tight text) : trim text = text := by
  unfold trim trimLeft
  rw [dropWhile_isBlank h.head, trimRight_of_last h.last]

/-- Blanks in front are cut off up to the first character that is none. -/
theorem trimLeft_append_cons {c : Char} (hc : isBlank c = false) (front back : List Char) :
    trimLeft (front ++ c :: back) = trimLeft front ++ c :: back := by
  have hstop : (c :: back).dropWhile isBlank = c :: back := by
    rw [List.dropWhile_cons, hc]
    rfl
  unfold trimLeft
  rw [List.dropWhile_append, hstop]
  split
  · rename_i hempty
    rw [List.isEmpty_iff.mp hempty, List.nil_append]
  · rfl

/-- Blanks at the end are those behind the last character that is none. -/
theorem trimRight_append_cons {c : Char} (hc : isBlank c = false) (front back : List Char) :
    trimRight (front ++ c :: back) = front ++ c :: trimRight back := by
  -- the end is cut as the front of the reversed text
  have hreverse : (front ++ c :: back).reverse = back.reverse ++ c :: front.reverse := by
    rw [List.reverse_append, List.reverse_cons, List.append_assoc]
    rfl
  have hcut := trimLeft_append_cons hc back.reverse front.reverse
  unfold trimLeft at hcut
  unfold trimRight
  rw [hreverse, hcut, List.reverse_append, List.reverse_cons, List.reverse_reverse, List.append_assoc]
  rfl

/-- Both ends of a text are cut apart from what stands between them. -/
theorem trim_append_cons {c : Char} (hc : isBlank c = false) (front back : List Char) :
    trim (front ++ c :: back) = trimLeft front ++ c :: trimRight back := by
  unfold trim
  rw [trimLeft_append_cons hc, trimRight_append_cons hc]

theorem trimLeft_of_blank {text : List Char} (h : ∀ c ∈ text, isBlank c = true) : trimLeft text = [] :=
  List.dropWhile_eq_nil_iff.mpr h

/-- A text of blanks is cut off as a whole. -/
theorem trim_of_blank {text : List Char} (h : ∀ c ∈ text, isBlank c = true) : trim text = [] := by
  unfold trim
  rw [trimLeft_of_blank h]
  rfl

/-- Blanks in front of a text are cut off. -/
theorem trimLeft_append {front : List Char} (hfront : ∀ c ∈ front, isBlank c = true)
    (text : List Char) : trimLeft (front ++ text) = trimLeft text := by
  unfold trimLeft
  rw [List.dropWhile_append_of_pos hfront]

/-- Blanks behind a text are cut off. -/
theorem trimRight_append {back : List Char} (hback : ∀ c ∈ back, isBlank c = true)
    (text : List Char) : trimRight (text ++ back) = trimRight text := by
  have hreverse : ∀ c ∈ back.reverse, isBlank c = true := fun c hc => hback c (List.mem_reverse.mp hc)
  unfold trimRight
  rw [List.reverse_append, List.dropWhile_append_of_pos hreverse]

/-- No blank is left at the front. -/
theorem head_trimLeft (text : List Char) : ∀ c ∈ (trimLeft text).head?, isBlank c = false := by
  intro c hc
  have hstop := List.head?_dropWhile_not isBlank text
  rw [show (text.dropWhile isBlank).head? = some c from hc] at hstop
  exact hstop

/-- No blank is left at the end. -/
theorem last_trimRight (text : List Char) : ∀ c ∈ (trimRight text).getLast?, isBlank c = false := by
  intro c hc
  unfold trimRight at hc
  rw [List.getLast?_reverse] at hc
  exact head_trimLeft text.reverse c hc

/-- What has been cut off at the end is not there to be cut off again. -/
theorem trimRight_trimRight (text : List Char) : trimRight (trimRight text) = trimRight text :=
  trimRight_of_last (last_trimRight text)

/-- What has been cut off in front is not there to be cut off again. -/
theorem trimLeft_trimLeft (text : List Char) : trimLeft (trimLeft text) = trimLeft text :=
  dropWhile_isBlank (head_trimLeft text)

theorem trimRight_isPrefix (text : List Char) : trimRight text <+: text := by
  have hreverse := List.reverse_prefix.mpr (List.dropWhile_suffix isBlank (l := text.reverse))
  rwa [List.reverse_reverse] at hreverse

/-- What is left of a text is tight. -/
theorem tight_trim (text : List Char) : Tight (trim text) where
  head c hc := by
    -- what the end loses does not change the first character
    obtain ⟨cut, hcut⟩ := trimRight_isPrefix (trimLeft text)
    have hkept : (trimRight (trimLeft text)).head? = some c := hc
    refine head_trimLeft text c ?_
    rw [← hcut, List.head?_append, hkept]
    rfl
  last := last_trimRight (trimLeft text)

/-- Blanks around a tight text are cut off. -/
theorem trim_append {front text back : List Char} (hfront : ∀ c ∈ front, isBlank c = true)
    (hback : ∀ c ∈ back, isBlank c = true) (h : Tight text) : trim (front ++ text ++ back) = text := by
  -- an empty text between blanks leaves blanks only
  cases text with
  | nil =>
    refine trim_of_blank fun c hc => ?_
    rw [List.append_nil] at hc
    exact (List.mem_append.mp hc).elim (hfront c) (hback c)
  | cons c text =>
    have hc := h.head c rfl
    have hkept : trimRight (c :: text ++ back) = c :: text := by
      rw [trimRight_append hback, trimRight_of_last h.last]
    rw [List.append_assoc, List.cons_append, trim_append_cons hc, trimLeft_of_blank hfront,
      List.nil_append, ← hkept]
    exact (trimRight_append_cons hc [] _).symm

/-- Once the end is cut off, what stands behind the blanks in front is left. -/
theorem trim_trimRight_append {front : List Char} (hfront : ∀ c ∈ front, isBlank c = true) {c : Char}
    (hc : isBlank c = false) (text : List Char) :
    trim (trimRight (front ++ c :: text)) = trimRight (c :: text) := by
  have hcut : trimRight (c :: text) = c :: trimRight text := trimRight_append_cons hc [] text
  rw [trimRight_append_cons hc, trim_append_cons hc, trimLeft_of_blank hfront, trimRight_trimRight,
    hcut, List.nil_append]

/-- The space that is written before a value is cut off. -/
theorem trim_space_cons (text : List Char) : trim (' ' :: text) = trim text := rfl

/-- A word ends where a blank follows it, or nothing. -/
theorem spanWord_append {word rest : List Char} (hword : ∀ c ∈ word, isBlank c = false)
    (hrest : ∀ c ∈ rest.head?, isBlank c = true) : spanWord (word ++ rest) = (word, rest) := by
  refine span_append (fun c hc => ?_) (fun c hc => ?_)
  · rw [hword c hc]
    rfl
  · rw [hrest c hc]
    rfl

/-! ## Cut texts as parts -/

theorem trimRight_sublist (text : List Char) : (trimRight text).Sublist text :=
  (trimRight_isPrefix text).sublist

theorem trim_sublist (text : List Char) : (trim text).Sublist text :=
  (trimRight_sublist _).trans (List.dropWhile_sublist _)

end Blank

end LedgerTx
