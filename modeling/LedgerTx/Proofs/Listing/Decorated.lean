import LedgerTx.Proofs.Listing.Taken

namespace LedgerTx.Listing

/-! # Decorated listings

A listing may be decorated: blanks around paths and tokens and at the ends of lines, a remark in brackets
after a token, blank lines anywhere.  Carriage returns are blanks, so lines may end in them too.  The
entries of a decorated listing show its lines all the same. -/

/-- Texts with the path and the token of a line. -/
inductive Line.Decorated (line : Line) : List Char → Prop
  | intro {front behind before after : List Char} (hfront : IsSpace front) (hbehind : IsSpace behind)
      (hbefore : IsSpace before) (hafter : IsRemark after) :
      line.Decorated (front ++ line.path.text ++ behind
        ++ ':' :: (before ++ ((splitToken line.value).1 ++ after)))

/-- Texts of all the lines in order, among any number of blank ones. -/
inductive Decorates : List Line → List (List Char) → Prop
  | nil : Decorates [] []
  | blank {lines : List Line} {text : List Char} {texts : List (List Char)} (h : IsSpace text)
      (hrest : Decorates lines texts) : Decorates lines (text :: texts)
  | line {line : Line} {lines : List Line} {text : List Char} {texts : List (List Char)}
      (h : line.Decorated text) (hrest : Decorates lines texts) :
      Decorates (line :: lines) (text :: texts)

/-! ## Tokens with remarks -/

/-- Blanks at the end of a remark are cut off, and what is left of it is a remark. -/
theorem exists_trimRight_append {token after : List Char} (h : IsToken token) (hafter : IsRemark after) :
    ∃ remark, Blank.trimRight (token ++ after) = token ++ remark ∧ IsRemark remark := by
  cases hafter with
  | space hspace =>
    refine ⟨[], ?_, .nil⟩
    rw [Blank.trimRight_append hspace.isBlank, Blank.trimRight_of_last h.tight.last, List.append_nil]
  | @bracket text comment hspace hne hline =>
    refine ⟨text ++ '(' :: Blank.trimRight comment, ?_, .bracket hspace hne fun hmem => ?_⟩
    -- the bracket is no blank, so the cut ends behind it
    · rw [← List.append_assoc, Blank.trimRight_append_cons rfl, List.append_assoc]
    · exact hline ((Blank.trimRight_sublist comment).subset hmem)

/-! ## Decorated lines -/

namespace Line.Decorated

variable {line : Line} {text : List Char}

/-- What is put around a sound line keeps it on one line. -/
theorem newline_notMem (h : line.Decorated text) (hpath : line.path.Plain)
    (hsound : Sound line.value) : '\n' ∉ text := by
  rcases h with ⟨hfront, hbehind, hbefore, hafter⟩
  have hname : '\n' ∉ line.path.text := by
    intro hmem
    cases hpath.isBlank hmem
  simp only [List.mem_append, List.mem_cons, not_or]
  exact ⟨⟨⟨hfront.newline_notMem, hname⟩, hbehind.newline_notMem⟩, by decide, hbefore.newline_notMem,
    hsound.isToken.oneLine, hafter.newline_notMem⟩

/-- A decorated line is an entry that shows the line. -/
theorem exists_shows (h : line.Decorated text) (hpath : line.path.Plain) (hsound : Sound line.value)
    {number : Nat} {texts : List (List Char)} {rest : List Entry}
    (hrest : Entry.ofLines (number + 1) texts = .ok rest) :
    ∃ entry, Entry.ofLines number (text :: texts) = .ok (entry :: rest) ∧ entry.Shows line := by
  rcases h with @⟨front, behind, before, after, hfront, hbehind, hbefore, hafter⟩
  obtain ⟨remark, hcut, hremark⟩ := exists_trimRight_append hsound.isToken hafter
  have hsplit := hsound.isToken.splitToken_append hremark.head_isBlank
  have hcolon : ':' ∉ front ++ line.path.text ++ behind := by
    simp only [List.mem_append, not_or]
    exact ⟨⟨hfront.colon_notMem, fun hmem => hpath.ne_colon hmem rfl⟩, hbehind.colon_notMem⟩
  -- the path is what is left between the blanks
  have htext : Blank.Tight line.path.text := Blank.tight_of_forall fun c hc => hpath.isBlank hc
  have hname : Blank.trim (front ++ line.path.text ++ behind) = line.path.text :=
    Blank.trim_append hfront.isBlank hbehind.isBlank htext
  -- the token is the first that is no blank after the colon
  have hvalue : Blank.trim (Blank.trimRight (before ++ ((splitToken line.value).1 ++ after)))
      = (splitToken line.value).1 ++ remark := by
    obtain ⟨c, token, htoken⟩ := List.exists_cons_of_ne_nil hsound.token_ne
    have hc : Blank.isBlank c = false := by
      refine hsound.isToken.tight.head c ?_
      rw [htoken]
      rfl
    rw [← hcut, htoken, List.cons_append]
    exact Blank.trim_trimRight_append hbefore.isBlank hc (token ++ after)
  refine ⟨⟨number, line.path.text, (splitToken line.value).1 ++ remark⟩, ?_, rfl, ?_, ?_⟩
  · refine (ofLines_cons_append hcolon).mpr ⟨rest, hrest, ?_⟩
    rw [hname, hvalue]
  · rw [hsplit]
  · rw [hsplit]
    exact hremark.isComment

end Line.Decorated

/-- A sound line decorates itself, with the remark that it was written with. -/
theorem Line.decorated_shown {line : Line} (h : Sound line.value) : line.Decorated line.shown := by
  have hshown : line.shown = [] ++ line.path.text ++ []
      ++ ':' :: ([' '] ++ ((splitToken line.value).1 ++ (splitToken line.value).2)) := by
    rw [splitToken_fst_append_snd, List.nil_append, List.append_nil]
    rfl
  rw [hshown]
  exact .intro .nil .nil .singleton h.remark

namespace Decorates

variable {lines : List Line} {texts : List (List Char)}

/-- A listing of sound lines decorates them; its last text is the empty one behind the last line feed. -/
theorem of_sound (h : ∀ line ∈ lines, Sound line.value) :
    Decorates lines (lines.map Line.shown ++ [[]]) := by
  induction lines with
  | nil => exact .blank .nil .nil
  | cons line lines ih =>
    obtain ⟨hline, hlines⟩ := List.forall_mem_cons.mp h
    exact .line (Line.decorated_shown hline) (ih hlines)

/-- No text of the decorated listing has a line feed in it. -/
theorem newline_notMem (h : Decorates lines texts) (hpaths : ∀ line ∈ lines, line.path.Plain)
    (hsound : ∀ line ∈ lines, Sound line.value) : ∀ text ∈ texts, '\n' ∉ text := by
  induction h with
  | nil => exact fun text htext => absurd htext List.not_mem_nil
  | blank hblank _ ih => exact List.forall_mem_cons.mpr ⟨hblank.newline_notMem, ih hpaths hsound⟩
  | line hline _ ih =>
    obtain ⟨hpath, hpaths⟩ := List.forall_mem_cons.mp hpaths
    obtain ⟨hvalue, hsound⟩ := List.forall_mem_cons.mp hsound
    exact List.forall_mem_cons.mpr ⟨hline.newline_notMem hpath hvalue, ih hpaths hsound⟩

/-- The entries of decorated lines show the lines. -/
theorem exists_ofLines (h : Decorates lines texts) (hpaths : ∀ line ∈ lines, line.path.Plain)
    (hsound : ∀ line ∈ lines, Sound line.value) (number : Nat) :
    ∃ entries, Entry.ofLines number texts = .ok entries ∧ List.Forall₂ Entry.Shows entries lines := by
  induction h generalizing number with
  | nil => exact ⟨[], rfl, .nil⟩
  | @blank lines text texts hblank _ ih =>
    obtain ⟨entries, hentries, hshows⟩ := ih hpaths hsound (number + 1)
    refine ⟨entries, ?_, hshows⟩
    -- a blank line has no entry
    rw [Entry.ofLines, Blank.trim_of_blank hblank.isBlank]
    exact hentries
  | line hline _ ih =>
    obtain ⟨hpath, hpaths⟩ := List.forall_mem_cons.mp hpaths
    obtain ⟨hvalue, hsound⟩ := List.forall_mem_cons.mp hsound
    obtain ⟨rest, hrest, hshows⟩ := ih hpaths hsound (number + 1)
    obtain ⟨entry, hentry, hshow⟩ := hline.exists_shows hpath hvalue hrest
    exact ⟨entry :: rest, hentry, .cons hshow hshows⟩

/-- The entries of a decorated listing show its lines. -/
theorem exists_ofText (h : Decorates lines texts) (hpaths : ∀ line ∈ lines, line.path.Plain)
    (hsound : ∀ line ∈ lines, Sound line.value) :
    ∃ entries, Entry.ofText (List.intercalate ['\n'] texts) = .ok entries
      ∧ List.Forall₂ Entry.Shows entries lines := by
  have hone := h.newline_notMem hpaths hsound
  cases texts with
  | nil =>
    -- no text at all is one blank line
    cases h
    exact ⟨[], rfl, .nil⟩
  | cons text texts =>
    unfold Entry.ofText
    rw [splitLines_intercalate hone]
    exact h.exists_ofLines hpaths hsound 1

end Decorates

end LedgerTx.Listing
