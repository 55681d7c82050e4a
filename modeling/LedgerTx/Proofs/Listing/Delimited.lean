import LedgerTx.Proofs.Layout.Scalar

namespace LedgerTx

open Listing

/-! # Tokens that delimit themselves

A quoted text ends at its closing quote whatever follows it, so it is read from a line of its own with any
trailing text.  Nothing but the path decides whether the line is read: the path must be a label, a text
that can stand before the colon of a line. -/

namespace Listing

/-! ## Labels -/

/-- Texts that may be the path of an entry. -/
structure IsLabel (label : List Char) : Prop where
  colon_notMem : ':' ∉ label
  newline_notMem : '\n' ∉ label
  tight : Blank.Tight label

/-- A path without colons and blanks is a label. -/
theorem Path.Plain.isLabel {path : Path} (h : path.Plain) : IsLabel path.text where
  colon_notMem hmem := h.ne_colon hmem rfl
  newline_notMem hmem := by cases h.isBlank hmem
  tight := Blank.tight_of_forall fun _ hc => h.isBlank hc

/-- The path of an entry stands before the first colon of its line. -/
theorem isLabel_of_ofLine {number : Nat} {line : List Char} {entry : Entry} (hline : '\n' ∉ line)
    (h : Entry.ofLine number line = .ok entry) : IsLabel entry.path := by
  unfold Entry.ofLine at h
  rw [List.span_eq_takeWhile_dropWhile] at h
  split at h
  · rename_i path colon value hsplit
    cases h
    obtain ⟨hpath, -⟩ := Prod.mk.inj hsplit
    -- blanks are cut from the path, so it is part of what stands before the colon
    have hcut : ∀ c ∈ Blank.trim path, c ∈ line.takeWhile (· != ':') := by
      intro c hc
      rw [hpath]
      exact (Blank.trim_sublist path).subset hc
    refine ⟨fun hmem => ?_, fun hmem => ?_, Blank.tight_trim path⟩
    · exact absurd (List.mem_takeWhile_imp (hcut _ hmem)) (by decide)
    · exact hline ((List.takeWhile_sublist _).subset (hcut _ hmem))
  · cases h

/-- Every entry of a text is at a label. -/
theorem isLabel_of_ofText {text : List Char} {entries : List Entry} (h : Entry.ofText text = .ok entries)
    {entry : Entry} (hentry : entry ∈ entries) : IsLabel entry.path := by
  obtain ⟨line, hline, number, hread⟩ := exists_ofLine_of_mem h hentry
  refine isLabel_of_ofLine (fun hmem => ?_) hread
  exact newline_notMem_of_mem_splitLines hline ((Blank.trim_sublist line).subset hmem)

/-! ## One line -/

/-- A line with a label is one entry. -/
theorem ofText_label {label back : List Char} (h : IsLabel label) (hback : '\n' ∉ back) :
    Entry.ofText (label ++ ':' :: back) = .ok [⟨1, label, Blank.trim (Blank.trimRight back)⟩] := by
  have hline : '\n' ∉ label ++ ':' :: back := by
    simp only [List.mem_append, List.mem_cons, not_or]
    exact ⟨h.newline_notMem, by decide, hback⟩
  have hlabel : Blank.trim label = label := Blank.trim_of_tight h.tight
  unfold Entry.ofText
  rw [splitLines_of_notMem hline]
  refine (ofLines_cons_append h.colon_notMem).mpr ⟨[], rfl, ?_⟩
  rw [hlabel]

/-- A line feed at the end of a text adds no entry. -/
theorem ofText_append_newline {text : List Char} {entries : List Entry} :
    Entry.ofText (text ++ ['\n']) = .ok entries ↔ Entry.ofText text = .ok entries := by
  unfold Entry.ofText
  rw [splitLines_append_newline, ofLines_append]
  constructor
  · rintro ⟨first, second, hfirst, hsecond, rfl⟩
    -- behind the last line feed stands an empty line
    cases hsecond
    rw [List.append_nil]
    exact hfirst
  · intro h
    exact ⟨entries, [], h, rfl, (List.append_nil entries).symm⟩

end Listing

/-! ## Values on one line -/

namespace Form

variable {α : Type}

/-- All of a text is read as one value at the path. -/
def Reads (form : Form α) (path : Path) (text : List Char) (a : α) : Prop :=
  ∃ entries, Entry.ofText text = .ok entries ∧ form.read path entries = .ok (a, [])

variable {print : α → Except LineError (List Char)} {parse : List Char → List Char → Except LineError α}
  {path : Path} {back : List Char} {a : α}

/-- What is read from one line is what is parsed from its token, if its path is a label. -/
theorem reads_line_iff {value : List Char} (hback : '\n' ∉ back)
    (hvalue : Blank.trim (Blank.trimRight back) = value) :
    (line print parse).Reads path (path.text ++ ':' :: back) a ↔ IsLabel path.text
      ∧ (splitToken value).1 ≠ [] ∧ parse (splitToken value).1 (splitToken value).2 = .ok a := by
  constructor
  · rintro ⟨entries, hentries, hread⟩
    obtain ⟨entry, rfl, hpath, htoken, hparse⟩ := read_line_eq_ok.mp hread
    -- the entry is at the path, and entries are at labels
    have hlabel : IsLabel path.text := by
      rw [← hpath]
      exact isLabel_of_ofText hentries (List.mem_cons_self ..)
    rw [ofText_label hlabel hback, hvalue] at hentries
    cases hentries
    exact ⟨hlabel, htoken, hparse⟩
  · rintro ⟨hlabel, htoken, hparse⟩
    refine ⟨_, ofText_label hlabel hback, read_line_eq_ok.mpr ⟨_, rfl, rfl, ?_⟩⟩
    rw [hvalue]
    exact ⟨htoken, hparse⟩

/-- A line feed at the end changes nothing. -/
theorem reads_append_newline {form : Form α} {text : List Char} :
    form.Reads path (text ++ ['\n']) a ↔ form.Reads path text a := by
  unfold Reads
  simp only [ofText_append_newline]

/-- A value that is printed and parsed again is read from its own line. -/
theorem reads_of_printParse (h : PrintParse print parse True a) {value : List Char}
    (hprint : print a = .ok value) :
    (line print parse).Reads path (textOf [⟨path, value⟩]) a ↔ IsLabel path.text := by
  obtain ⟨printed, hprinted, hsound, hparse⟩ := h
  rw [hprint] at hprinted
  cases hprinted
  have hline : '\n' ∉ ' ' :: value := List.not_mem_cons_of_ne_of_not_mem (by decide) hsound.oneLine
  have hvalue : Blank.trim (Blank.trimRight (' ' :: value)) = value := valueOf_of_sound hsound
  have htext : textOf [⟨path, value⟩] = path.text ++ ':' :: (' ' :: value) ++ ['\n'] := by
    show Line.text ⟨path, value⟩ ++ [] = _
    rw [List.append_nil]
    rfl
  -- one blank is put after the colon, and cut off again
  rw [htext, reads_append_newline, reads_line_iff hline hvalue]
  exact and_iff_left ⟨hsound.token_ne, (hparse _ hsound.comment).eq_ok trivial⟩

/-! ## Texts in quotes -/

/-- Behind the closing quote, blanks are cut off at the end only. -/
theorem trim_quoted (s after : List Char) :
    Blank.trim (Blank.trimRight (' ' :: (Quoted.encode s ++ after)))
      = Quoted.encode s ++ Blank.trimRight after := by
  have hquote : Blank.isBlank '"' = false := rfl
  have htext : ∀ rest, Quoted.encode s ++ rest = '"' :: s.flatMap Quoted.escape ++ '"' :: rest := by
    intro rest
    unfold Quoted.encode
    rw [List.append_assoc]
    rfl
  have hcut := Blank.trim_trimRight_append IsSpace.singleton.isBlank hquote
    (s.flatMap Quoted.escape ++ '"' :: after)
  rw [htext, htext]
  refine hcut.trans ?_
  exact Blank.trimRight_append_cons hquote ('"' :: s.flatMap Quoted.escape) after

/-- Any text may stand behind a quoted text. -/
theorem reads_quoted_iff {s : String} {after : List Char} (hafter : '\n' ∉ after) :
    Form.text.Reads path (path.text ++ ':' :: ' ' :: (Quoted.encode s.toList ++ after)) s
      ↔ IsLabel path.text := by
  have hback : '\n' ∉ ' ' :: (Quoted.encode s.toList ++ after) := by
    simp only [List.mem_cons, List.mem_append, not_or]
    exact ⟨by decide, (isToken_encode s.toList).oneLine, hafter⟩
  have hparse : parseText (Quoted.encode s.toList) (Blank.trimRight after) = .ok s := by
    rw [LineLaw.parseText_encode, String.ofList_toList]
  refine (reads_line_iff hback (trim_quoted s.toList after)).trans (and_iff_left ?_)
  rw [splitToken_quoted]
  exact ⟨(isToken_encode s.toList).ne_nil, hparse⟩

/-- A symbol is written bare or in quotes, and read as a text from the line that is written. -/
theorem exists_write_symbol (path : Path) (s : String) :
    ∃ value, Form.symbol.write path s = .ok [⟨path, value⟩]
      ∧ value = (if isPlain s.toList then s.toList else Quoted.encode s.toList)
      ∧ (Form.text.Reads path (textOf [⟨path, value⟩]) s ↔ IsLabel path.text) :=
  ⟨_, write_line_eq_ok.mpr ⟨_, rfl, rfl⟩, rfl, reads_of_printParse (LineLaw.printParse_symbol s) rfl⟩

end Form

/-- A quoted text is the token of every value that begins with it, and holds no line end.  With any trailing
text it is read from a line of its own, and so is a symbol from the line that is written for it, bare or in
quotes; all that is needed is a path that can be a label. -/
theorem Listing.quoted_delimits (path : Path) (s : String) {after : List Char} (hafter : '\n' ∉ after) :
    (∀ rest, splitToken (Quoted.encode s.toList ++ rest) = (Quoted.encode s.toList, rest))
      ∧ '\n' ∉ Quoted.encode s.toList ∧ '\r' ∉ Quoted.encode s.toList
      ∧ (Form.text.Reads path (path.text ++ ':' :: ' ' :: (Quoted.encode s.toList ++ after)) s
          ↔ IsLabel path.text)
      ∧ ∃ value, Form.symbol.write path s = .ok [⟨path, value⟩]
          ∧ value = (if Form.isPlain s.toList then s.toList else Quoted.encode s.toList)
          ∧ (Form.text.Reads path (textOf [⟨path, value⟩]) s ↔ IsLabel path.text) := by
  have hcontrol : ∀ c : Char, c.toNat < 0x20 → c ∉ Quoted.encode s.toList :=
    fun _ hsmall hmem => Nat.not_lt_of_le (Quoted.le_of_mem_encode hmem) hsmall
  refine ⟨splitToken_quoted s.toList, hcontrol '\n' (by decide), hcontrol '\r' (by decide), ?_, ?_⟩
  · exact Form.reads_quoted_iff hafter
  · exact Form.exists_write_symbol path s

/-- Quotes, brackets, colons and line feeds in a text, and more of them behind it. -/
theorem Listing.quoted_delimits_brackets :
    '\n' ∉ "d \" (e) \r \\".toList ∧ IsLabel (Path.root.field "value").text
      ∧ Form.text.Reads (Path.root.field "value")
          ("value: ".toList ++ (Quoted.encode "a\\\" (b: c)\n".toList ++ "d \" (e) \r \\".toList))
          "a\\\" (b: c)\n" := by
  have hafter : '\n' ∉ "d \" (e) \r \\".toList := by decide
  have hlabel : (Path.root.field "value").Plain := Path.Plain.root.field (by decide)
  have hall := quoted_delimits (Path.root.field "value") "a\\\" (b: c)\n" hafter
  exact ⟨hafter, hlabel.isLabel, hall.2.2.2.1.mpr hlabel.isLabel⟩

end LedgerTx
