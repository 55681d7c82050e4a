import LedgerTx.Proofs.Listing.Path
import LedgerTx.Proofs.Listing.Token
import LedgerTx.Proofs.Wire.Decoder
import Mathlib.Data.List.Forall2

namespace LedgerTx.Listing

/-! # From lines to entries

What is read from the text of some lines: sound lines give one entry each, which shows them.  A line that
is not sound may break in two, but its first entry still has its path. -/

/-- An entry shows a line if it has the same path and token, and at most a comment besides. -/
structure Entry.Shows (entry : Entry) (line : Line) : Prop where
  path : entry.path = line.path.text
  token : (splitToken entry.value).1 = (splitToken line.value).1
  comment : IsComment (splitToken entry.value).2

/-- Entries that begin with those of the given lines. -/
inductive Follow : List Line → List Entry → Prop
  | nil (rest : List Entry) : Follow [] rest
  | cons {line : Line} {lines : List Line} {entry : Entry} {more rest : List Entry}
      (hpath : entry.path = line.path.text) (hsound : Sound line.value → more = [] ∧ entry.Shows line)
      (hrest : Follow lines rest) : Follow (line :: lines) (entry :: (more ++ rest))

namespace Follow

variable {lines more : List Line} {entries : List Entry}

/-- Every line has an entry. -/
theorem length_le (h : Follow lines entries) : lines.length ≤ entries.length := by
  induction h with
  | nil => exact Nat.zero_le _
  | cons hpath hsound hrest ih =>
    rw [List.length_cons, List.length_cons, List.length_append]
    omega

/-- Sound lines are shown by as many entries, and the lines after them are followed by the rest. -/
theorem of_append (h : Follow (lines ++ more) entries) (hsound : ∀ line ∈ lines, Sound line.value) :
    ∃ shown rest, entries = shown ++ rest ∧ List.Forall₂ Entry.Shows shown lines
      ∧ Follow more rest := by
  induction lines generalizing entries with
  | nil => exact ⟨[], entries, rfl, .nil, h⟩
  | cons line lines ih =>
    -- the first line is sound, so it has no entry but its own
    cases h with
    | cons hpath hshows hrest =>
      rcases hshows (hsound line (List.mem_cons_self ..)) with ⟨rfl, hline⟩
      obtain ⟨shown, rest, rfl, hshown, hmore⟩ :=
        ih hrest fun l hl => hsound l (List.mem_cons_of_mem line hl)
      exact ⟨_ :: shown, rest, rfl, .cons hline hshown, hmore⟩

/-- The first entry stands at the path of the first line. -/
theorem head_path {line : Line} (h : Follow (line :: lines) entries) :
    entries.head?.map Entry.path = some line.path.text := by
  cases h with
  | cons hpath hshows hrest => exact congrArg some hpath

end Follow

/-! ## Cutting at line feeds -/

/-- Even an empty text is one line. -/
theorem splitLines_ne_nil (text : List Char) : splitLines text ≠ [] := by
  cases text with
  | nil => exact List.cons_ne_nil _ _
  | cons c text =>
    rw [splitLines]
    split
    · exact List.cons_ne_nil _ _
    · split <;> exact List.cons_ne_nil _ _

/-- A text is cut at each of its line feeds. -/
theorem splitLines_append_newline (front back : List Char) :
    splitLines (front ++ '\n' :: back) = splitLines front ++ splitLines back := by
  induction front with
  | nil => rfl
  | cons c front ih =>
    rw [List.cons_append, splitLines, ih]
    -- a line feed in front is a cut of its own
    by_cases hc : c = '\n'
    · rw [if_pos hc, splitLines, if_pos hc]
      rfl
    · rw [if_neg hc, splitLines, if_neg hc]
      cases h : splitLines front with
      | nil => exact absurd h (splitLines_ne_nil front)
      | cons line lines => rfl

/-- What stands before the first line feed belongs to the first line. -/
theorem splitLines_append {front back line : List Char} {lines : List (List Char)}
    (hfront : '\n' ∉ front) (hback : splitLines back = line :: lines) :
    splitLines (front ++ back) = (front ++ line) :: lines := by
  induction front with
  | nil => exact hback
  | cons c front ih =>
    have hc : c ≠ '\n' := by
      rintro rfl
      exact hfront (List.mem_cons_self ..)
    have hrest := ih fun hmem => hfront (List.mem_cons_of_mem c hmem)
    rw [List.cons_append, splitLines, if_neg hc, hrest]
    rfl

/-- No line feed is left in a line. -/
theorem newline_notMem_of_mem_splitLines {text line : List Char} (h : line ∈ splitLines text) :
    '\n' ∉ line := by
  induction text generalizing line with
  | nil =>
    rw [List.mem_singleton.mp h]
    exact List.not_mem_nil
  | cons c text ih =>
    rw [splitLines] at h
    split at h
    -- a cut leaves an empty line in front
    · rcases List.mem_cons.mp h with rfl | hrest
      · exact List.not_mem_nil
      · exact ih hrest
    · rename_i hc
      split at h
      · rw [List.mem_singleton.mp h]
        exact List.not_mem_cons_of_ne_of_not_mem (Ne.symm hc) List.not_mem_nil
      · rename_i first others hsplit
        rw [hsplit] at ih
        rcases List.mem_cons.mp h with rfl | hrest
        · exact List.not_mem_cons_of_ne_of_not_mem (Ne.symm hc) (ih (List.mem_cons_self ..))
        · exact ih (List.mem_cons_of_mem first hrest)

theorem splitLines_of_notMem {text : List Char} (h : '\n' ∉ text) : splitLines text = [text] := by
  have hsplit := splitLines_append h (rfl : splitLines [] = [[]])
  rwa [List.append_nil] at hsplit

/-! ## Entries of lines -/

/-- The entries of some lines are those of the first lines and then those of the others. -/
theorem ofLines_append {number : Nat} {front back : List (List Char)} {entries : List Entry} :
    Entry.ofLines number (front ++ back) = .ok entries ↔
      ∃ first second, Entry.ofLines number front = .ok first
        ∧ Entry.ofLines (number + front.length) back = .ok second ∧ entries = first ++ second := by
  induction front generalizing number entries with
  | nil =>
    constructor
    · intro h
      exact ⟨[], entries, rfl, h, rfl⟩
    · rintro ⟨first, second, hfirst, hsecond, rfl⟩
      cases hfirst
      exact hsecond
  | cons line front ih =>
    -- the lines behind go on with the numbers of those in front
    have hnumber : number + (line :: front).length = number + 1 + front.length := by
      rw [List.length_cons]
      omega
    rw [List.cons_append, hnumber, Entry.ofLines, Entry.ofLines]
    split
    -- blank lines give no entry, but they count
    · exact ih
    · constructor
      · intro h
        replace h := Except.bind_eq_ok.mp h
        rcases h with ⟨entry, hentry, h⟩
        replace h := Except.bind_eq_ok.mp h
        rcases h with ⟨rest, hrest, h⟩
        cases h
        rcases ih.mp hrest with ⟨first, second, hfirst, hsecond, rfl⟩
        refine ⟨entry :: first, second, ?_, hsecond, rfl⟩
        exact Except.bind_eq_ok.mpr ⟨entry, hentry, Except.bind_eq_ok.mpr ⟨first, hfirst, rfl⟩⟩
      · rintro ⟨first, second, hfirst, hsecond, rfl⟩
        replace hfirst := Except.bind_eq_ok.mp hfirst
        rcases hfirst with ⟨entry, hentry, hfirst⟩
        replace hfirst := Except.bind_eq_ok.mp hfirst
        rcases hfirst with ⟨rest, hrest, hfirst⟩
        cases hfirst
        have hall := ih.mpr ⟨rest, second, hrest, hsecond, rfl⟩
        exact Except.bind_eq_ok.mpr ⟨entry, hentry, Except.bind_eq_ok.mpr ⟨_, hall, rfl⟩⟩

/-- What stands after the colon, once blanks are cut off. -/
def valueOf (text : List Char) : List Char :=
  Blank.trim (Blank.trimRight (' ' :: text))

/-- A sound value is what stands after the colon of its line. -/
theorem valueOf_of_sound {value : List Char} (h : Sound value) : valueOf value = value := by
  have hlast : ∀ c ∈ (' ' :: value).getLast?, Blank.isBlank c = false := by
    rw [List.getLast?_cons_of_ne_nil h.ne_nil]
    exact h.tight.last
  -- nothing is cut off at the end, and the one blank in front is
  unfold valueOf
  rw [Blank.trimRight_of_last hlast, Blank.trim_space_cons, Blank.trim_of_tight h.tight]

/-- A line is an entry of what stands before its first colon and of what stands after it. -/
theorem ofLines_cons_append {front : List Char} (hcolon : ':' ∉ front) {number : Nat}
    {back : List Char} {lines : List (List Char)} {entries : List Entry} :
    Entry.ofLines number ((front ++ ':' :: back) :: lines) = .ok entries ↔
      ∃ rest, Entry.ofLines (number + 1) lines = .ok rest
        ∧ entries = ⟨number, Blank.trim front, Blank.trim (Blank.trimRight back)⟩ :: rest := by
  have htrim : Blank.trim (front ++ ':' :: back)
      = Blank.trimLeft front ++ ':' :: Blank.trimRight back := Blank.trim_append_cons rfl front back
  have hne : ¬(Blank.trimLeft front ++ ':' :: Blank.trimRight back).isEmpty = true := by
    rw [List.isEmpty_iff]
    exact List.append_ne_nil_of_right_ne_nil _ (List.cons_ne_nil _ _)
  -- no colon stands in front, so the first one ends it
  have hspan : (Blank.trimLeft front ++ ':' :: Blank.trimRight back).span (· != ':')
      = (Blank.trimLeft front, ':' :: Blank.trimRight back) := by
    refine span_append (fun c hc => bne_iff_ne.mpr ?_) (fun c hc => ?_)
    · rintro rfl
      exact hcolon ((List.dropWhile_sublist _).subset hc)
    · cases hc
      rfl
  have hpath : Blank.trim (Blank.trimLeft front) = Blank.trim front :=
    congrArg Blank.trimRight (Blank.trimLeft_trimLeft front)
  have hentry : Entry.ofLine number (Blank.trimLeft front ++ ':' :: Blank.trimRight back)
      = .ok ⟨number, Blank.trim front, Blank.trim (Blank.trimRight back)⟩ := by
    unfold Entry.ofLine
    rw [hspan]
    dsimp only
    rw [hpath]
  rw [Entry.ofLines, htrim, if_neg hne, hentry]
  constructor
  · intro hread
    replace hread := Except.bind_eq_ok.mp hread
    rcases hread with ⟨entry, hfirst, hread⟩
    replace hread := Except.bind_eq_ok.mp hread
    rcases hread with ⟨rest, hrest, hread⟩
    cases hfirst
    cases hread
    exact ⟨rest, hrest, rfl⟩
  · rintro ⟨rest, hrest, rfl⟩
    exact Except.bind_eq_ok.mpr ⟨_, rfl, Except.bind_eq_ok.mpr ⟨rest, hrest, rfl⟩⟩

/-- A line that begins with a path and a colon is an entry at that path. -/
theorem ofLines_cons {path : Path} (h : path.Plain) {number : Nat} {text : List Char}
    {lines : List (List Char)} {entries : List Entry} :
    Entry.ofLines number ((path.text ++ ':' :: ' ' :: text) :: lines) = .ok entries ↔
      ∃ rest, Entry.ofLines (number + 1) lines = .ok rest
        ∧ entries = ⟨number, path.text, valueOf text⟩ :: rest := by
  have hpath : Blank.trim path.text = path.text :=
    Blank.trim_of_tight (Blank.tight_of_forall fun c hc => h.isBlank hc)
  rw [ofLines_cons_append fun hmem => h.ne_colon hmem rfl, hpath]
  rfl

/-- Each entry is that of one of the lines. -/
theorem exists_ofLine_of_mem {number : Nat} {lines : List (List Char)} {entries : List Entry}
    (h : Entry.ofLines number lines = .ok entries) {entry : Entry} (hentry : entry ∈ entries) :
    ∃ line ∈ lines, ∃ place, Entry.ofLine place (Blank.trim line) = .ok entry := by
  induction lines generalizing number entries with
  | nil =>
    cases h
    cases hentry
  | cons line lines ih =>
    rw [Entry.ofLines] at h
    split at h
    · obtain ⟨other, hother, hread⟩ := ih h hentry
      exact ⟨other, List.mem_cons_of_mem line hother, hread⟩
    · obtain ⟨first, hfirst, h⟩ := Except.bind_eq_ok.mp h
      obtain ⟨rest, hrest, h⟩ := Except.bind_eq_ok.mp h
      cases h
      rcases List.mem_cons.mp hentry with rfl | hentry
      · exact ⟨line, List.mem_cons_self .., number, hfirst⟩
      · obtain ⟨other, hother, hread⟩ := ih hrest hentry
        exact ⟨other, List.mem_cons_of_mem line hother, hread⟩

/-! ## Texts of lines -/

/-- The text of a line, cut at its line feeds: the first piece holds the path. -/
theorem splitLines_text {line : Line} (h : line.path.Plain) {first : List Char}
    {others : List (List Char)} (hvalue : splitLines line.value = first :: others)
    (rest : List Char) :
    splitLines (line.text ++ rest)
      = (line.path.text ++ ':' :: ' ' :: first) :: (others ++ splitLines rest) := by
  have hfront : '\n' ∉ line.path.text ++ [':', ' '] := by
    intro hmem
    rcases List.mem_append.mp hmem with hpath | hcolon
    · have hblank := h.isBlank hpath
      cases hblank
    · revert hcolon
      decide
  have htext : line.text ++ rest = (line.path.text ++ [':', ' '] ++ line.value) ++ '\n' :: rest := by
    unfold Line.text
    simp only [List.append_assoc, List.cons_append, List.nil_append]
  -- the line feed at the end is one cut, and those in the value are the others
  rw [htext, splitLines_append_newline, splitLines_append hfront hvalue]
  simp only [List.append_assoc, List.cons_append, List.nil_append]

/-- The entry of a sound line shows it. -/
theorem shows_of_sound {line : Line} (h : Sound line.value) (number : Nat) :
    Entry.Shows ⟨number, line.path.text, valueOf line.value⟩ line := by
  have hvalue := valueOf_of_sound h
  refine ⟨rfl, congrArg (fun value => (splitToken value).1) hvalue, ?_⟩
  show IsComment (splitToken (valueOf line.value)).2
  rw [hvalue]
  exact h.comment

/-- Whatever entries the text of lines has, they begin with those of the lines. -/
theorem follow_of_ofLines {lines : List Line} (h : ∀ line ∈ lines, line.path.Plain) {number : Nat}
    {entries : List Entry} (hread : Entry.ofLines number (splitLines (textOf lines)) = .ok entries) :
    Follow lines entries := by
  induction lines generalizing number entries with
  | nil => exact .nil entries
  | cons line lines ih =>
    have hplain := h line (List.mem_cons_self ..)
    rcases List.exists_cons_of_ne_nil (splitLines_ne_nil line.value) with ⟨first, others, hvalue⟩
    have htext : textOf (line :: lines) = line.text ++ textOf lines := List.flatMap_cons
    rw [htext, splitLines_text hplain hvalue] at hread
    rcases (ofLines_cons hplain).mp hread with ⟨after, hafter, rfl⟩
    rcases ofLines_append.mp hafter with ⟨more, rest, hmore, hrest, rfl⟩
    refine .cons rfl (fun hsound => ?_) (ih (fun l hl => h l (List.mem_cons_of_mem line hl)) hrest)
    -- a sound value has no line feed to break it
    rw [splitLines_of_notMem hsound.oneLine] at hvalue
    cases hvalue
    cases hmore
    exact ⟨rfl, shows_of_sound hsound number⟩

/-- The text of sound lines has one entry for each, which shows it. -/
theorem exists_ofLines {lines : List Line} (h : ∀ line ∈ lines, line.path.Plain)
    (hsound : ∀ line ∈ lines, Sound line.value) (number : Nat) :
    ∃ entries, Entry.ofLines number (splitLines (textOf lines)) = .ok entries
      ∧ List.Forall₂ Entry.Shows entries lines := by
  induction lines generalizing number with
  | nil => exact ⟨[], rfl, .nil⟩
  | cons line lines ih =>
    have hplain := h line (List.mem_cons_self ..)
    have hline := hsound line (List.mem_cons_self ..)
    have htext : textOf (line :: lines) = line.text ++ textOf lines := List.flatMap_cons
    obtain ⟨rest, hrest, hshows⟩ := ih (fun l hl => h l (List.mem_cons_of_mem line hl))
      (fun l hl => hsound l (List.mem_cons_of_mem line hl)) (number + 1)
    refine ⟨⟨number, line.path.text, valueOf line.value⟩ :: rest, ?_,
      .cons (shows_of_sound hline number) hshows⟩
    -- the value stays on its line, so no entry comes between
    rw [htext, splitLines_text hplain (splitLines_of_notMem hline.oneLine)]
    exact (ofLines_cons hplain).mpr ⟨rest, hrest, rfl⟩

/-! ## Numbers of entries -/

/-- The lines of a text that hold more than blanks. -/
def filledLines (text : List Char) : List (List Char) :=
  (splitLines text).filter fun line => !(Blank.trim line).isEmpty

/-- Each line that holds more than blanks gives one entry, and the others none. -/
theorem length_of_ofLines {number : Nat} {lines : List (List Char)} {entries : List Entry}
    (h : Entry.ofLines number lines = .ok entries) :
    entries.length = (lines.filter fun line => !(Blank.trim line).isEmpty).length := by
  induction lines generalizing number entries with
  | nil =>
    cases h
    rfl
  | cons line lines ih =>
    rw [Entry.ofLines] at h
    split at h
    · rename_i hblank
      rw [List.filter_cons_of_neg (by simp [hblank])]
      exact ih h
    · rename_i hfilled
      obtain ⟨entry, -, h⟩ := Except.bind_eq_ok.mp h
      obtain ⟨rest, hrest, h⟩ := Except.bind_eq_ok.mp h
      cases h
      rw [List.filter_cons_of_pos (by simp [hfilled]), List.length_cons, List.length_cons, ih hrest]

/-- There is one entry for each line that holds more than blanks. -/
theorem length_of_ofText {text : List Char} {entries : List Entry} (h : Entry.ofText text = .ok entries) :
    entries.length = (filledLines text).length :=
  length_of_ofLines h

/-- An entry has the number of its line. -/
theorem number_of_ofLine {number : Nat} {line : List Char} {entry : Entry}
    (h : Entry.ofLine number line = .ok entry) : entry.number = number := by
  unfold Entry.ofLine at h
  split at h
  · cases h
    rfl
  · cases h

/-- Entries are numbered in the order of their lines. -/
theorem numbers_of_ofLines {number : Nat} {lines : List (List Char)} {entries : List Entry}
    (h : Entry.ofLines number lines = .ok entries) :
    (∀ entry ∈ entries, number ≤ entry.number)
      ∧ entries.Pairwise fun first second => first.number < second.number := by
  induction lines generalizing number entries with
  | nil =>
    cases h
    exact ⟨fun entry hentry => absurd hentry List.not_mem_nil, .nil⟩
  | cons line lines ih =>
    rw [Entry.ofLines] at h
    split at h
    -- a blank line is counted, although it has no entry
    · obtain ⟨hfrom, hordered⟩ := ih h
      exact ⟨fun entry hentry => Nat.le_of_succ_le (hfrom entry hentry), hordered⟩
    · obtain ⟨entry, hentry, h⟩ := Except.bind_eq_ok.mp h
      obtain ⟨rest, hrest, h⟩ := Except.bind_eq_ok.mp h
      cases h
      obtain ⟨hfrom, hordered⟩ := ih hrest
      have hnumber := number_of_ofLine hentry
      refine ⟨List.forall_mem_cons.mpr ⟨Nat.le_of_eq hnumber.symm, fun other hother => ?_⟩,
        .cons (fun other hother => ?_) hordered⟩
      · exact Nat.le_of_succ_le (hfrom other hother)
      · rw [hnumber]
        exact hfrom other hother

/-- No entry of a text stands in it twice. -/
theorem nodup_of_ofText {text : List Char} {entries : List Entry} (h : Entry.ofText text = .ok entries) :
    entries.Nodup := by
  refine (numbers_of_ofLines h).2.imp fun {first second} hless => ?_
  rintro rfl
  exact Nat.lt_irrefl _ hless

end LedgerTx.Listing
