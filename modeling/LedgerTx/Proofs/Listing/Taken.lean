import LedgerTx.Proofs.Listing.Alike
import Mathlib.Data.List.Pairwise

namespace LedgerTx.Listing

/-! # Lines taken from a listing

Lines may be taken from a listing in any order, some of them twice and others not at all.  Joined by line
feeds they have one entry each, and two such choices from lines that do not clash have concordant
entries. -/

/-! ## Lines joined by line feeds -/

/-- A line as it is written, without its line feed. -/
def Line.shown (line : Line) : List Char :=
  line.path.text ++ ':' :: ' ' :: line.value

/-- Lines with a line feed between each two. -/
def joined (lines : List Line) : List Char :=
  List.intercalate ['\n'] (lines.map Line.shown)

/-- What a reader can tell of a line. -/
def Line.content (line : Line) : List Char × List Char :=
  (line.path.text, line.value)

variable {lines : List Line}

/-- A sound line is one line. -/
theorem newline_notMem_shown {line : Line} (hpath : line.path.Plain) (hsound : Sound line.value) :
    '\n' ∉ line.shown := by
  intro hmem
  rcases List.mem_append.mp hmem with htext | hrest
  · cases hpath.isBlank htext
  · rcases List.mem_cons.mp hrest with hcolon | hrest
    · revert hcolon
      decide
    · rcases List.mem_cons.mp hrest with hblank | hvalue
      · revert hblank
        decide
      · exact hsound.oneLine hvalue

/-- Texts without line feeds are what is cut at the line feeds between them. -/
theorem splitLines_intercalate {text : List Char} {texts : List (List Char)}
    (h : ∀ t ∈ text :: texts, '\n' ∉ t) :
    splitLines (List.intercalate ['\n'] (text :: texts)) = text :: texts := by
  induction texts generalizing text with
  | nil =>
    rw [List.intercalate_singleton]
    exact splitLines_of_notMem (h text (List.mem_cons_self ..))
  | cons next texts ih =>
    -- the first line feed is the one that joins, since none is in the first text
    obtain ⟨hfirst, hrest⟩ := List.forall_mem_cons.mp h
    rw [List.intercalate_cons_cons, List.append_assoc, List.singleton_append,
      splitLines_append_newline, splitLines_of_notMem hfirst, ih hrest]
    rfl

/-- The text of a listing ends with a line feed, after which nothing stands. -/
theorem splitLines_textOf (hpaths : ∀ line ∈ lines, line.path.Plain)
    (hsound : ∀ line ∈ lines, Sound line.value) :
    splitLines (textOf lines) = lines.map Line.shown ++ [[]] := by
  induction lines with
  | nil => rfl
  | cons line lines ih =>
    obtain ⟨hpath, hpaths⟩ := List.forall_mem_cons.mp hpaths
    obtain ⟨hline, hsound⟩ := List.forall_mem_cons.mp hsound
    have htext : textOf (line :: lines) = line.text ++ textOf lines := List.flatMap_cons
    rw [htext, splitLines_text hpath (splitLines_of_notMem hline.oneLine), ih hpaths hsound]
    rfl

/-- Every line has an entry with its path and its value. -/
theorem exists_ofLines_shown (hpaths : ∀ line ∈ lines, line.path.Plain)
    (hsound : ∀ line ∈ lines, Sound line.value) (number : Nat) :
    ∃ entries, Entry.ofLines number (lines.map Line.shown) = .ok entries
      ∧ entries.map Entry.content = lines.map Line.content := by
  induction lines generalizing number with
  | nil => exact ⟨[], rfl, rfl⟩
  | cons line lines ih =>
    obtain ⟨hpath, hpaths⟩ := List.forall_mem_cons.mp hpaths
    obtain ⟨hline, hsound⟩ := List.forall_mem_cons.mp hsound
    obtain ⟨rest, hrest, hcontent⟩ := ih hpaths hsound (number + 1)
    refine ⟨⟨number, line.path.text, line.value⟩ :: rest, ?_, ?_⟩
    · refine (ofLines_cons hpath).mpr ⟨rest, hrest, ?_⟩
      rw [valueOf_of_sound hline]
    · rw [List.map_cons, List.map_cons, hcontent]
      rfl

/-- Sound lines joined by line feeds are read as one entry each. -/
theorem exists_ofText_joined (hpaths : ∀ line ∈ lines, line.path.Plain)
    (hsound : ∀ line ∈ lines, Sound line.value) :
    ∃ entries, Entry.ofText (joined lines) = .ok entries
      ∧ entries.map Entry.content = lines.map Line.content := by
  cases lines with
  | nil => exact ⟨[], rfl, rfl⟩
  | cons line lines =>
    have hone : ∀ t ∈ line.shown :: lines.map Line.shown, '\n' ∉ t := by
      rw [← List.map_cons]
      intro t ht
      obtain ⟨other, hother, rfl⟩ := List.mem_map.mp ht
      exact newline_notMem_shown (hpaths other hother) (hsound other hother)
    have hsplit : splitLines (joined (line :: lines)) = (line :: lines).map Line.shown :=
      splitLines_intercalate hone
    unfold Entry.ofText
    rw [hsplit]
    exact exists_ofLines_shown hpaths hsound 1

/-- Entries with the paths and the values of sound lines show them. -/
theorem forall₂_shows (hsound : ∀ line ∈ lines, Sound line.value) {entries : List Entry}
    (h : entries.map Entry.content = lines.map Line.content) :
    List.Forall₂ Entry.Shows entries lines := by
  induction lines generalizing entries with
  | nil =>
    rw [List.map_eq_nil_iff.mp h]
    exact .nil
  | cons line lines ih =>
    cases entries with
    | nil => cases h
    | cons entry entries =>
      obtain ⟨hline, hsound⟩ := List.forall_mem_cons.mp hsound
      obtain ⟨hcontent, hrest⟩ := List.cons.inj h
      obtain ⟨hpath, hvalue⟩ := Prod.mk.inj hcontent
      refine .cons ⟨hpath, ?_, ?_⟩ (ih hsound hrest)
      · rw [hvalue]
      · rw [hvalue]
        exact hline.comment

/-! ## Lines that do not clash -/

/-- Lines of which no two clash. -/
structure Tidy (lines : List Line) : Prop where
  proper : ∀ line ∈ lines, line.path.Proper
  apart : lines.Pairwise fun line other => ¬Clash line.path.steps other.path.steps

namespace Tidy

/-- A line clashes with no line but itself. -/
theorem eq_of_clash (h : Tidy lines) {line other : Line} (hline : line ∈ lines) (hother : other ∈ lines)
    (hclash : Clash line.path.steps other.path.steps) : line = other := by
  have hsymm : Std.Symm fun line other : Line => ¬Clash line.path.steps other.path.steps :=
    ⟨fun _ _ hno hclash => hno hclash.symm⟩
  by_contra hne
  exact h.apart.forall hline hother hne hclash

/-- A line is told from the text of its path. -/
theorem eq_of_text (h : Tidy lines) {line other : Line} (hline : line ∈ lines) (hother : other ∈ lines)
    (htext : line.path.text = other.path.text) : line = other := by
  have hpath := Path.text_inj (h.proper line hline) (h.proper other hother) htext
  exact h.eq_of_clash hline hother (Or.inl (congrArg Path.steps hpath))

/-- No two lines are at one path. -/
theorem nodup_paths (h : Tidy lines) : (lines.map fun line => line.path.text).Nodup := by
  refine List.pairwise_map.mpr (h.apart.imp_of_mem fun {line other} hline hother hno heq => hno ?_)
  rw [h.eq_of_text hline hother heq]
  exact Or.inl rfl

/-- Lines that were taken are told from what a reader can tell of them. -/
theorem eq_of_map_content (h : Tidy lines) {taken picked : List Line}
    (htaken : ∀ line ∈ taken, line ∈ lines) (hpicked : ∀ line ∈ picked, line ∈ lines)
    (heq : taken.map Line.content = picked.map Line.content) : taken = picked := by
  induction taken generalizing picked with
  | nil => exact (List.map_eq_nil_iff.mp heq.symm).symm
  | cons line taken ih =>
    cases picked with
    | nil => cases heq
    | cons other picked =>
      obtain ⟨hline, htaken⟩ := List.forall_mem_cons.mp htaken
      obtain ⟨hother, hpicked⟩ := List.forall_mem_cons.mp hpicked
      obtain ⟨hcontent, hrest⟩ := List.cons.inj heq
      rw [h.eq_of_text hline hother (congrArg Prod.fst hcontent), ih htaken hpicked hrest]

/-- The line of an entry that was taken from the lines. -/
theorem exists_line {taken : List Line} {entries : List Entry} (htaken : ∀ line ∈ taken, line ∈ lines)
    (hentries : entries.map Entry.content = taken.map Line.content) {entry : Entry}
    (hentry : entry ∈ entries) :
    ∃ line ∈ lines, entry.path = line.path.text ∧ entry.value = line.value := by
  have hmem : entry.content ∈ taken.map Line.content := hentries ▸ List.mem_map_of_mem hentry
  obtain ⟨line, hline, hcontent⟩ := List.mem_map.mp hmem
  obtain ⟨hpath, hvalue⟩ := Prod.mk.inj hcontent
  exact ⟨line, htaken line hline, hpath.symm, hvalue.symm⟩

/-- Entries of lines that were taken from the same lines are concordant. -/
theorem concordant (h : Tidy lines) {taken picked : List Line} {entries others : List Entry}
    (htaken : ∀ line ∈ taken, line ∈ lines) (hpicked : ∀ line ∈ picked, line ∈ lines)
    (hentries : entries.map Entry.content = taken.map Line.content)
    (hothers : others.map Entry.content = picked.map Line.content) : Concordant entries others := by
  -- a value and a tag at one path would be two lines that clash
  have hno : ∀ {line other : Line} {path : Path}, line ∈ lines → other ∈ lines → path.Proper →
      ¬(line.path.text = path.text ∧ other.path.text = (path.field "type").text) := by
    intro line other path hline hother hproper htexts
    have hfirst : line.path = path := Path.text_inj (h.proper line hline) hproper htexts.1
    have hsecond : other.path = path.field "type" :=
      Path.text_inj (h.proper other hother) (hproper.field rfl) htexts.2
    have hclash : Clash line.path.steps other.path.steps := by
      rw [hfirst, hsecond]
      exact Or.inr (Or.inl rfl)
    have hsame : path.steps ++ [.field "type"] = path.steps := by
      have hline := h.eq_of_clash hline hother hclash
      rw [hline] at hfirst
      exact congrArg Path.steps (hsecond.symm.trans hfirst)
    exact List.cons_ne_nil _ _ (List.append_right_eq_self.mp hsame)
  constructor
  -- entries at one path are those of one line
  · intro entry hentry other hother heq
    obtain ⟨line, hline, htext, hvalue⟩ := exists_line htaken hentries hentry
    obtain ⟨line', hline', htext', hvalue'⟩ := exists_line hpicked hothers hother
    rw [htext, htext'] at heq
    rw [hvalue, hvalue', h.eq_of_text hline hline' heq]
  -- neither of the two may hold the tag of the other
  · intro path hproper entry hentry other hother
    obtain ⟨line, hline, htext, -⟩ := exists_line htaken hentries hentry
    obtain ⟨line', hline', htext', -⟩ := exists_line hpicked hothers hother
    rw [htext, htext']
    exact ⟨hno hline hline' hproper, hno hline' hline hproper⟩

end Tidy

end LedgerTx.Listing
