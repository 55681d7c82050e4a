import LedgerTx.Proofs.Listing.Distinct
import LedgerTx.Proofs.Listing.RoundTrip

namespace LedgerTx

open Listing

/-! # Readers of the same lines

A reader names the path that it expects next.  So of two readers of one kind of value that are given
entries of the same lines, in whatever order and number, both read the same value from the same entries
unless one of them fails: the first entry where they could differ is at the path that both expect. -/

/-! ## Entries of the same lines -/

namespace Listing

/-- What a reader can tell of an entry, besides its number. -/
def Entry.content (entry : Entry) : List Char × List Char :=
  (entry.path, entry.value)

/-- Entries that are taken from lines that do not clash, with one value for each path. -/
structure Concordant (entries others : List Entry) : Prop where
  value_eq : ∀ entry ∈ entries, ∀ other ∈ others, entry.path = other.path → entry.value = other.value
  /-- Of a value on one line and a value in parts at the same path there is one at most. -/
  not_tag : ∀ path : Path, path.Proper → ∀ entry ∈ entries, ∀ other ∈ others,
    ¬(entry.path = path.text ∧ other.path = (path.field "type").text)
      ∧ ¬(other.path = path.text ∧ entry.path = (path.field "type").text)

/-- The same entries were taken from the front of both, but for their numbers. -/
def TakenAlike (entries left others left' : List Entry) : Prop :=
  ∃ taken taken', entries = taken ++ left ∧ others = taken' ++ left'
    ∧ taken.map Entry.content = taken'.map Entry.content

variable {entries left others left' : List Entry}

theorem TakenAlike.refl (entries others : List Entry) : TakenAlike entries entries others others :=
  ⟨[], [], rfl, rfl, rfl⟩

/-- What is taken afterwards is taken behind what was taken first. -/
theorem TakenAlike.trans {mid mid' : List Entry} (h : TakenAlike entries mid others mid')
    (h' : TakenAlike mid left mid' left') : TakenAlike entries left others left' := by
  obtain ⟨front, front', rfl, rfl, hfront⟩ := h
  obtain ⟨back, back', rfl, rfl, hback⟩ := h'
  refine ⟨front ++ back, front' ++ back', (List.append_assoc ..).symm, (List.append_assoc ..).symm, ?_⟩
  rw [List.map_append, List.map_append, hfront, hback]

theorem Concordant.symm (h : Concordant entries others) : Concordant others entries := by
  constructor
  · intro other hother entry hentry heq
    exact (h.value_eq entry hentry other hother heq.symm).symm
  · intro path hpath other hother entry hentry
    exact (h.not_tag path hpath entry hentry other hother).symm

/-- What is left of concordant entries is concordant. -/
theorem Concordant.rest (h : Concordant entries others) (htaken : TakenAlike entries left others left') :
    Concordant left left' := by
  obtain ⟨front, front', rfl, rfl, -⟩ := htaken
  constructor
  · intro entry hentry other hother
    exact h.value_eq entry (List.mem_append_right _ hentry) other (List.mem_append_right _ hother)
  · intro path hpath entry hentry other hother
    exact h.not_tag path hpath entry (List.mem_append_right _ hentry) other
      (List.mem_append_right _ hother)

end Listing

/-! ## Readers -/

/-- Readers that read the same from concordant entries, as far as both succeed. -/
def ReadAlike {α : Type} (first second : Reader α) : Prop :=
  ∀ ⦃entries others : List Entry⦄ ⦃a b : α⦄ ⦃left left' : List Entry⦄, Concordant entries others →
    first entries = .ok (a, left) → second others = .ok (b, left') →
      a = b ∧ TakenAlike entries left others left'

namespace ReadAlike

variable {α β : Type} {first second : Reader α}

theorem pure (a : α) : ReadAlike (fun entries => .ok (a, entries)) fun entries => .ok (a, entries) := by
  intro entries others b c left left' _ hfirst hsecond
  cases hfirst
  cases hsecond
  exact ⟨rfl, .refl _ _⟩

/-- What is read next may depend on what was read first. -/
theorem bind (h : ReadAlike first second) {next next' : α → Reader β}
    (hnext : ∀ a, ReadAlike (next a) (next' a)) :
    ReadAlike
      (fun entries => do
        let (a, entries) ← first entries
        next a entries)
      (fun entries => do
        let (a, entries) ← second entries
        next' a entries) := by
  intro entries others b b' left left' hconcordant hfirst hsecond
  obtain ⟨⟨a, mid⟩, ha, hb⟩ := Except.bind_eq_ok.mp hfirst
  obtain ⟨⟨a', mid'⟩, ha', hb'⟩ := Except.bind_eq_ok.mp hsecond
  -- both read the same first, so both go on with the same reader
  obtain ⟨rfl, htaken⟩ := h hconcordant ha ha'
  obtain ⟨heq, hmore⟩ := hnext a (hconcordant.rest htaken) hb hb'
  exact ⟨heq, htaken.trans hmore⟩

/-- A value that is made from what is read. -/
theorem map (h : ReadAlike first second) (f : α → β) :
    ReadAlike
      (fun entries => do
        let (a, entries) ← first entries
        return (f a, entries))
      (fun entries => do
        let (a, entries) ← second entries
        return (f a, entries)) :=
  h.bind fun a => pure (f a)

/-- A reader that always fails has nothing to agree on with another. -/
theorem of_fails_left (h : ∀ entries, ∃ e, first entries = .error e) : ReadAlike first second := by
  intro entries others a b left left' _ hfirst
  obtain ⟨e, he⟩ := h entries
  rw [he] at hfirst
  cases hfirst

theorem of_fails_right (h : ∀ entries, ∃ e, second entries = .error e) : ReadAlike first second := by
  intro entries others a b left left' _ _ hsecond
  obtain ⟨e, he⟩ := h others
  rw [he] at hsecond
  cases hsecond

end ReadAlike

/-! ## Values of one line -/

/-- A form of values on one line. -/
def Form.Single {α : Type} (form : Form α) : Prop :=
  ∃ print parse, form = .line print parse

namespace Form.Single

variable {α : Type} {form : Form α} {path : Path}

/-- What is written for a value on one line is a line at the path. -/
theorem write_eq_ok (h : form.Single) {a : α} {lines : List Line} (hwrite : form.write path a = .ok lines) :
    ∃ value, lines = [⟨path, value⟩] := by
  obtain ⟨print, parse, rfl⟩ := h
  obtain ⟨value, -, hlines⟩ := write_line_eq_ok.mp hwrite
  exact ⟨value, hlines⟩

/-- What is read is told by the value on the line. -/
theorem exists_read_eq_ok (h : form.Single) : ∃ parse : List Char → Except LineError α,
    ∀ {path : Path} {a : α} {entries rest : List Entry}, form.read path entries = .ok (a, rest) →
      ∃ entry, entries = entry :: rest ∧ entry.path = path.text ∧ parse entry.value = .ok a := by
  obtain ⟨print, parse, rfl⟩ := h
  refine ⟨fun value => parse (splitToken value).1 (splitToken value).2, ?_⟩
  intro path a entries rest h
  obtain ⟨entry, hentries, hpath, -, hparse⟩ := read_line_eq_ok.mp h
  exact ⟨entry, hentries, hpath, hparse⟩

/-- The line that is read is at the path. -/
theorem head_path (h : form.Single) {a : α} {entries rest : List Entry}
    (hread : form.read path entries = .ok (a, rest)) :
    ∃ entry, entries = entry :: rest ∧ entry.path = path.text := by
  obtain ⟨parse, hparse⟩ := h.exists_read_eq_ok
  obtain ⟨entry, hentries, hpath, -⟩ := hparse hread
  exact ⟨entry, hentries, hpath⟩

/-- Two entries at one path have one value, so the same is parsed from both. -/
theorem readAlike (h : form.Single) : ReadAlike (form.read path) (form.read path) := by
  intro entries others a b left left' hconcordant hfirst hsecond
  obtain ⟨parse, hparse⟩ := h.exists_read_eq_ok
  obtain ⟨entry, rfl, hpath, ha⟩ := hparse hfirst
  obtain ⟨other, rfl, hpath', hb⟩ := hparse hsecond
  have hsame : entry.path = other.path := hpath.trans hpath'.symm
  have hvalue := hconcordant.value_eq entry (List.mem_cons_self ..) other (List.mem_cons_self ..) hsame
  rw [hvalue, hb] at ha
  refine ⟨(Except.ok.inj ha).symm, [entry], [other], rfl, rfl, ?_⟩
  rw [List.map_singleton, List.map_singleton, Entry.content, Entry.content, hsame, hvalue]

/-- A reader that finds the tag and one that finds a value were not given concordant entries. -/
theorem not_tag (h : form.Single) (hpath : path.Proper) {a : α} {entries others rest : List Entry}
    (hconcordant : Concordant entries others)
    (htag : entries.head?.map Entry.path = some (path.field "type").text) :
    form.read path others ≠ .ok (a, rest) := by
  intro hread
  obtain ⟨other, rfl, hother⟩ := h.head_path hread
  obtain ⟨entry, hentry, heq⟩ := Option.map_eq_some_iff.mp htag
  have hnone := hconcordant.not_tag path hpath entry (List.mem_of_mem_head? hentry) other
    (List.mem_cons_self ..)
  exact hnone.2 ⟨hother, heq⟩

/-- The next path tells which form is read, and it tells both readers the same. -/
theorem either_readAlike {β : Type} {inParts : Form β} (h : form.Single) (hpath : path.Proper)
    (hparts : ReadAlike (inParts.read path) (inParts.read path)) :
    ReadAlike ((Form.either form "type" inParts).read path)
      ((Form.either form "type" inParts).read path) := by
  intro entries others c d left left' hconcordant hfirst hsecond
  unfold Form.either at hfirst hsecond
  dsimp only at hfirst hsecond
  by_cases htag : entries.head?.map Entry.path = some (path.field "type").text <;>
    by_cases htag' : others.head?.map Entry.path = some (path.field "type").text
  -- the tag is there for both
  · rw [if_pos htag] at hfirst
    rw [if_pos htag'] at hsecond
    exact hparts.map Sum.inr hconcordant hfirst hsecond
  -- the tag is there for the first only, so the second has read a value at the path
  · rw [if_neg htag'] at hsecond
    obtain ⟨⟨a, mid⟩, hread, -⟩ := Except.bind_eq_ok.mp hsecond
    exact absurd hread (h.not_tag hpath hconcordant htag)
  -- the other way round
  · rw [if_neg htag] at hfirst
    obtain ⟨⟨a, mid⟩, hread, -⟩ := Except.bind_eq_ok.mp hfirst
    exact absurd hread (h.not_tag hpath hconcordant.symm htag')
  -- the tag is there for neither
  · rw [if_neg htag] at hfirst
    rw [if_neg htag'] at hsecond
    exact h.readAlike.map Sum.inl hconcordant hfirst hsecond

/-! The forms of single values stand on one line. -/

theorem count {max : Nat} : (Form.count max).Single :=
  ⟨_, _, rfl⟩

/-- Values that are told from their token alone. -/
theorem token {print : α → List Char} {parse : List Char → Except LineError α} :
    (Form.token print parse).Single :=
  ⟨_, _, rfl⟩

theorem number {print : α → List Char} {parse? : List Char → Option α} :
    (Form.number print parse?).Single :=
  token

theorem named {print : α → String} {parse? : String → Option α} : (Form.named print parse?).Single :=
  token

/-- Values with a parser that says why it refuses. -/
theorem parsed {print : α → String} {parse : String → Except ValueError α} :
    (Form.parsed print parse).Single :=
  token

theorem arms {κ : Type} [Enumeration κ] {constantOf : α → κ} {arm? : κ → Option α}
    {refuse : String → LineError} : (Form.arms constantOf arm? refuse).Single :=
  token

end Form.Single

end LedgerTx
