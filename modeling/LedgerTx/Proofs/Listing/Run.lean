import LedgerTx.Listing.Form
import LedgerTx.Proofs.Front
import LedgerTx.Proofs.Listing.RoundTrip
import Mathlib.Data.List.Infix
import Mathlib.Data.List.Nodup

namespace LedgerTx.Listing

/-! # Runs of readers

A run follows a reader from line to line: which lines it asks for, in which order, and what comes of it.
A reader asks for the next line by reading a value; it may look at the path of that line and at the number
of lines left without asking for it. -/

/-- How a reader comes from some entries to a result, asking for lines one after the other; where no line
is left, it asks for none. -/
inductive Run : {α : Type} → Reader α → List Entry → List (Option Entry) →
    Except ListingError (α × List Entry) → Prop
  | pure {α : Type} (a : α) (entries : List Entry) :
      Run (fun entries => .ok (a, entries)) entries [] (.ok (a, entries))
  | fail {α : Type} (cause : ListingError) (entries : List Entry) :
      Run (fun _ => .error cause : Reader α) entries [] (.error cause)
  /-- Reading a value asks for the next line. -/
  | line (path : Path) (entries : List Entry) :
      Run (readValue path) entries [entries.head?] (readValue path entries)
  /-- After a value, the next is read from what is left. -/
  | next {α β : Type} {read : Reader α} {next : α × List Entry → Except ListingError (β × List Entry)}
      {entries mid : List Entry} {asked asked' : List (Option Entry)} {a : α}
      {result : Except ListingError (β × List Entry)} (h : Run read entries asked (.ok (a, mid)))
      (hnext : Run (fun entries => next (a, entries)) mid asked' result) :
      Run (fun entries => read entries >>= next) entries (asked ++ asked') result
  /-- After a failure, nothing more is read. -/
  | stop {α β : Type} {read : Reader α} {next : α × List Entry → Except ListingError (β × List Entry)}
      {entries : List Entry} {asked : List (Option Entry)} {cause : ListingError}
      (h : Run read entries asked (.error cause)) :
      Run (fun entries => read entries >>= next) entries asked (.error cause)
  /-- The path of the next line and the number of lines left may decide how to go on. -/
  | look {α : Type} {choose : Option (List Char) → Nat → Reader α} {entries : List Entry}
      {asked : List (Option Entry)} {result : Except ListingError (α × List Entry)}
      (h : Run (choose (entries.head?.map Entry.path) entries.length) entries asked result) :
      Run (fun entries => choose (entries.head?.map Entry.path) entries.length entries) entries asked
        result

namespace Run

variable {α : Type} {read : Reader α} {entries : List Entry} {asked : List (Option Entry)}
  {result : Except ListingError (α × List Entry)}

/-- What comes out of a run is what the reader reads. -/
theorem result_eq (h : Run read entries asked result) : result = read entries := by
  induction h with
  | pure | fail | line => rfl
  | next _ _ ih ihnext =>
    dsimp only
    rw [← ih, ihnext]
    rfl
  | stop _ ih =>
    dsimp only
    rw [← ih]
    rfl
  | look _ ih => exact ih

/-- The lines that are asked for are the next ones, each once and in order, and at the end none.  A reader
that succeeds has taken all lines that it asked for. -/
theorem asked_eq (h : Run read entries asked result) :
    (∀ {a rest}, result = .ok (a, rest) → ∃ taken, entries = taken ++ rest ∧ asked = taken.map some)
      ∧ asked <+: entries.map some ++ [none] := by
  induction h with
  | pure a entries =>
    refine ⟨fun hok => ?_, List.nil_prefix⟩
    cases hok
    exact ⟨[], rfl, rfl⟩
  | fail cause entries =>
    refine ⟨fun hok => ?_, List.nil_prefix⟩
    -- a reader that fails here has asked for nothing
    cases hok
  | line path entries =>
    refine ⟨fun hok => ?_, ?_⟩
    · obtain ⟨entry, rfl, -⟩ := readValue_eq_ok.mp hok
      exact ⟨[entry], rfl, rfl⟩
    -- at the end of the listing the question is put and finds no line
    · cases entries with
      | nil => exact List.prefix_refl _
      | cons entry entries => exact List.prefix_append [some entry] _
  | next _ _ ih ihnext =>
    obtain ⟨taken, rfl, rfl⟩ := ih.1 rfl
    refine ⟨fun hok => ?_, ?_⟩
    -- the second reader goes on behind what the first has taken
    · obtain ⟨more, rfl, rfl⟩ := ihnext.1 hok
      exact ⟨taken ++ more, (List.append_assoc ..).symm, List.map_append.symm⟩
    · rw [List.map_append, List.append_assoc]
      exact (List.prefix_append_right_inj _).mpr ihnext.2
  | stop _ ih =>
    refine ⟨fun hok => ?_, ih.2⟩
    cases hok
  | look _ ih => exact ih

/-- No line is asked for twice. -/
theorem asked_nodup (h : Run read entries asked result) (hentries : entries.Nodup) : asked.Nodup := by
  have hall : (entries.map some ++ [none]).Nodup := by
    refine List.nodup_append.mpr ⟨hentries.map fun _ _ => Option.some.inj, List.nodup_singleton none, ?_⟩
    rintro a ha b hb rfl
    obtain ⟨entry, -, rfl⟩ := List.mem_map.mp ha
    cases List.mem_singleton.mp hb
  exact hall.sublist h.asked_eq.2.sublist

/-- Each line is asked for once, and one line more where none is left. -/
theorem length_asked_le (h : Run read entries asked result) : asked.length ≤ entries.length + 1 := by
  have hle := h.asked_eq.2.length_le
  rwa [List.length_append, List.length_map] at hle

end Run

/-! ## Readers that have runs -/

/-- A reader that has a run through any entries. -/
def Runs {α : Type} (read : Reader α) : Prop :=
  ∀ entries, ∃ asked, Run read entries asked (read entries)

namespace Runs

variable {α β : Type} {read : Reader α}

theorem pure (a : α) : Runs fun entries => .ok (a, entries) :=
  fun entries => ⟨[], .pure a entries⟩

/-- A reader that always fails. -/
theorem of_fails {cause : ListingError} (h : ∀ entries, read entries = .error cause) : Runs read := by
  obtain rfl : read = fun _ => .error cause := funext h
  exact fun entries => ⟨[], .fail cause entries⟩

theorem readValue (path : Path) : Runs (readValue path) :=
  fun entries => ⟨_, .line path entries⟩

/-- What is read next may depend on what was read first. -/
theorem bind (h : Runs read) {next : α × List Entry → Except ListingError (β × List Entry)}
    (hnext : ∀ a, Runs fun entries => next (a, entries)) : Runs fun entries => read entries >>= next := by
  intro entries
  obtain ⟨asked, hrun⟩ := h entries
  -- the next reader has a run from what the first one leaves
  show ∃ asked, Run _ entries asked (read entries >>= next)
  cases hread : read entries with
  | error cause =>
    rw [hread] at hrun
    exact ⟨asked, .stop hrun⟩
  | ok r =>
    obtain ⟨a, mid⟩ := r
    rw [hread] at hrun
    obtain ⟨asked', hrun'⟩ := hnext a mid
    exact ⟨asked ++ asked', .next hrun hrun'⟩

theorem map (h : Runs read) (f : α → β) :
    Runs
      (fun entries => do
        let (a, entries) ← read entries
        return (f a, entries)) :=
  h.bind fun a => pure (f a)

theorem ite {c : Prop} [Decidable c] {other : Reader α} (h : Runs read) (hother : Runs other) :
    Runs fun entries => if c then read entries else other entries := by
  by_cases hc : c
  · simpa only [if_pos hc] using h
  · simpa only [if_neg hc] using hother

/-- A choice that is made by looking ahead, without asking for the line. -/
theorem look {choose : Option (List Char) → Nat → Reader α} (h : ∀ path left, Runs (choose path left)) :
    Runs fun entries => choose (entries.head?.map Entry.path) entries.length entries := by
  intro entries
  obtain ⟨asked, hrun⟩ := h (entries.head?.map Entry.path) entries.length entries
  exact ⟨asked, .look hrun⟩

end Runs

/-- A reader that goes from line to line and takes one at least for each value. -/
structure Advances {α : Type} (read : Reader α) : Prop where
  runs : Runs read
  taken : ∀ {entries asked a rest}, Run read entries asked (.ok (a, rest)) →
    ∃ taken, taken ≠ [] ∧ entries = taken ++ rest ∧ asked = taken.map some

/-- A reader that takes one entry at least asks for it, so it goes on. -/
theorem Advances.of_takes {α : Type} {read : Reader α} (hruns : Runs read) (htakes : Takes 1 read) :
    Advances read where
  runs := hruns
  taken := by
    intro entries asked a rest hrun
    obtain ⟨taken, rfl, rfl⟩ := hrun.asked_eq.1 rfl
    refine ⟨taken, ?_, rfl, rfl⟩
    -- had nothing been taken, as much would be left as there was
    rintro rfl
    have hless := (htakes hrun.result_eq.symm).2
    rw [List.nil_append] at hless
    omega

end LedgerTx.Listing
