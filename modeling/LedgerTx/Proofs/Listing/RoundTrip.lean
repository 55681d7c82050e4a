import LedgerTx.Listing.Form
import LedgerTx.Proofs.Listing.Entries

namespace LedgerTx

open Listing

/-! # Reading lines that were written

`RoundTrip` says what the lines of one value come to when they are read: it is read again, or refused. -/

/-! ## Computations of which the result is known -/

/-- A computation that succeeds with a known result where `good` holds, and fails elsewhere. -/
structure Settles {ε α : Type} (good : Prop) (result : Except ε α) (a : α) : Prop where
  eq_ok : good → result = .ok a
  eq_error : ¬good → ∃ e, result = .error e

namespace Settles

variable {ε α β : Type} {good good' : Prop} {result : Except ε α} {a : α}

theorem of_eq (h : result = .ok a) : Settles True result a :=
  ⟨fun _ => h, fun hno => absurd trivial hno⟩

theorem congr (h : Settles good result a) (hiff : good' ↔ good) : Settles good' result a :=
  ⟨fun hgood => h.eq_ok (hiff.mp hgood), fun hbad => h.eq_error fun hgood => hbad (hiff.mpr hgood)⟩

/-- Whatever comes out is the known result. -/
theorem eq_of_eq_ok (h : Settles good result a) {b : α} (hb : result = .ok b) : good ∧ b = a := by
  by_cases hgood : good
  · have ha := h.eq_ok hgood
    rw [ha] at hb
    cases hb
    exact ⟨hgood, rfl⟩
  · rcases h.eq_error hgood with ⟨e, he⟩
    rw [he] at hb
    cases hb

/-- Two computations in order. -/
theorem bind (h : Settles good result a) {f : α → Except ε β} {b : β} (hf : Settles good' (f a) b) :
    Settles (good ∧ good') (result >>= f) b := by
  constructor
  · rintro ⟨hgood, hgood'⟩
    rw [h.eq_ok hgood]
    exact hf.eq_ok hgood'
  · intro hbad
    -- the first of the two that fails gives the error
    by_cases hgood : good
    · rw [h.eq_ok hgood]
      exact hf.eq_error fun hgood' => hbad ⟨hgood, hgood'⟩
    · rcases h.eq_error hgood with ⟨e, he⟩
      exact ⟨e, by rw [he]; rfl⟩

/-- A computation and then a plain step. -/
theorem map (h : Settles good result a) {f : α → Except ε β} {b : β} (hf : f a = .ok b) :
    Settles good (result >>= f) b :=
  (h.bind (of_eq hf)).congr ⟨fun hgood => ⟨hgood, trivial⟩, fun hgood => hgood.1⟩

end Settles

/-! ## Writers and readers of one value -/

/-- Lines are written in two parts if both are written. -/
theorem Listing.append_eq_ok {written written' : Except ListingError (List Line)} {lines : List Line} :
    (do
      let front ← written
      let back ← written'
      return front ++ back) = .ok lines ↔
      ∃ front back, written = .ok front ∧ written' = .ok back ∧ lines = front ++ back := by
  constructor
  · intro h
    replace h := Except.bind_eq_ok.mp h
    rcases h with ⟨front, hfront, h⟩
    replace h := Except.bind_eq_ok.mp h
    rcases h with ⟨back, hback, h⟩
    cases h
    exact ⟨front, back, hfront, hback, rfl⟩
  · rintro ⟨front, back, hfront, hback, rfl⟩
    exact Except.bind_eq_ok.mpr ⟨front, hfront, Except.bind_eq_ok.mpr ⟨back, hback, rfl⟩⟩

/-- Writing gives sound lines, and reading entries that show them settles on the value. -/
def RoundTrip {α : Type} (good : Prop) (written : Except ListingError (List Line)) (read : Reader α)
    (a : α) : Prop :=
  ∃ lines, written = .ok lines ∧ (∀ line ∈ lines, Sound line.value)
    ∧ ∀ ⦃shown rest : List Entry⦄, List.Forall₂ Entry.Shows shown lines →
      Settles good (read (shown ++ rest)) (a, rest)

namespace RoundTrip

variable {α β : Type} {good good' : Prop} {written written' : Except ListingError (List Line)}
  {read : Reader α} {a : α}

theorem congr (h : RoundTrip good written read a) (hiff : good' ↔ good) :
    RoundTrip good' written read a := by
  rcases h with ⟨lines, hwrite, hsound, hread⟩
  exact ⟨lines, hwrite, hsound, fun _ _ hshown => (hread hshown).congr hiff⟩

theorem nil (a : α) : RoundTrip True (.ok []) (fun entries => .ok (a, entries)) a := by
  refine ⟨[], rfl, fun line hline => absurd hline List.not_mem_nil, fun shown rest hshown => ?_⟩
  cases hshown
  exact .of_eq rfl

/-- A reader that goes on without reading more lines. -/
theorem andThen (h : RoundTrip good written read a) (next : α → Reader β) {b : β}
    (hnext : ∀ entries, next a entries = .ok (b, entries)) :
    RoundTrip good written
      (fun entries => do
        let (x, entries) ← read entries
        next x entries)
      b := by
  rcases h with ⟨lines, hwrite, hsound, hread⟩
  exact ⟨lines, hwrite, hsound, fun _ rest hshown => (hread hshown).map (hnext rest)⟩

/-- A value that is made from what is read. -/
theorem map (h : RoundTrip good written read a) (f : α → β) :
    RoundTrip good written
      (fun entries => do
        let (x, entries) ← read entries
        return (f x, entries))
      (f a) :=
  h.andThen (fun x entries => .ok (f x, entries)) fun _ => rfl

/-- Lines in a row are shown by entries in a row. -/
theorem forall₂_append {shown : List Entry} {lines more : List Line}
    (h : List.Forall₂ Entry.Shows shown (lines ++ more)) :
    ∃ front back, shown = front ++ back ∧ List.Forall₂ Entry.Shows front lines
      ∧ List.Forall₂ Entry.Shows back more := by
  refine ⟨shown.take lines.length, shown.drop lines.length, (List.take_append_drop ..).symm, ?_, ?_⟩
  · exact List.forall₂_take_append _ _ _ h
  · exact List.forall₂_drop_append _ _ _ h

/-- The lines of one value and then those of another; the second reader may ask what was read first. -/
theorem seq (h : RoundTrip good written read a) (next : α → Reader β) {b : β}
    (hnext : RoundTrip good' written' (next a) b) :
    RoundTrip (good ∧ good')
      (do
        let lines ← written
        let more ← written'
        return lines ++ more)
      (fun entries => do
        let (x, entries) ← read entries
        next x entries)
      b := by
  rcases h with ⟨lines, hwrite, hsound, hread⟩
  rcases hnext with ⟨more, hwrite', hsound', hread'⟩
  refine ⟨lines ++ more, ?_, ?_, fun shown rest hshown => ?_⟩
  · exact append_eq_ok.mpr ⟨lines, more, hwrite, hwrite', rfl⟩
  · intro line hline
    rcases List.mem_append.mp hline with hmem | hmem
    · exact hsound line hmem
    · exact hsound' line hmem
  · -- the first reader leaves what shows the lines of the second
    rcases forall₂_append hshown with ⟨front, back, rfl, hfront, hback⟩
    rw [List.append_assoc]
    exact (hread hfront).bind (hread' hback)

/-- Of entries that follow the lines of a value and more, nothing but the value is read, and what is left
follows the other lines. -/
theorem eq_of_follow (h : RoundTrip good written read a) {lines more : List Line}
    {entries rest : List Entry} {b : α} (hwrite : written = .ok lines)
    (hfollow : Follow (lines ++ more) entries) (hb : read entries = .ok (b, rest)) :
    a = b ∧ Follow more rest := by
  rcases h with ⟨sound, hsame, hsound, hread⟩
  rw [hwrite] at hsame
  cases hsame
  -- sound lines are shown by as many entries in front
  rcases hfollow.of_append hsound with ⟨shown, left, rfl, hshown, hmore⟩
  -- the reader settles on the value, so no other comes out
  rcases (hread hshown).eq_of_eq_ok hb with ⟨-, heq⟩
  cases heq
  exact ⟨rfl, hmore⟩

end RoundTrip

/-! ## Values of one line -/

/-- What printing and parsing must be for a value of one line. -/
def PrintParse {α : Type} (print : α → Except LineError (List Char))
    (parse : List Char → List Char → Except LineError α) (good : Prop) (a : α) : Prop :=
  ∃ value, print a = .ok value ∧ Sound value
    ∧ ∀ after, IsComment after → Settles good (parse (splitToken value).1 after) a

/-- A value of one line is written as it is printed, at the path. -/
theorem write_line_eq_ok {α : Type} {print : α → Except LineError (List Char)}
    {parse : List Char → List Char → Except LineError α} {path : Path} {a : α} {lines : List Line} :
    (Form.line print parse).write path a = .ok lines ↔
      ∃ value, print a = .ok value ∧ lines = [⟨path, value⟩] := by
  unfold Form.line
  dsimp only
  cases print a with
  | error cause =>
    constructor
    · intro h
      cases h
    · rintro ⟨value, hvalue, -⟩
      cases hvalue
  | ok value =>
    constructor
    · intro h
      cases h
      exact ⟨value, rfl, rfl⟩
    · rintro ⟨value, hvalue, rfl⟩
      cases hvalue
      rfl

/-- The next entry is read if it is at the path and has a token. -/
theorem readValue_eq_ok {path : Path} {entries rest : List Entry} {value : List Char × List Char} :
    readValue path entries = .ok (value, rest) ↔ ∃ entry, entries = entry :: rest
      ∧ entry.path = path.text ∧ (splitToken entry.value).1 ≠ [] ∧ splitToken entry.value = value := by
  constructor
  · intro h
    cases entries with
    | nil => cases h
    | cons entry entries =>
      unfold readValue at h
      dsimp only at h
      split at h
      · cases h
      · rename_i hpath
        split at h
        -- the next entry is at the path, but without a token
        · cases h
        · rename_i htoken
          cases h
          exact ⟨entry, rfl, not_not.mp hpath, mt List.isEmpty_iff.mpr htoken, rfl⟩
  · rintro ⟨entry, rfl, hpath, htoken, rfl⟩
    unfold readValue
    dsimp only
    rw [if_neg (not_not_intro hpath), if_neg (mt List.isEmpty_iff.mp htoken)]

/-- A value of one line is what is parsed from the token of the next entry. -/
theorem read_line_eq_ok {α : Type} {print : α → Except LineError (List Char)}
    {parse : List Char → List Char → Except LineError α} {path : Path} {entries rest : List Entry} {a : α} :
    (Form.line print parse).read path entries = .ok (a, rest) ↔ ∃ entry, entries = entry :: rest
      ∧ entry.path = path.text ∧ (splitToken entry.value).1 ≠ []
      ∧ parse (splitToken entry.value).1 (splitToken entry.value).2 = .ok a := by
  constructor
  · intro h
    obtain ⟨⟨value, mid⟩, hvalue, hread⟩ := Except.bind_eq_ok.mp h
    obtain ⟨entry, rfl, hpath, htoken, rfl⟩ := readValue_eq_ok.mp hvalue
    dsimp only at hread
    split at hread
    · rename_i b hparse
      cases hread
      exact ⟨entry, rfl, hpath, htoken, hparse⟩
    · cases hread
  · rintro ⟨entry, rfl, hpath, htoken, hparse⟩
    refine Except.bind_eq_ok.mpr ⟨_, readValue_eq_ok.mpr ⟨entry, rfl, hpath, htoken, rfl⟩, ?_⟩
    dsimp only
    rw [hparse]
    rfl

/-- The token of the next entry is read, if the entry is at the path. -/
theorem read_line_cons {α : Type} {print : α → Except LineError (List Char)}
    {parse : List Char → List Char → Except LineError α} {path : Path} {entry : Entry}
    (hpath : entry.path = path.text) (htoken : (splitToken entry.value).1 ≠ []) (rest : List Entry) :
    (Form.line print parse).read path (entry :: rest)
      = match parse (splitToken entry.value).1 (splitToken entry.value).2 with
        | .ok a => .ok (a, rest)
        | .error cause => failAt path cause := by
  have hread : readValue path (entry :: rest) = .ok (splitToken entry.value, rest) :=
    readValue_eq_ok.mpr ⟨entry, rfl, hpath, htoken, rfl⟩
  unfold Form.line
  dsimp only
  rw [hread]
  rfl

/-- What is printed is found at the path, and parsed from its token. -/
theorem roundTrip_line {α : Type} {print : α → Except LineError (List Char)}
    {parse : List Char → List Char → Except LineError α} {good : Prop} {a : α}
    (h : PrintParse print parse good a) (path : Path) :
    RoundTrip good ((Form.line print parse).write path a) ((Form.line print parse).read path) a := by
  rcases h with ⟨value, hprint, hsound, hparse⟩
  refine ⟨[⟨path, value⟩], write_line_eq_ok.mpr ⟨value, hprint, rfl⟩, ?_, fun shown rest hshown => ?_⟩
  · intro line hline
    rw [List.mem_singleton.mp hline]
    exact hsound
  -- one line is shown by one entry
  · rcases List.forall₂_cons_right_iff.mp hshown with ⟨entry, none, hentry, hnone, rfl⟩
    rw [List.forall₂_nil_right_iff.mp hnone]
    have htoken : (splitToken entry.value).1 ≠ [] := by
      rw [hentry.token]
      exact hsound.token_ne
    -- the comment behind the token is of no account
    have hsettles := hparse (splitToken entry.value).2 hentry.comment
    rw [List.singleton_append, read_line_cons hentry.path htoken, hentry.token]
    constructor
    · intro hgood
      rw [hsettles.eq_ok hgood]
    · intro hbad
      rcases hsettles.eq_error hbad with ⟨e, he⟩
      rw [he]
      exact ⟨_, rfl⟩

end LedgerTx
