import LedgerTx.Proofs.Wire.Decoder

namespace LedgerTx

/-! # Reading from the front

Decoders and readers of listings take a value from the front of a sequence and hand back what they did not
use.  `Takes` says how much they use at least; `AgreeBelow` compares two of them on short inputs, which is
how the levels of a recursive type are compared.  A reader is `Idle` if it does not depend on what it does
not use; it takes something if it cannot read from nothing. -/

variable {ε α β γ ι : Type} {least least' n m : Nat}

/-- What is left after a value is the end of what was there, and shorter by `least` at least. -/
def Takes (least : Nat) (read : List ι → Except ε (α × List ι)) : Prop :=
  ∀ ⦃input a rest⦄, read input = .ok (a, rest) → rest <:+ input ∧ rest.length + least ≤ input.length

/-- Whatever takes nothing is read from nothing as well. -/
def Idle (read : List ι → Except ε (α × List ι)) : Prop :=
  ∀ ⦃input a rest⦄, read input = .ok (a, rest) → rest.length = input.length → read [] = .ok (a, [])

/-- Two computations do the same on inputs shorter than `n`. -/
def AgreeBelow (n : Nat) (first second : List ι → γ) : Prop :=
  ∀ ⦃input⦄, input.length < n → first input = second input

/-- What is left to read of an option, once it is known whether there is a value. -/
def readPresent (read : List ι → Except ε (α × List ι)) (present : Bool) (input : List ι) :
    Except ε (Option α × List ι) :=
  if present then do
    let (a, input) ← read input
    return (some a, input)
  else
    return (none, input)

namespace Takes

variable {read : List ι → Except ε (α × List ι)}

/-- A reader whose rest is always an end of its input, however long. -/
theorem of_suffix (h : ∀ {input a rest}, read input = .ok (a, rest) → rest <:+ input) : Takes 0 read :=
  fun _ _ _ hread => ⟨h hread, (h hread).length_le⟩

/-- What is taken is what stands in front of the rest. -/
theorem of_append (h : ∀ {input a rest}, read input = .ok (a, rest) →
    ∃ front, input = front ++ rest ∧ least ≤ front.length) : Takes least read := by
  intro input a rest hread
  obtain ⟨front, rfl, hlength⟩ := h hread
  rw [List.length_append]
  exact ⟨List.suffix_append .., by omega⟩

theorem of_fails (h : ∀ input, ∃ e, read input = .error e) : Takes least read := by
  intro input a rest hread
  obtain ⟨e, he⟩ := h input
  rw [he] at hread
  cases hread

theorem pure (a : α) : Takes 0 fun input : List ι => (.ok (a, input) : Except ε (α × List ι)) := by
  intro input b rest hread
  cases hread
  exact ⟨List.suffix_refl input, Nat.le_refl _⟩

theorem mono (h : Takes least read) (hle : least' ≤ least) : Takes least' read :=
  fun _ _ _ hread => ⟨(h hread).1, Nat.le_trans (Nat.add_le_add_left hle _) (h hread).2⟩

/-- What is read next may depend on what was read first. -/
theorem bind (h : Takes least read) {next : α → List ι → Except ε (β × List ι)}
    (hnext : ∀ a, Takes least' (next a)) :
    Takes (least + least')
      (fun input => do
        let (a, input) ← read input
        next a input) := by
  intro input b rest hread
  -- an end of an end is an end, and the lengths add up
  obtain ⟨⟨a, mid⟩, ha, hb⟩ := Except.bind_eq_ok.mp hread
  obtain ⟨hsuffix, hlength⟩ := h ha
  obtain ⟨hsuffix', hlength'⟩ := hnext a hb
  exact ⟨hsuffix'.trans hsuffix, by omega⟩

theorem map (h : Takes least read) (f : α → β) :
    Takes least fun input => do
      let (a, input) ← read input
      return (f a, input) :=
  h.bind fun a => pure (f a)

theorem readPresent (h : Takes 0 read) (present : Bool) : Takes 0 (readPresent read present) := by
  cases present with
  | false => exact pure none
  | true => exact h.map some

/-- Each of the repetitions takes as much. -/
theorem repeated {decode : Decoder α} (h : Takes least decode) (count : Nat) :
    Takes (least * count) (Decoder.repeated decode count) := by
  induction count with
  | zero => exact pure []
  | succ count ih =>
    rw [Nat.mul_succ, Nat.add_comm]
    exact h.bind fun item => ih.map fun items => item :: items

end Takes

namespace Idle

variable {read : List ι → Except ε (α × List ι)}

/-- A reader that always takes something is never asked about nothing. -/
theorem of_takes (h : Takes 1 read) : Idle read := by
  intro input a rest hread hlength
  have hless := (h hread).2
  omega

theorem pure (a : α) : Idle fun input : List ι => (.ok (a, input) : Except ε (α × List ι)) := by
  intro input b rest hread _
  cases hread
  rfl

/-- Where nothing is taken in all, nothing is taken by either part. -/
theorem bind (h : Idle read) (htakes : Takes 0 read) {next : α → List ι → Except ε (β × List ι)}
    (hnext : ∀ a, Idle (next a)) (hnextTakes : ∀ a, Takes 0 (next a)) :
    Idle
      (fun input => do
        let (a, input) ← read input
        next a input) := by
  intro input b rest hread hlength
  obtain ⟨⟨a, mid⟩, ha, hb⟩ := Except.bind_eq_ok.mp hread
  have hmid := (htakes ha).2
  have hrest := (hnextTakes a hb).2
  -- nothing was left out on the way, so both read from nothing
  have hfirst : read [] = .ok (a, []) := h ha (by omega)
  have hsecond : next a [] = .ok (b, []) := hnext a hb (by omega)
  exact Except.bind_eq_ok.mpr ⟨(a, []), hfirst, hsecond⟩

theorem map (h : Idle read) (htakes : Takes 0 read) (f : α → β) :
    Idle fun input => do
      let (a, input) ← read input
      return (f a, input) :=
  h.bind htakes (fun a => pure (f a)) fun a => Takes.pure (f a)

/-- What cannot be read from nothing takes something. -/
theorem takes (h : Idle read) (htakes : Takes 0 read) (hnil : ∃ e, read [] = .error e) : Takes 1 read := by
  intro input a rest hread
  obtain ⟨hsuffix, hle⟩ := htakes hread
  -- were nothing taken, it could be read from nothing
  have hne : rest.length ≠ input.length := by
    intro hlength
    obtain ⟨e, he⟩ := hnil
    cases he.symm.trans (h hread hlength)
  exact ⟨hsuffix, by omega⟩

end Idle

namespace AgreeBelow

variable {first second : List ι → Except ε (α × List ι)}

theorem refl (n : Nat) (compute : List ι → γ) : AgreeBelow n compute compute :=
  fun _ _ => rfl

theorem zero (first second : List ι → γ) : AgreeBelow 0 first second :=
  fun _ hlength => absurd hlength (Nat.not_lt_zero _)

theorem mono {first second : List ι → γ} (h : AgreeBelow n first second) (hle : m ≤ n) :
    AgreeBelow m first second :=
  fun _ hlength => h (Nat.lt_of_lt_of_le hlength hle)

/-- Where the first parts take something, the second parts need to agree on less. -/
theorem bind (h : AgreeBelow m first second) (htakes : Takes least second)
    {next next' : α → List ι → Except ε (β × List ι)} (hnext : ∀ a, AgreeBelow n (next a) (next' a))
    (hle : m ≤ n + least) :
    AgreeBelow m
      (fun input => do
        let (a, input) ← first input
        next a input)
      (fun input => do
        let (a, input) ← second input
        next' a input) := by
  intro input hlength
  dsimp only
  rw [h hlength]
  -- if the first parts fail they fail alike, and what they leave is shorter
  cases hread : second input with
  | error e => rfl
  | ok r =>
    obtain ⟨a, rest⟩ := r
    have hrest := (htakes hread).2
    have hshort : rest.length < n := by omega
    exact hnext a hshort

/-- The same is made of the same values. -/
theorem map (h : AgreeBelow n first second) (f : α → β) :
    AgreeBelow n
      (fun input => do
        let (a, input) ← first input
        return (f a, input))
      (fun input => do
        let (a, input) ← second input
        return (f a, input)) := by
  intro input hlength
  dsimp only
  rw [h hlength]

theorem readPresent (h : AgreeBelow n first second) (present : Bool) :
    AgreeBelow n (readPresent first present) (readPresent second present) := by
  cases present with
  | false => exact refl n _
  | true => exact h.map some

theorem repeated {decode decode' : Decoder α} (h : AgreeBelow n decode decode') (htakes : Takes 0 decode')
    (count : Nat) : AgreeBelow n (Decoder.repeated decode count) (Decoder.repeated decode' count) := by
  induction count with
  | zero => exact refl n _
  | succ count ih =>
    exact h.bind htakes (fun item => ih.map fun items => item :: items) (Nat.le_refl _)

end AgreeBelow

end LedgerTx
