import LedgerTx.Layout.Scalar
import LedgerTx.Proofs.Listing.Path

namespace LedgerTx.Listing

/-! # Telling paths apart

Names are plain identifiers, so the steps of a path can be read off its text.  Two paths clash if they are
the same, or if one is that of the tag of a union at the other: a reader that finds a tag where a value
could stand takes the value to be in parts. -/

/-! ## Paths from their text -/

/-- Whether a step can be told from its text. -/
def Step.Proper : Step → Prop
  | .field name => Form.isPlain name.toList = true
  | .item _ => True

/-- A path of which every step can be told from its text. -/
def Path.Proper (path : Path) : Prop :=
  ∀ step ∈ path.steps, step.Proper

/-- Whether a character may stand in a plain identifier. -/
def isNameChar (c : Char) : Bool :=
  c.isAlphanum || c == '_'

/-- A plain identifier has a first character, and all of them may stand in a name. -/
theorem Step.Proper.exists_cons {name : String} (h : (Step.field name).Proper) :
    ∃ c rest, name.toList = c :: rest ∧ ∀ d ∈ name.toList, isNameChar d = true := by
  obtain ⟨hne, hall⟩ := Bool.and_eq_true_iff.mp h
  cases hname : name.toList with
  | nil =>
    rw [hname] at hne
    cases hne
  | cons c rest =>
    rw [hname] at hall
    exact ⟨c, rest, rfl, List.all_eq_true.mp hall⟩

namespace Path

theorem Proper.root : root.Proper := by
  intro step hstep
  cases hstep

/-- A plain identifier may follow. -/
theorem Proper.field {path : Path} (h : path.Proper) {name : String}
    (hname : Form.isPlain name.toList = true) : (path.field name).Proper := by
  intro step hstep
  rcases List.mem_append.mp hstep with hold | hnew
  · exact h step hold
  · rw [List.mem_singleton.mp hnew]
    exact hname

/-- An index may follow. -/
theorem Proper.item {path : Path} (h : path.Proper) (index : Nat) : (path.item index).Proper := by
  intro step hstep
  rcases List.mem_append.mp hstep with hold | hnew
  · exact h step hold
  · rw [List.mem_singleton.mp hnew]
    exact trivial

/-- The text of further steps begins with a point or a bracket. -/
theorem isNameChar_head (steps : List Step) :
    ∀ c ∈ (steps.flatMap stepText).head?, isNameChar c = false := by
  intro c hc
  cases steps with
  | nil => cases hc
  | cons step steps =>
    cases step with
    | field name =>
      cases hc
      decide
    | item index =>
      cases hc
      decide

/-- The digits of an index end at the bracket. -/
theorem isDigit_bracket (rest : List Char) : ∀ c ∈ (']' :: rest).head?, c.isDigit = false := by
  intro c hc
  cases hc
  decide

/-- The first step is told from its text, whatever steps follow. -/
theorem stepText_append_inj {step other : Step} {steps others : List Step} (hstep : step.Proper)
    (hother : other.Proper)
    (h : stepText step ++ steps.flatMap stepText = stepText other ++ others.flatMap stepText) :
    step = other ∧ steps.flatMap stepText = others.flatMap stepText := by
  cases step with
  | field name =>
    cases other with
    | item index => cases h
    | field name' =>
      obtain ⟨-, -, -, hname⟩ := hstep.exists_cons
      obtain ⟨-, -, -, hname'⟩ := hother.exists_cons
      have htail : name.toList ++ steps.flatMap stepText = name'.toList ++ others.flatMap stepText :=
        (List.cons.inj h).2
      -- the name ends where the next step begins
      have hspan := span_append hname (isNameChar_head steps)
      have hspan' := span_append hname' (isNameChar_head others)
      rw [htail] at hspan
      obtain ⟨hsame, hrest⟩ := Prod.mk.inj (hspan.symm.trans hspan')
      exact ⟨congrArg Step.field (String.toList_inj.mp hsame), hrest⟩
  | item index =>
    cases other with
    | field name => cases h
    | item index' =>
      have hdigits : ∀ n, ∀ c ∈ Decimal.ofNat n, Char.isDigit c = true :=
        fun _ _ hc => Decimal.isDigit_of_mem_ofNat hc
      have htail : (Decimal.ofNat index ++ [']']) ++ steps.flatMap stepText
          = (Decimal.ofNat index' ++ [']']) ++ others.flatMap stepText := (List.cons.inj h).2
      -- the index ends where the bracket stands
      have hspan := span_append (hdigits index) (isDigit_bracket (steps.flatMap stepText))
      have hspan' := span_append (hdigits index') (isDigit_bracket (others.flatMap stepText))
      rw [List.append_assoc, List.append_assoc, List.singleton_append, List.singleton_append] at htail
      rw [htail] at hspan
      obtain ⟨hsame, hrest⟩ := Prod.mk.inj (hspan.symm.trans hspan')
      have hindex := congrArg Decimal.digits? hsame
      rw [Decimal.digits?_ofNat, Decimal.digits?_ofNat] at hindex
      exact ⟨congrArg Step.item (Option.some.inj hindex), (List.cons.inj hrest).2⟩

/-- The steps of a path are told from their texts put together, one step after the other. -/
theorem flatMap_stepText_inj {steps others : List Step} (hsteps : ∀ step ∈ steps, step.Proper)
    (hothers : ∀ step ∈ others, step.Proper)
    (h : steps.flatMap stepText = others.flatMap stepText) : steps = others := by
  have hne : ∀ step : Step, stepText step ≠ [] := by
    intro step
    cases step with
    | field name => exact List.cons_ne_nil _ _
    | item index => exact List.cons_ne_nil _ _
  induction steps generalizing others with
  | nil =>
    cases others with
    | nil => rfl
    | cons other others => exact absurd (List.append_eq_nil_iff.mp h.symm).1 (hne other)
  | cons step steps ih =>
    cases others with
    | nil => exact absurd (List.append_eq_nil_iff.mp h).1 (hne step)
    | cons other others =>
      obtain ⟨hstep, hsteps⟩ := List.forall_mem_cons.mp hsteps
      obtain ⟨hother, hothers⟩ := List.forall_mem_cons.mp hothers
      rw [List.flatMap_cons, List.flatMap_cons] at h
      obtain ⟨hfirst, hrest⟩ := stepText_append_inj hstep hother h
      rw [hfirst, ih hsteps hothers hrest]

/-- The point before the first name is known, although it is not written. -/
theorem flatMap_stepText_eq {path : Path} (h : path.Proper) :
    path.steps.flatMap stepText
      = if path.text.head?.any isNameChar then '.' :: path.text else path.text := by
  rcases path with ⟨_ | ⟨step, steps⟩⟩
  · rfl
  · cases step with
    | field name =>
      obtain ⟨c, rest, hname, hall⟩ := Step.Proper.exists_cons (h _ (List.mem_cons_self ..))
      have htext : (Path.mk (.field name :: steps)).text = name.toList ++ steps.flatMap stepText := rfl
      have hhead : (Path.mk (.field name :: steps)).text.head?.any isNameChar = true := by
        rw [htext, hname]
        exact hall c (hname ▸ List.mem_cons_self ..)
      rw [if_pos hhead, htext]
      rfl
    | item index => rfl

/-- A path is told from its text. -/
theorem text_inj {path other : Path} (hpath : path.Proper) (hother : other.Proper)
    (h : path.text = other.text) : path = other := by
  -- the point that the text leaves out in front is put back first
  have hsteps : path.steps.flatMap stepText = other.steps.flatMap stepText := by
    rw [flatMap_stepText_eq hpath, flatMap_stepText_eq hother, h]
  exact congrArg Path.mk (flatMap_stepText_inj hpath hother hsteps)

end Path

/-! ## Clashes -/

/-- Whether two paths are the same, or one is that of the tag of a union at the other. -/
def Clash (steps others : List Step) : Prop :=
  steps = others ∨ others = steps ++ [.field "type"] ∨ steps = others ++ [.field "type"]

theorem Clash.symm {steps others : List Step} (h : Clash steps others) : Clash others steps := by
  rcases h with heq | htag | htag
  · exact Or.inl heq.symm
  · exact Or.inr (Or.inr htag)
  · exact Or.inr (Or.inl htag)

/-- What two paths have in common in front has no part in a clash. -/
theorem clash_append_iff {front steps others : List Step} :
    Clash (front ++ steps) (front ++ others) ↔ Clash steps others := by
  unfold Clash
  rw [List.append_assoc, List.append_assoc, List.append_cancel_left_eq, List.append_cancel_left_eq,
    List.append_cancel_left_eq]

/-- Paths clash only if they begin with the same step, or one is empty. -/
theorem Clash.head_eq {step other : Step} {steps others : List Step}
    (h : Clash (step :: steps) (other :: others)) : step = other := by
  rcases h with heq | htag | htag
  · exact (List.cons.inj heq).1
  · exact (List.cons.inj htag).1.symm
  · exact (List.cons.inj htag).1

/-- Where a line stands, as seen from the path of the value that it belongs to. -/
inductive Place where
  | itself
  | part (name : String)
  | item
deriving DecidableEq

namespace Place

/-- The place of a path that goes on by the given steps. -/
def of : List Step → Place
  | [] => .itself
  | .field name :: _ => .part name
  | .item _ :: _ => .item

/-- Whether no line at the one place clashes with one at the other. -/
def Apart (place other : Place) : Prop :=
  place ≠ other ∧ ¬(place = .itself ∧ other = .part "type") ∧ ¬(other = .itself ∧ place = .part "type")

instance (place other : Place) : Decidable (place.Apart other) := by
  unfold Apart
  infer_instance

/-- Parts with different names are apart. -/
theorem apart_part {name other : String} (h : name ≠ other) : (part name).Apart (.part other) := by
  refine ⟨fun heq => h (part.inj heq), fun hpath => ?_, fun hpath => ?_⟩
  · cases hpath.1
  · cases hpath.1

/-- Lines at places that are apart do not clash, whatever steps follow. -/
theorem Apart.not_clash {steps others : List Step} (h : (Place.of steps).Apart (.of others)) :
    ¬Clash steps others := by
  obtain ⟨hne, hpath, hother⟩ := h
  intro hclash
  cases steps with
  | nil =>
    rcases hclash with rfl | rfl | htag
    · exact hne rfl
    · exact hpath ⟨rfl, rfl⟩
    · exact List.append_ne_nil_of_right_ne_nil _ (List.cons_ne_nil _ _) htag.symm
  | cons step steps =>
    cases others with
    | nil =>
      rcases hclash with heq | htag | htag
      · cases heq
      · cases htag
      · obtain ⟨rfl, -⟩ := List.cons.inj htag
        exact hother ⟨rfl, rfl⟩
    | cons other others =>
      -- both go on by the same step, which is at one place
      obtain rfl := hclash.head_eq
      cases step with
      | field name => exact hne rfl
      | item index => exact hne rfl

end Place

end LedgerTx.Listing
