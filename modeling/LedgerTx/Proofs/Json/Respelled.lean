import Mathlib.Data.List.Forall2
import LedgerTx.Proofs.Json.Record
import LedgerTx.Proofs.Json.Text

namespace LedgerTx.Json

/-! # Numbers respelled as text

In a few fields a number may also stand as its text in decimal.  Here is the relation between a value and
the same value with some of these numbers as text, and what a reading has to do to give the same for
both. -/

/-- The fields in which a number may stand as text. -/
def textFields : List String := ["bumpTo", "sequenceNumber", "value"]

mutual

/-- The second value is the first but for numbers that stand as text, however deep inside it. -/
inductive Respelled : Json → Json → Prop
  | same (value : Json) : Respelled value value
  | array {items others : List Json} (h : List.Forall₂ Respelled items others) :
      Respelled (.array items) (.array others)
  | object {fields others : List (String × Json)} (h : List.Forall₂ RespelledField fields others) :
      Respelled (.object fields) (.object others)

/-- The names agree, and the second value is the first but for respelled numbers. -/
inductive RespelledField : String × Json → String × Json → Prop
  | number {name : String} (hname : name ∈ textFields) (i : Int) :
      RespelledField (name, .integer i) (name, .string (String.ofList (Decimal.ofInt i)))
  | value {name : String} {value other : Json} (h : Respelled value other) :
      RespelledField (name, value) (name, other)

end

/-- The same of the fields of two records that are still to be read. -/
inductive RespelledRest : Fields → Fields → Prop
  | named {fields others : List (String × Json)} (h : List.Forall₂ RespelledField fields others) :
      RespelledRest (.named fields) (.named others)
  | listed {items others : List Json} (h : List.Forall₂ Respelled items others) :
      RespelledRest (.listed items) (.listed others)

variable {α β : Type} {name : String} {value other : Json}

/-! ## Values and fields -/

theorem forall₂_same (items : List Json) : List.Forall₂ Respelled items items :=
  List.forall₂_same.mpr fun item _ => .same item

theorem forall₂_sameField (fields : List (String × Json)) :
    List.Forall₂ RespelledField fields fields :=
  List.forall₂_same.mpr fun field _ => .value (.same field.2)

/-- An array is respelled item by item. -/
theorem Respelled.items {items : List Json} (h : Respelled (.array items) other) :
    ∃ others, other = .array others ∧ List.Forall₂ Respelled items others := by
  cases h with
  | same => exact ⟨items, rfl, forall₂_same items⟩
  | array h => exact ⟨_, rfl, h⟩

/-- An object is respelled field by field. -/
theorem Respelled.fields {fields : List (String × Json)} (h : Respelled (.object fields) other) :
    ∃ others, other = .object others ∧ List.Forall₂ RespelledField fields others := by
  cases h with
  | same => exact ⟨fields, rfl, forall₂_sameField fields⟩
  | object h => exact ⟨_, rfl, h⟩

/-- Names are never respelled. -/
theorem names_respelled {fields others : List (String × Json)}
    (h : List.Forall₂ RespelledField fields others) : others.map (·.1) = fields.map (·.1) := by
  induction h with
  | nil => rfl
  | cons hfield _ ih => cases hfield <;> rw [List.map_cons, List.map_cons, ih]

/-- A text for a number can be spelled as the number can. -/
theorem Respelled.writable {value other : Json} (h : Respelled value other)
    (hvalue : Writable value) : Writable other := by
  induction hvalue generalizing other with
  | array hitems ih =>
    rcases h.items with ⟨others, rfl, hothers⟩
    refine .array ?_
    clear h hitems
    induction hothers with
    | nil => simp
    | cons hitem _ ihothers =>
      rw [List.forall_mem_cons] at ih ⊢
      exact ⟨ih.1 hitem, ihothers ih.2⟩
  | object hnames hfields ih =>
    rcases h.fields with ⟨others, rfl, hothers⟩
    refine .object (names_respelled hothers ▸ hnames) ?_
    clear h hnames hfields
    induction hothers with
    | nil => simp
    | cons hfield _ ihothers =>
      rw [List.forall_mem_cons] at ih ⊢
      refine ⟨?_, ihothers ih.2⟩
      cases hfield with
      | number => exact .string _
      | value hvalue => exact ih.1 hvalue
  -- a number outside of a field, and what holds no fields, stays the same
  | null =>
    cases h
    exact .null
  | bool b =>
    cases h
    exact .bool b
  | integer hmin hmax =>
    cases h
    exact .integer hmin hmax
  | fraction hne hnumber hkept =>
    cases h
    exact .fraction hne hnumber hkept
  | string s =>
    cases h
    exact .string s

/-- A field is found in both or in none. -/
theorem lookup_respelled {fields others : List (String × Json)} (name : String)
    (h : List.Forall₂ RespelledField fields others) :
    Option.Rel (fun value other => RespelledField (name, value) (name, other))
      (fields.lookup name) (others.lookup name) := by
  induction h with
  | nil => exact .none
  | cons hfield _ ih =>
    have hfound := hfield
    cases hfield <;>
    · rw [List.lookup_cons, List.lookup_cons]
      split
      · rename_i hname
        cases eq_of_beq hname
        exact .some hfound
      · exact ih

/-- A field that is found in the first is found in the second, respelled. -/
theorem exists_lookup_respelled {fields others : List (String × Json)}
    (h : List.Forall₂ RespelledField fields others) (hvalue : fields.lookup name = some value) :
    ∃ other, others.lookup name = some other ∧ RespelledField (name, value) (name, other) := by
  have hfound := lookup_respelled name h
  rw [hvalue] at hfound
  revert hfound
  cases others.lookup name with
  | none => exact fun hfound => nomatch hfound
  | some other =>
    rintro (hfield | _)
    exact ⟨other, rfl, hfield⟩

/-! ## Readings that respelling leaves alone -/

/-- A reading of a field's value gives the same when the value is respelled. -/
def Tolerant (name : String) (read : Json → Option α) : Prop :=
  ∀ ⦃value other : Json⦄ ⦃a : α⦄, RespelledField (name, value) (name, other) →
    read value = some a → read other = some a

/-- A reading that takes neither arrays nor objects has to give the same for a number and its text. -/
theorem tolerant_of_flat {read : Json → Option α} (harray : ∀ items, read (.array items) = none)
    (hobject : ∀ fields, read (.object fields) = none)
    (hnumber : name ∈ textFields → ∀ i a, read (.integer i) = some a →
      read (.string (String.ofList (Decimal.ofInt i))) = some a) : Tolerant name read := by
  intro value other a hfield hread
  cases hfield with
  | number hname i => exact hnumber hname i a hread
  | value h =>
    cases h with
    | same => exact hread
    | array =>
      rw [harray] at hread
      cases hread
    | object =>
      rw [hobject] at hread
      cases hread

/-- A text is no number that could be respelled. -/
theorem tolerant_asString? : Tolerant name asString? :=
  tolerant_of_flat (fun _ => rfl) (fun _ => rfl) fun _ _ _ hread => nomatch hread

/-- Signed numbers are also read from their text. -/
theorem tolerant_asInt64? : Tolerant name asInt64? := by
  refine tolerant_of_flat (fun _ => rfl) (fun _ => rfl) fun _ i v hread => ?_
  simp only [asInt64?, Option.ite_none_right_eq_some, Option.some_inj] at hread
  rcases hread with ⟨⟨hmin, hmax⟩, rfl⟩
  -- the number is in range, so its text is that of the number that is read
  have hi : (Int64.ofInt i).toInt = i := Int64.toInt_ofInt_of_le hmin (Int.lt_add_one_of_le hmax)
  have htext := Decimal.int64?_ofInt (Int64.ofInt i)
  rw [hi] at htext
  simpa only [asInt64?, String.toList_ofList] using htext

/-- Numbers without a sign are read from their text where this is allowed. -/
theorem tolerant_asUInt64Text? : Tolerant name asUInt64Text? := by
  refine tolerant_of_flat (fun _ => rfl) (fun _ => rfl) fun _ i v hread => ?_
  simp only [asUInt64Text?, asUInt64?, Option.ite_none_right_eq_some, Option.some_inj] at hread
  rcases hread with ⟨⟨hmin, hmax⟩, rfl⟩
  have hi : (UInt64.ofNat i.toNat).toNat = i.toNat :=
    UInt64.toNat_ofNat_of_lt' (by omega)
  have htext := Decimal.uint64?_ofNat (UInt64.ofNat i.toNat)
  rw [hi] at htext
  -- without a sign, the text is that of the natural number
  have hsign : Decimal.ofInt i = Decimal.ofNat i.toNat := by
    rw [Decimal.ofInt, if_neg (by omega), show i.natAbs = i.toNat by omega]
  simpa only [asUInt64Text?, String.toList_ofList, hsign] using htext

theorem tolerant_asUInt64? (hname : name ∉ textFields) : Tolerant name asUInt64? :=
  tolerant_of_flat (fun _ => rfl) (fun _ => rfl) fun h => absurd h hname

theorem tolerant_asUInt32? (hname : name ∉ textFields) : Tolerant name asUInt32? :=
  tolerant_of_flat (fun _ => rfl) (fun _ => rfl) fun h => absurd h hname

/-- Where no number may stand as text, only what is inside the value is respelled. -/
theorem tolerant_of_respelled {read : Json → Option α} (hname : name ∉ textFields)
    (h : ∀ ⦃value other : Json⦄ ⦃a : α⦄, Respelled value other → read value = some a →
      read other = some a) : Tolerant name read := by
  intro value other a hfield hread
  cases hfield with
  | number hmem => exact absurd hmem hname
  | value hvalue => exact h hvalue hread

/-- Null is neither a number nor respelled as anything else. -/
theorem Tolerant.orNull {read : Json → Option α} (h : Tolerant name read) :
    Tolerant name (orNull read) := by
  intro value other found hfield hread
  -- null is null in both, and nothing else becomes null
  by_cases hnull : value = .null
  · subst hnull
    cases hfield with
    | value hsame =>
      cases hsame
      exact hread
  · have hother : other ≠ .null := by
      rintro rfl
      cases hfield with
      | value hsame =>
        cases hsame
        exact hnull rfl
    rw [orNull_of_ne_null hnull, Option.map_eq_some_iff] at hread
    rcases hread with ⟨a, hread, rfl⟩
    rw [orNull_of_ne_null hother, h hfield hread, Option.map_some]

/-- A list is read item by item. -/
theorem Tolerant.asList? {read : Json → Option α} (h : Tolerant name read) :
    Tolerant name (asList? read) := by
  intro value other found hfield hread
  cases hfield with
  | number => cases hread
  | value hvalue =>
    cases hvalue with
    | same => exact hread
    | object => cases hread
    | array hitems =>
      show List.mapM read _ = some found
      replace hread : List.mapM read _ = some found := hread
      induction hitems generalizing found with
      | nil => exact hread
      | cons hitem _ ih =>
        rw [List.mapM_cons] at hread ⊢
        simp only [Option.bind_eq_bind, Option.bind_eq_some_iff] at hread ⊢
        rcases hread with ⟨a, ha, rest, hrest, hfound⟩
        exact ⟨a, h (.value hitem) ha, rest, ih hrest, hfound⟩

/-! ## Records -/

/-- A reader of some fields of a record gives the same when the fields are respelled. -/
def RecordReader.Tolerant (reader : RecordReader α) : Prop :=
  ∀ ⦃fields others rest : Fields⦄ ⦃a : α⦄, RespelledRest fields others →
    reader fields = some (a, rest) →
    ∃ otherRest, reader others = some (a, otherRest) ∧ RespelledRest rest otherRest

namespace RecordReader

variable {reader : RecordReader α} {read : Json → Option α}

theorem tolerant_pure (a : α) : Tolerant (pure a : RecordReader α) := by
  intro fields others rest b h hread
  cases hread
  exact ⟨others, rfl, h⟩

/-- One field after another, from what the first one leaves. -/
theorem Tolerant.bind {next : α → RecordReader β} (h : Tolerant reader)
    (hnext : ∀ a, Tolerant (next a)) : Tolerant (reader >>= next) := by
  intro fields others rest b hfields hread
  rcases Option.bind_eq_some_iff.mp hread with ⟨⟨a, middle⟩, hfirst, hsecond⟩
  rcases h hfields hfirst with ⟨otherMiddle, hotherFirst, hmiddle⟩
  rcases hnext a hmiddle hsecond with ⟨otherRest, hotherSecond, hrest⟩
  exact ⟨otherRest, Option.bind_eq_some_iff.mpr ⟨_, hotherFirst, hotherSecond⟩, hrest⟩

end RecordReader

/-- The next field is in both or in neither. -/
theorem RespelledRest.next {fields others rest : Fields} {found : Option Json}
    (h : RespelledRest fields others) (hnext : fields.next name = (found, rest)) :
    ∃ otherFound otherRest, others.next name = (otherFound, otherRest) ∧
      Option.Rel (fun value other => RespelledField (name, value) (name, other)) found otherFound ∧
      RespelledRest rest otherRest := by
  cases h with
  | named h =>
    cases hnext
    exact ⟨_, _, rfl, lookup_respelled name h, .named h⟩
  | listed h =>
    cases h with
    | nil =>
      cases hnext
      exact ⟨_, _, rfl, .none, .listed .nil⟩
    | cons hitem hitems =>
      cases hnext
      exact ⟨_, _, rfl, .some (.value hitem), .listed hitems⟩

/-- As many values are left in both. -/
theorem RespelledRest.isDone_eq {fields others : Fields} (h : RespelledRest fields others) :
    fields.isDone = others.isDone := by
  cases h with
  | named => rfl
  | listed h => cases h <;> rfl

namespace RecordReader

variable {reader : RecordReader α} {read : Json → Option α}

/-- A field is tolerant if its value is. -/
theorem tolerant_field (h : Json.Tolerant name read) : Tolerant (field name read) := by
  intro fields others rest a hfields hread
  rcases field_eq_some.mp hread with ⟨value, hnext, hvalue⟩
  rcases hfields.next hnext with ⟨_, otherRest, hother, hfound, hrest⟩
  cases hfound with
  | some hfield => exact ⟨otherRest, field_eq_some.mpr ⟨_, hother, h hfield hvalue⟩, hrest⟩

/-- The default is taken for both or for neither. -/
theorem tolerant_fieldOr {default : α} (h : Json.Tolerant name read) :
    Tolerant (fieldOr default name read) := by
  intro fields others rest a hfields hread
  rcases fieldOr_eq_some.mp hread with ⟨value, hnext, hvalue⟩ | ⟨hnext, rfl⟩
  · rcases hfields.next hnext with ⟨_, otherRest, hother, hfound, hrest⟩
    cases hfound with
    | some hfield =>
      exact ⟨otherRest, fieldOr_eq_some.mpr (.inl ⟨_, hother, h hfield hvalue⟩), hrest⟩
  · rcases hfields.next hnext with ⟨_, otherRest, hother, hfound, hrest⟩
    cases hfound
    exact ⟨otherRest, fieldOr_eq_some.mpr (.inr ⟨hother, rfl⟩), hrest⟩

/-- Nothing is left over of the second if nothing is of the first. -/
theorem Tolerant.readAll {fields others : Fields} {a : α} (h : Tolerant reader)
    (hfields : RespelledRest fields others) (hread : reader.readAll fields = some a) :
    reader.readAll others = some a := by
  unfold RecordReader.readAll at hread ⊢
  split at hread
  · rename_i b rest hfirst
    rcases h hfields hfirst with ⟨otherRest, hother, hrest⟩
    rw [hother]
    rw [hrest.isDone_eq] at hread
    exact hread
  · cases hread

/-- A record is read the same when its value is respelled. -/
theorem Tolerant.ofJson? {a : α} (h : Tolerant reader) (hvalue : Respelled value other)
    (hread : reader.ofJson? value = some a) : reader.ofJson? other = some a := by
  cases hvalue with
  | same => exact hread
  | array hitems => exact h.readAll (.listed hitems) hread
  | object hfields => exact h.readAll (.named hfields) hread

end RecordReader

end LedgerTx.Json
