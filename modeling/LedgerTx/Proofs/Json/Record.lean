import LedgerTx.Intent.Json

namespace LedgerTx.Json

/-! # Records and numbers that were written

What a value is read as that was written, and what the fields of an object give. -/

variable {α β : Type} {name : String} {value : Json}

/-! ## Values -/

theorem asInt64?_toInt (v : Int64) : asInt64? (.integer v.toInt) = some v := by
  rw [asInt64?, if_pos ⟨v.minValue_le_toInt, v.toInt_le⟩, Int64.ofInt_toInt]

/-- A number of 64 bits is in the range that is read. -/
theorem asUInt64?_toNat (v : UInt64) : asUInt64? (.integer v.toNat) = some v := by
  have hlt : (v.toNat : Int) < UInt64.size := Int.ofNat_lt.mpr v.toNat_lt
  rw [asUInt64?, if_pos ⟨Int.natCast_nonneg _, hlt⟩, Int.toNat_natCast, UInt64.ofNat_toNat]

theorem asUInt64Text?_toNat (v : UInt64) : asUInt64Text? (.integer v.toNat) = some v :=
  asUInt64?_toNat v

theorem asUInt32?_toNat (v : UInt32) : asUInt32? (.integer v.toNat) = some v := by
  have hlt : (v.toNat : Int) < UInt32.size := Int.ofNat_lt.mpr v.toNat_lt
  rw [asUInt32?, if_pos ⟨Int.natCast_nonneg _, hlt⟩, Int.toNat_natCast, UInt32.ofNat_toNat]

/-- Texts are read back one by one. -/
theorem asList?_map_string (texts : List String) :
    asList? asString? (.array (texts.map .string)) = some texts := by
  show (texts.map Json.string).mapM asString? = some texts
  induction texts with
  | nil => rfl
  | cons text texts ih =>
    rw [List.map_cons, List.mapM_cons, ih]
    rfl

theorem orNull_of_ne_null {read : Json → Option α} (h : value ≠ .null) :
    orNull read value = (read value).map some := by
  cases value with
  | null => exact absurd rfl h
  | _ => rfl

/-- What may be missing is read back, if it is not written as null itself. -/
theorem orNull_ofOption {read : Json → Option α} {write : α → Json} (hwrite : ∀ a, write a ≠ .null)
    (hread : ∀ a, read (write a) = some a) (found : Option α) :
    orNull read (ofOption write found) = some found := by
  cases found with
  | none => rfl
  | some a => rw [ofOption, orNull_of_ne_null (hwrite a), hread, Option.map_some]

theorem orNull_ofOption_string (found : Option String) :
    orNull asString? (ofOption .string found) = some found := by
  have hwrite : ∀ s, Json.string s ≠ .null := by simp
  exact orNull_ofOption hwrite (fun _ => rfl) found

/-! ## Records -/

namespace RecordReader

variable {reader : RecordReader α} {read : Json → Option α} {a : α}

/-- A field is read from what the record gives next under its name. -/
theorem field_eq_some {fields rest : Fields} :
    field name read fields = some (a, rest) ↔
      ∃ value, fields.next name = (some value, rest) ∧ read value = some a := by
  unfold field
  rcases fields.next name with ⟨_ | value, after⟩
  · simp
  · constructor
    · intro h
      rcases Option.map_eq_some_iff.mp h with ⟨b, hb, heq⟩
      cases heq
      exact ⟨value, rfl, hb⟩
    · rintro ⟨_, heq, hread⟩
      cases heq
      exact Option.map_eq_some_iff.mpr ⟨a, hread, rfl⟩

/-- If the record has no such field, the default is taken. -/
theorem fieldOr_eq_some {default : α} {fields rest : Fields} :
    fieldOr default name read fields = some (a, rest) ↔
      (∃ value, fields.next name = (some value, rest) ∧ read value = some a) ∨
        fields.next name = (none, rest) ∧ default = a := by
  rcases hnext : fields.next name with ⟨_ | value, after⟩
  · simp [fieldOr, hnext, and_comm]
  · have hfield : field name read fields = some (a, rest) ↔ _ := field_eq_some
    simpa [fieldOr, field, hnext] using hfield

/-- What a reader gives for the fields of an object. -/
def Gives (reader : RecordReader α) (fields : List (String × Json)) (a : α) : Prop :=
  reader (.named fields) = some (a, .named fields)

variable {fields : List (String × Json)}

theorem gives_pure (a : α) : Gives (pure a) fields a :=
  rfl

/-- One field after another, each from all the fields of the object. -/
theorem Gives.bind {next : α → RecordReader β} {b : β} (h : Gives reader fields a)
    (hnext : Gives (next a) fields b) : Gives (reader >>= next) fields b :=
  Option.bind_eq_some_iff.mpr ⟨_, h, hnext⟩

theorem gives_field (hvalue : fields.lookup name = some value) (hread : read value = some a) :
    Gives (field name read) fields a :=
  field_eq_some.mpr ⟨value, by rw [Fields.next, hvalue], hread⟩

/-- Where there is a value, no default is taken. -/
theorem gives_fieldOr {default : α} (hvalue : fields.lookup name = some value)
    (hread : read value = some a) : Gives (fieldOr default name read) fields a :=
  fieldOr_eq_some.mpr (.inl ⟨value, by rw [Fields.next, hvalue], hread⟩)

/-- An object may hold more fields than are read, so nothing is left over. -/
theorem Gives.readAll (h : Gives reader fields a) : reader.readAll (.named fields) = some a := by
  rw [RecordReader.readAll, h]
  rfl

/-- What the fields give is what the object is read as. -/
theorem Gives.ofJson? (h : Gives reader fields a) : reader.ofJson? (.object fields) = some a :=
  h.readAll

end RecordReader

end LedgerTx.Json
