import LedgerTx.Proofs.Json.Respelled

namespace LedgerTx

/-! # Intents and contexts read back from JSON

What is written is read as it was.  A value that is read as an intent or a context, written by one or
not, is still read as the same when numbers in it are respelled as text. -/

open Json

/-! ## Actions -/

namespace Action

open RecordReader

/-- The kind of an action. -/
def kind : Action → ActionKind
  | .payment .. => .payment
  | .createAccount .. => .createAccount
  | .changeTrust .. => .changeTrust
  | .manageData .. => .manageData
  | .accountMerge .. => .accountMerge
  | .bumpSequence .. => .bumpSequence
  | .invokeContract .. => .invokeContract

/-- The fields name the kind, inside a batch and outside. -/
theorem tag?_toFields (inBatch : Bool) (a : Action) :
    (a.toFields.lookup "type").bind (Intent.tag? inBatch) = some (.action a.kind) := by
  cases a <;> rfl

/-- The fields after the tag give the action back. -/
theorem gives_toFields (a : Action) : (reader a.kind).Gives a.toFields a := by
  cases a with
  | payment =>
    exact .bind (gives_field rfl rfl) (.bind (gives_field rfl rfl)
      (.bind (gives_field rfl rfl) (gives_pure _)))
  | createAccount =>
    exact .bind (gives_field rfl rfl) (.bind (gives_field rfl rfl) (gives_pure _))
  | changeTrust asset limit =>
    -- a limit that is missing is written as null
    have hlimit := orNull_ofOption_string limit
    exact .bind (gives_field rfl rfl) (.bind (gives_fieldOr rfl hlimit) (gives_pure _))
  | manageData name value =>
    have hvalue := orNull_ofOption_string value
    exact .bind (gives_field rfl rfl) (.bind (gives_fieldOr rfl hvalue) (gives_pure _))
  | accountMerge =>
    exact .bind (gives_field rfl rfl) (gives_pure _)
  | bumpSequence bumpTo =>
    exact .bind (gives_field rfl (asInt64?_toInt bumpTo)) (gives_pure _)
  | invokeContract contract function args =>
    have hargs := asList?_map_string args
    exact .bind (gives_field rfl rfl) (.bind (gives_field rfl rfl)
      (.bind (gives_fieldOr rfl hargs) (gives_pure _)))

/-- Of all the fields of actions, one number may stand as text, and it is read from either. -/
theorem tolerant_reader (kind : ActionKind) : (reader kind).Tolerant := by
  have htext {name : String} : (field name asString?).Tolerant := tolerant_field tolerant_asString?
  have hoptional {name : String} : (fieldOr none name (orNull asString?)).Tolerant :=
    tolerant_fieldOr tolerant_asString?.orNull
  cases kind with
  | payment => exact .bind htext fun _ => .bind htext fun _ => .bind htext fun _ => tolerant_pure _
  | createAccount => exact .bind htext fun _ => .bind htext fun _ => tolerant_pure _
  | changeTrust => exact .bind htext fun _ => .bind hoptional fun _ => tolerant_pure _
  | manageData => exact .bind htext fun _ => .bind hoptional fun _ => tolerant_pure _
  | accountMerge => exact .bind htext fun _ => tolerant_pure _
  | bumpSequence => exact .bind (tolerant_field tolerant_asInt64?) fun _ => tolerant_pure _
  | invokeContract =>
    have hargs : (fieldOr [] "args" (asList? asString?)).Tolerant :=
      tolerant_fieldOr tolerant_asString?.asList?
    exact .bind htext fun _ => .bind htext fun _ => .bind hargs fun _ => tolerant_pure _

end Action

/-! ## Intents -/

namespace Intent

variable {inBatch : Bool} {tag : Tag} {intent : Intent}

/-- The intent of a tag, from the fields after the tag and the parts that they hold for a batch. -/
def ofTag? (tag : Tag) (fields : Fields) (parts : Option (List Intent)) : Option Intent :=
  match tag with
  | .action kind => ((Action.reader kind).readAll fields).map .action
  | .batch => parts.map .batch

/-- In an object, the tag is the field of that name. -/
theorem read?_object (inBatch : Bool) (fields : List (String × Json)) :
    read? inBatch (.object fields) = ((fields.lookup "type").bind (tag? inBatch)).bind fun tag =>
      ofTag? tag (.named fields) (partsOfFields? fields) := by
  rw [read?, Option.bind_eq_bind]
  congr 1
  funext tag
  cases tag with
  | action kind => exact (Option.map_eq_bind ..).symm
  | batch => exact (Option.map_eq_bind ..).symm

/-- In an array, the tag comes first. -/
theorem read?_array (inBatch : Bool) (tag : Json) (items : List Json) :
    read? inBatch (.array (tag :: items)) = (tag? inBatch tag).bind fun tag =>
      ofTag? tag (.listed items) (onlyPartsOf? items) := by
  rw [read?, Option.bind_eq_bind]
  congr 1
  funext tag
  cases tag with
  | action kind => exact (Option.map_eq_bind ..).symm
  | batch => exact (Option.map_eq_bind ..).symm

mutual

/-- An intent is read back, inside a batch or outside. -/
theorem read?_toJson (inBatch : Bool) (intent : Intent) : read? inBatch intent.toJson = some intent := by
  cases intent with
  | action a =>
    rw [toJson, read?_object, Action.tag?_toFields, Option.bind_some, ofTag?,
      a.gives_toFields.readAll, Option.map_some]
  | batch parts =>
    have htag : ([("type", .string "batch"), ("operations", .array (toJsonAll parts))].lookup
        "type").bind (tag? inBatch) = some .batch := rfl
    have hparts : partsOfFields? [("type", .string "batch"), ("operations", .array (toJsonAll parts))]
        = readAll? (toJsonAll parts) := rfl
    rw [toJson, read?_object, htag, Option.bind_some, ofTag?, hparts, readAll?_toJsonAll,
      Option.map_some]

/-- The parts of a batch are read back in order. -/
theorem readAll?_toJsonAll (parts : List Intent) : readAll? (toJsonAll parts) = some parts := by
  cases parts with
  | nil => rfl
  | cons part parts =>
    rw [toJsonAll, readAll?, read?_toJson, readAll?_toJsonAll]
    rfl

end

/-- A tag is a text, so it is never respelled. -/
theorem tolerant_tag? : Tolerant "type" (tag? inBatch) :=
  tolerant_of_flat (fun _ => rfl) (fun _ => rfl) fun h => absurd h (by decide)

/-- Once the tag is known, the fields and the parts may be respelled. -/
theorem ofTag?_respelled {fields others : Fields} {found otherFound : Option (List Intent)}
    (hfields : RespelledRest fields others)
    (hparts : ∀ parts, found = some parts → otherFound = some parts)
    (hread : ofTag? tag fields found = some intent) : ofTag? tag others otherFound = some intent := by
  cases tag with
  | action kind =>
    rcases Option.map_eq_some_iff.mp hread with ⟨a, ha, rfl⟩
    exact Option.map_eq_some_iff.mpr ⟨a, (Action.tolerant_reader kind).readAll hfields ha, rfl⟩
  | batch =>
    rcases Option.map_eq_some_iff.mp hread with ⟨parts, hfound, rfl⟩
    exact Option.map_eq_some_iff.mpr ⟨parts, hparts parts hfound, rfl⟩

mutual

/-- An intent that was read is read again when numbers are respelled, along the batches that it nests. -/
theorem read?_respelled {inBatch : Bool} {value other : Json} {intent : Intent}
    (h : Respelled value other) (hread : read? inBatch value = some intent) :
    read? inBatch other = some intent := by
  cases h with
  | same => exact hread
  | array hitems =>
    -- an array begins with the tag, or is no intent in either case
    cases hitems with
    | nil => exact hread
    | cons htag hitems =>
      rw [read?_array] at hread ⊢
      rcases Option.bind_eq_some_iff.mp hread with ⟨tag, hfound, hread⟩
      refine Option.bind_eq_some_iff.mpr ⟨tag, tolerant_tag? (.value htag) hfound, ?_⟩
      exact ofTag?_respelled (.listed hitems) (fun _ => onlyPartsOf?_respelled hitems) hread
  | object hfields =>
    -- an object has its tag in a field, which is found in both
    rw [read?_object] at hread ⊢
    rcases Option.bind_eq_some_iff.mp hread with ⟨tag, hfound, hread⟩
    rcases Option.bind_eq_some_iff.mp hfound with ⟨value, hvalue, htag⟩
    rcases exists_lookup_respelled hfields hvalue with ⟨other, hother, hfield⟩
    have hotherTag := Option.bind_eq_some_iff.mpr ⟨other, hother, tolerant_tag? hfield htag⟩
    refine Option.bind_eq_some_iff.mpr ⟨tag, hotherTag, ?_⟩
    exact ofTag?_respelled (.named hfields) (fun _ => partsOfFields?_respelled hfields) hread
termination_by sizeOf value

/-- The parts of a batch are found in the same field. -/
theorem partsOfFields?_respelled {fields others : List (String × Json)} {parts : List Intent}
    (h : List.Forall₂ RespelledField fields others) (hread : partsOfFields? fields = some parts) :
    partsOfFields? others = some parts := by
  cases h with
  | nil => exact hread
  | cons hfield hfields =>
    cases hfield with
    | @number name hname i =>
      -- the parts are no number, so this field is not theirs
      have hother : name ≠ "operations" := by
        rintro rfl
        revert hname
        decide
      rw [partsOfFields?, if_neg hother] at hread ⊢
      exact partsOfFields?_respelled hfields hread
    | value hvalue =>
      rw [partsOfFields?] at hread ⊢
      split at hread
      · rename_i hname
        rw [if_pos hname]
        exact partsOf?_respelled hvalue hread
      · rename_i hname
        rw [if_neg hname]
        exact partsOfFields?_respelled hfields hread
termination_by sizeOf fields

/-- The parts of a batch are all that follows the tag in an array. -/
theorem onlyPartsOf?_respelled {items others : List Json} {parts : List Intent}
    (h : List.Forall₂ Respelled items others) (hread : onlyPartsOf? items = some parts) :
    onlyPartsOf? others = some parts := by
  cases h with
  | nil => exact hread
  | cons hitem hitems =>
    cases hitems with
    | nil => exact partsOf?_respelled hitem hread
    | cons => cases hread
termination_by sizeOf items

/-- Parts stand in an array, which is respelled item by item. -/
theorem partsOf?_respelled {value other : Json} {parts : List Intent} (h : Respelled value other)
    (hread : partsOf? value = some parts) : partsOf? other = some parts := by
  cases h with
  | same => exact hread
  | array hitems => exact readAll?_respelled hitems hread
  | object => cases hread
termination_by sizeOf value

/-- Each part is an intent, which is read again. -/
theorem readAll?_respelled {items others : List Json} {parts : List Intent}
    (h : List.Forall₂ Respelled items others) (hread : readAll? items = some parts) :
    readAll? others = some parts := by
  cases h with
  | nil => exact hread
  | cons hitem hitems =>
    rw [readAll?] at hread ⊢
    rcases Option.bind_eq_some_iff.mp hread with ⟨part, hpart, hread⟩
    rcases Option.bind_eq_some_iff.mp hread with ⟨rest, hrest, hread⟩
    -- each part by the theorem for intents, and the rest by this one
    refine Option.bind_eq_some_iff.mpr ⟨part, read?_respelled hitem hpart, ?_⟩
    exact Option.bind_eq_some_iff.mpr ⟨rest, readAll?_respelled hitems hrest, hread⟩
termination_by sizeOf items

end

end Intent

/-! ## Memos -/

namespace MemoIntent

variable {memo : MemoIntent}

/-- In an object, the kind of a memo is its only name, with nothing below it. -/
theorem kind?_object_eq_some {fields : List (String × Json)} {kind : Kind} :
    kind? (.object fields) = some kind ↔
      ∃ name, fields = [(name, .null)] ∧ Kind.ofName? name = some kind := by
  constructor
  · intro h
    unfold kind? at h
    split at h
    · rename_i heq
      cases heq
    · rename_i name heq
      cases heq
      exact ⟨name, rfl, h⟩
    · cases h
  · rintro ⟨name, rfl, h⟩
    exact h

/-- A memo in an object has a kind and a content of that kind. -/
theorem ofJson?_object_eq_some {fields : List (String × Json)} :
    ofJson? (.object fields) = some memo ↔
      ∃ type kind value, fields.lookup "type" = some type ∧ kind? type = some kind ∧
        fields.lookup "value" = some value ∧ content? kind value = some memo := by
  simp only [ofJson?, Option.bind_eq_bind, Option.bind_eq_some_iff]
  constructor
  · rintro ⟨type, htype, kind, hkind, value, hvalue, hcontent⟩
    exact ⟨type, kind, value, htype, hkind, hvalue, hcontent⟩
  · rintro ⟨type, kind, value, htype, hkind, hvalue, hcontent⟩
    exact ⟨type, htype, kind, hkind, value, hvalue, hcontent⟩

/-- In an array, the kind comes before the content. -/
theorem ofJson?_array_eq_some {items : List Json} :
    ofJson? (.array items) = some memo ↔
      ∃ name kind value, items = [.string name, value] ∧ Kind.ofName? name = some kind ∧
        content? kind value = some memo := by
  constructor
  · intro h
    unfold ofJson? at h
    split at h
    · rename_i heq
      cases heq
    · rename_i name value heq
      cases heq
      rcases Option.bind_eq_some_iff.mp h with ⟨kind, hkind, h⟩
      exact ⟨name, kind, value, rfl, hkind, h⟩
    · cases h
  · rintro ⟨name, kind, value, rfl, hkind, h⟩
    exact Option.bind_eq_some_iff.mpr ⟨kind, hkind, h⟩

/-- A memo is read back. -/
theorem ofJson?_toJson (memo : MemoIntent) : ofJson? memo.toJson = some memo := by
  cases memo with
  | text s => exact ofJson?_object_eq_some.mpr ⟨_, .text, _, rfl, rfl, rfl, rfl⟩
  | id n =>
    have hcontent : content? .id (.integer n.toNat) = some (.id n) := by
      rw [content?, asUInt64Text?_toNat, Option.map_some]
    exact ofJson?_object_eq_some.mpr ⟨_, .id, _, rfl, rfl, rfl, hcontent⟩
  | hash hex => exact ofJson?_object_eq_some.mpr ⟨_, .hash, _, rfl, rfl, rfl, rfl⟩
  | «return» hex => exact ofJson?_object_eq_some.mpr ⟨_, .return, _, rfl, rfl, rfl, rfl⟩

/-- No number tells the kind of a memo. -/
theorem tolerant_kind? : Tolerant "type" kind? := by
  intro value other kind hfield hread
  cases hfield with
  | number => cases hread
  | value h =>
    cases h with
    | same => exact hread
    | array => cases hread
    | object hfields =>
      rcases kind?_object_eq_some.mp hread with ⟨name, rfl, hkind⟩
      rcases List.forall₂_cons_left_iff.mp hfields with ⟨other, _, hother, hrest, rfl⟩
      cases hrest
      cases hother with
      | value hnull =>
        cases hnull
        exact hread

/-- The number of a memo may stand as text, and other contents are texts anyway. -/
theorem tolerant_content? (kind : Kind) : Tolerant "value" (content? kind) := by
  intro value other memo hfield hread
  cases kind with
  | id =>
    rcases Option.map_eq_some_iff.mp hread with ⟨n, hn, rfl⟩
    exact Option.map_eq_some_iff.mpr ⟨n, tolerant_asUInt64Text? hfield hn, rfl⟩
  | text | hash | «return» =>
    rcases Option.map_eq_some_iff.mp hread with ⟨text, htext, rfl⟩
    exact Option.map_eq_some_iff.mpr ⟨text, tolerant_asString? hfield htext, rfl⟩

/-- A memo is read again when its number is respelled. -/
theorem ofJson?_respelled {value other : Json} (h : Respelled value other)
    (hread : ofJson? value = some memo) : ofJson? other = some memo := by
  cases h with
  | same => exact hread
  | object hfields =>
    -- both fields are found again, wherever they stand
    rcases ofJson?_object_eq_some.mp hread with ⟨type, kind, value, htype, hkind, hvalue, hcontent⟩
    rcases exists_lookup_respelled hfields htype with ⟨otherType, hotherType, htypeField⟩
    rcases exists_lookup_respelled hfields hvalue with ⟨otherValue, hotherValue, hvalueField⟩
    exact ofJson?_object_eq_some.mpr ⟨otherType, kind, otherValue, hotherType,
      tolerant_kind? htypeField hkind, hotherValue, tolerant_content? kind hvalueField hcontent⟩
  | array hitems =>
    -- there are two items, and the name of the kind is left alone
    rcases ofJson?_array_eq_some.mp hread with ⟨name, kind, value, rfl, hkind, hcontent⟩
    rcases List.forall₂_cons_left_iff.mp hitems with ⟨_, _, hname, hrest, rfl⟩
    rcases List.forall₂_cons_left_iff.mp hrest with ⟨other, _, hvalue, hnil, rfl⟩
    cases hname
    cases hnil
    exact ofJson?_array_eq_some.mpr
      ⟨name, kind, other, rfl, hkind, tolerant_content? kind (.value hvalue) hcontent⟩

end MemoIntent

/-! ## Contexts -/

namespace TimeBounds

open RecordReader

theorem ofJson?_toJson (bounds : TimeBounds) : ofJson? bounds.toJson = some bounds := by
  have hminTime := asUInt64?_toNat bounds.minTime
  have hmaxTime := asUInt64?_toNat bounds.maxTime
  rw [toJson, ofJson?]
  exact Gives.ofJson? (.bind (gives_fieldOr rfl hminTime) (.bind (gives_fieldOr rfl hmaxTime)
    (gives_pure _)))

/-- The bounds have no numbers that may stand as text. -/
theorem ofJson?_respelled {value other : Json} {bounds : TimeBounds} (h : Respelled value other)
    (hread : ofJson? value = some bounds) : ofJson? other = some bounds := by
  have hminTime : (fieldOr 0 "minTime" asUInt64?).Tolerant :=
    tolerant_fieldOr (tolerant_asUInt64? (by decide))
  have hmaxTime : (fieldOr 0 "maxTime" asUInt64?).Tolerant :=
    tolerant_fieldOr (tolerant_asUInt64? (by decide))
  rw [ofJson?] at hread ⊢
  exact RecordReader.Tolerant.ofJson? (.bind hminTime fun _ => .bind hmaxTime fun _ => tolerant_pure _)
    h hread

end TimeBounds

namespace Context

open RecordReader

/-- A context is read back, with what it lacks as null. -/
theorem ofJson?_toJson (context : Context) : ofJson? context.toJson = some context := by
  have hmemo := orNull_ofOption (fun memo => by cases memo <;> simp [MemoIntent.toJson])
    MemoIntent.ofJson?_toJson context.memo
  have hbounds := orNull_ofOption (fun bounds => by simp [TimeBounds.toJson])
    TimeBounds.ofJson?_toJson context.timeBounds
  have hsequence := asInt64?_toInt context.sequence
  have hfee := asUInt32?_toNat context.baseFee
  rw [toJson, ofJson?]
  exact Gives.ofJson? (.bind (gives_field rfl rfl) (.bind (gives_field rfl hsequence)
    (.bind (gives_fieldOr rfl hfee) (.bind (gives_fieldOr rfl hmemo)
      (.bind (gives_fieldOr rfl hbounds) (gives_pure _))))))

/-- A context is read again when the sequence number or that of its memo is respelled. -/
theorem ofJson?_respelled {value other : Json} {context : Context} (h : Respelled value other)
    (hread : ofJson? value = some context) : ofJson? other = some context := by
  have hsource : (field "source" asString?).Tolerant := tolerant_field tolerant_asString?
  have hsequence : (field "sequenceNumber" asInt64?).Tolerant := tolerant_field tolerant_asInt64?
  have hfee : (fieldOr minBaseFee "baseFee" asUInt32?).Tolerant :=
    tolerant_fieldOr (tolerant_asUInt32? (by decide))
  -- only the sequence number may itself stand as text, and a memo holds another
  have hmemo : (fieldOr none "memo" (orNull MemoIntent.ofJson?)).Tolerant :=
    tolerant_fieldOr (tolerant_of_respelled (by decide) fun _ _ _ => MemoIntent.ofJson?_respelled).orNull
  have hbounds : (fieldOr none "timeBounds" (orNull TimeBounds.ofJson?)).Tolerant :=
    tolerant_fieldOr (tolerant_of_respelled (by decide) fun _ _ _ => TimeBounds.ofJson?_respelled).orNull
  rw [ofJson?] at hread ⊢
  exact RecordReader.Tolerant.ofJson? (.bind hsource fun _ => .bind hsequence fun _ =>
    .bind hfee fun _ => .bind hmemo fun _ => .bind hbounds fun _ => tolerant_pure _) h hread

end Context

/-! ## Texts -/

/-- Of the fields of an action, no two have one name, and all can be spelled. -/
theorem Action.writable_toFields (a : Action) : Writable (.object a.toFields) := by
  have htext := Writable.string
  have hoptional := writable_ofOption Writable.string
  refine .object ?_ ?_
  -- the names first, and then the values
  · cases a <;> simp [toFields]
  · cases a <;> simp [toFields, htext, hoptional, writable_int64, writable_texts]

mutual

/-- An intent can be spelled, however deep its batches are. -/
theorem Intent.writable_toJson (intent : Intent) : Writable intent.toJson := by
  cases intent with
  | action a => exact a.writable_toFields
  | batch parts =>
    have hparts := Writable.array (writable_toJsonAll parts)
    exact .object (by simp) (by simp [hparts, Writable.string])

/-- The parts of a batch can be spelled. -/
theorem Intent.writable_toJsonAll (parts : List Intent) :
    ∀ json ∈ Intent.toJsonAll parts, Writable json := by
  cases parts with
  | nil => simp [Intent.toJsonAll]
  | cons part parts =>
    rw [Intent.toJsonAll, List.forall_mem_cons]
    exact ⟨writable_toJson part, writable_toJsonAll parts⟩

end

theorem MemoIntent.writable_toJson (memo : MemoIntent) : Writable memo.toJson := by
  cases memo with
  | id n => exact .object (by simp) (by simp [writable_uint64, Writable.string])
  | text | hash | «return» => exact .object (by simp) (by simp [Writable.string])

theorem TimeBounds.writable_toJson (bounds : TimeBounds) : Writable bounds.toJson :=
  .object (by simp) (by simp [writable_uint64])

theorem Context.writable_toJson (context : Context) : Writable context.toJson := by
  have hmemo := writable_ofOption MemoIntent.writable_toJson context.memo
  have hbounds := writable_ofOption TimeBounds.writable_toJson context.timeBounds
  refine .object (by simp) ?_
  simp [hmemo, hbounds, writable_int64, writable_uint32, Writable.string]

/-! ## Reading back -/

/-- Every intent and every context is read back from the value that is written for it, and from any value
that differs from it only in numbers that stand as text.  The same holds of the texts of these values. -/
theorem json_reads_back :
    (∀ intent : Intent, Intent.ofJson? intent.toJson = some intent ∧
      ∀ json, Respelled intent.toJson json → Intent.ofJson? json = some intent ∧
        (Json.ofText? (String.ofList json.text)).bind Intent.ofJson? = some intent) ∧
    ∀ context : Context, Context.ofJson? context.toJson = some context ∧
      ∀ json, Respelled context.toJson json → Context.ofJson? json = some context ∧
        (Json.ofText? (String.ofList json.text)).bind Context.ofJson? = some context := by
  constructor
  · intro intent
    have hwritten : Intent.ofJson? intent.toJson = some intent := Intent.read?_toJson false intent
    refine ⟨hwritten, fun json h => ?_⟩
    have hread : Intent.ofJson? json = some intent := Intent.read?_respelled h hwritten
    have htext := Json.ofText?_text (h.writable intent.writable_toJson)
    rw [htext, Option.bind_some]
    exact ⟨hread, hread⟩
  · intro context
    have hwritten := Context.ofJson?_toJson context
    refine ⟨hwritten, fun json h => ?_⟩
    have hread := Context.ofJson?_respelled h hwritten
    have htext := Json.ofText?_text (h.writable context.writable_toJson)
    rw [htext, Option.bind_some]
    exact ⟨hread, hread⟩

/-- The least sequence number and the largest number of a memo as texts, the first of them two batches
deep and beside a number that is left. -/
theorem json_reads_back_extremes :
    let bump (number : Json) : Json := .object [("type", .string "bumpSequence"), ("bumpTo", number)]
    let batch (parts : List Json) : Json :=
      .object [("type", .string "batch"), ("operations", .array parts)]
    let bounds : Json := .object [("minTime", .integer 0), ("maxTime", .integer 5)]
    Intent.ofJson? (batch [batch [bump (.string "-9223372036854775808"), bump (.integer 7)], batch []])
        = some (.batch [.batch [.action (.bumpSequence Int64.minValue), .action (.bumpSequence 7)],
          .batch []])
      ∧ Context.ofJson? (.object [("source", .string "G"),
          ("sequenceNumber", .string "9223372036854775807"), ("baseFee", .integer 100),
          ("memo", .object [("type", .string "id"), ("value", .string "18446744073709551615")]),
          ("timeBounds", bounds)])
        = some ⟨"G", Int64.maxValue, 100, some (.id 18446744073709551615), some ⟨0, 5⟩⟩ := by
  intro bump batch bounds
  constructor
  · have hleast : Respelled (bump (.integer Int64.minValue.toInt))
        (bump (.string "-9223372036854775808")) :=
      .object (.cons (.value (.same _)) (.cons (.number (by decide) Int64.minValue.toInt) .nil))
    have hinner := Respelled.array (.cons hleast (.cons (.same (bump (.integer 7))) .nil))
    have hbatch {parts others : List Json} (h : Respelled (.array parts) (.array others)) :
        Respelled (batch parts) (batch others) :=
      .object (.cons (.value (.same _)) (.cons (.value h) .nil))
    have houter := hbatch (.array (.cons (hbatch hinner) (.cons (.same (batch [])) .nil)))
    exact ((json_reads_back.1 (.batch [.batch [.action (.bumpSequence Int64.minValue),
      .action (.bumpSequence 7)], .batch []])).2 _ houter).1
  · have hmemo : Respelled (MemoIntent.id 18446744073709551615).toJson
        (.object [("type", .string "id"), ("value", .string "18446744073709551615")]) :=
      .object (.cons (.value (.same _)) (.cons (.number (by decide) _) .nil))
    exact ((json_reads_back.2 ⟨"G", Int64.maxValue, 100, some (.id 18446744073709551615),
      some ⟨0, 5⟩⟩).2 _ (.object (.cons (.value (.same _)) (.cons (.number (by decide) _)
        (.cons (.value (.same _)) (.cons (.value hmemo) (.cons (.value (.same _)) .nil))))))).1

end LedgerTx
