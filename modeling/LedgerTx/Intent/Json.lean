import LedgerTx.Intent.Basic
import LedgerTx.Json.Record

namespace LedgerTx

/-! # Intents in JSON

An intent is a record of which the field `type` says what follows.  Numbers of 64 bits may also be given
as text in decimal. -/

open Json

/-! ## Numbers -/

namespace Json

/-- A signed number of 64 bits, or its text. -/
def asInt64? : Json → Option Int64
  | .integer i =>
    if Int64.minValue.toInt ≤ i ∧ i ≤ Int64.maxValue.toInt then some (Int64.ofInt i) else none
  | .string s => Decimal.int64? s.toList
  | _ => none

/-- An unsigned number of 64 bits. -/
def asUInt64? : Json → Option UInt64
  | .integer i => if 0 ≤ i ∧ i < UInt64.size then some (UInt64.ofNat i.toNat) else none
  | _ => none

/-- An unsigned number of 64 bits, or its text. -/
def asUInt64Text? : Json → Option UInt64
  | .string s => Decimal.uint64? s.toList
  | value => value.asUInt64?

/-- An unsigned number of 32 bits. -/
def asUInt32? : Json → Option UInt32
  | .integer i => if 0 ≤ i ∧ i < UInt32.size then some (UInt32.ofNat i.toNat) else none
  | _ => none

end Json

/-! ## Actions -/

/-- The kinds of actions. -/
inductive ActionKind where
  | payment
  | createAccount
  | changeTrust
  | manageData
  | accountMerge
  | bumpSequence
  | invokeContract
deriving DecidableEq

namespace Action

/-- The action of the given kind, from the fields after the kind. -/
def reader : ActionKind → RecordReader Action
  | .payment => do
    let destination ← .field "destination" asString?
    let asset ← .field "asset" asString?
    let amount ← .field "amount" asString?
    return .payment destination asset amount
  | .createAccount => do
    let destination ← .field "destination" asString?
    let startingBalance ← .field "startingBalance" asString?
    return .createAccount destination startingBalance
  | .changeTrust => do
    let asset ← .field "asset" asString?
    let limit ← .fieldOr none "limit" (orNull asString?)
    return .changeTrust asset limit
  | .manageData => do
    let name ← .field "name" asString?
    let value ← .fieldOr none "value" (orNull asString?)
    return .manageData name value
  | .accountMerge => do
    let destination ← .field "destination" asString?
    return .accountMerge destination
  | .bumpSequence => do
    let bumpTo ← .field "bumpTo" asInt64?
    return .bumpSequence bumpTo
  | .invokeContract => do
    let contract ← .field "contract" asString?
    let function ← .field "function" asString?
    let args ← .fieldOr [] "args" (asList? asString?)
    return .invokeContract contract function args

/-- The fields of an action, the kind first. -/
def toFields : Action → List (String × Json)
  | .payment destination asset amount =>
    [("type", .string "payment"), ("destination", .string destination), ("asset", .string asset),
      ("amount", .string amount)]
  | .createAccount destination startingBalance =>
    [("type", .string "createAccount"), ("destination", .string destination),
      ("startingBalance", .string startingBalance)]
  | .changeTrust asset limit =>
    [("type", .string "changeTrust"), ("asset", .string asset), ("limit", ofOption .string limit)]
  | .manageData name value =>
    [("type", .string "manageData"), ("name", .string name), ("value", ofOption .string value)]
  | .accountMerge destination =>
    [("type", .string "accountMerge"), ("destination", .string destination)]
  | .bumpSequence bumpTo =>
    [("type", .string "bumpSequence"), ("bumpTo", .integer bumpTo.toInt)]
  | .invokeContract contract function args =>
    [("type", .string "invokeContract"), ("contract", .string contract),
      ("function", .string function), ("args", .array (args.map .string))]

end Action

/-! ## Intents -/

namespace Intent

/-- What an intent is: an action of some kind, or a batch. -/
inductive Tag where
  | action (kind : ActionKind)
  | batch

/-- The names of the tags, in order. -/
def tags : List (String × Tag) := [
  ("payment", .action .payment),
  ("createAccount", .action .createAccount),
  ("changeTrust", .action .changeTrust),
  ("manageData", .action .manageData),
  ("accountMerge", .action .accountMerge),
  ("bumpSequence", .action .bumpSequence),
  ("invokeContract", .action .invokeContract),
  ("batch", .batch)]

/-- The tag of a name; inside a batch, also of its place among the names. -/
def tag? (inBatch : Bool) : Json → Option Tag
  | .string name => tags.lookup name
  | .integer i => if inBatch ∧ 0 ≤ i then tags[i.toNat]?.map (·.2) else none
  | _ => none

mutual

/-- The intent of a value, which may stand inside a batch. -/
def read? (inBatch : Bool) : Json → Option Intent
  | .object fields => do
    match ← (fields.lookup "type").bind (tag? inBatch) with
    | .action kind => return .action (← (Action.reader kind).readAll (.named fields))
    | .batch => return .batch (← partsOfFields? fields)
  | .array (tag :: items) => do
    match ← tag? inBatch tag with
    | .action kind => return .action (← (Action.reader kind).readAll (.listed items))
    | .batch => return .batch (← onlyPartsOf? items)
  | _ => none

/-- The parts of a batch, from the fields of an object. -/
def partsOfFields? : List (String × Json) → Option (List Intent)
  | [] => none
  | (name, value) :: fields =>
    if name = "operations" then partsOf? value else partsOfFields? fields

/-- The parts of a batch, from an array that holds nothing else. -/
def onlyPartsOf? : List Json → Option (List Intent)
  | [value] => partsOf? value
  | _ => none

/-- The parts of a batch. -/
def partsOf? : Json → Option (List Intent)
  | .array items => readAll? items
  | _ => none

/-- The intents of values inside a batch. -/
def readAll? : List Json → Option (List Intent)
  | [] => some []
  | item :: items => do
    let part ← read? true item
    let parts ← readAll? items
    return part :: parts

end

/-- The intent of a value. -/
def ofJson? (value : Json) : Option Intent :=
  read? false value

mutual

/-- The value of an intent. -/
def toJson : Intent → Json
  | .action a => .object a.toFields
  | .batch parts => .object [("type", .string "batch"), ("operations", .array (toJsonAll parts))]

/-- The values of intents. -/
def toJsonAll : List Intent → List Json
  | [] => []
  | part :: parts => part.toJson :: toJsonAll parts

end

end Intent

/-! ## Contexts -/

namespace MemoIntent

/-- The names of the kinds of memos. -/
inductive Kind where
  | text
  | id
  | hash
  | return

/-- The kind of a name. -/
def Kind.ofName? (name : String) : Option Kind :=
  [("text", Kind.text), ("id", Kind.id), ("hash", Kind.hash), ("return", Kind.return)].lookup name

/-- The kind that a field names: a text, or an object with that name for its only field, which is
null. -/
def kind? : Json → Option Kind
  | .string name => Kind.ofName? name
  | .object [(name, .null)] => Kind.ofName? name
  | _ => none

/-- What a memo of some kind holds. -/
def content? : Kind → Json → Option MemoIntent
  | .text, value => value.asString?.map .text
  | .id, value => value.asUInt64Text?.map .id
  | .hash, value => value.asString?.map .hash
  | .return, value => value.asString?.map .return

/-- The memo of a value: an object with a kind and what the memo holds, or an array of both.  In an array
only a text names the kind. -/
def ofJson? : Json → Option MemoIntent
  | .object fields => do
    let kind ← kind? (← fields.lookup "type")
    content? kind (← fields.lookup "value")
  | .array [.string name, value] => do
    content? (← Kind.ofName? name) value
  | _ => none

/-- The value of a memo. -/
def toJson : MemoIntent → Json
  | .text s => .object [("type", .string "text"), ("value", .string s)]
  | .id n => .object [("type", .string "id"), ("value", .integer n.toNat)]
  | .hash hex => .object [("type", .string "hash"), ("value", .string hex)]
  | .return hex => .object [("type", .string "return"), ("value", .string hex)]

end MemoIntent

namespace TimeBounds

/-- The bounds of a value; a bound that is missing is zero. -/
def ofJson? (value : Json) : Option TimeBounds :=
  RecordReader.ofJson? (do
    let minTime ← .fieldOr 0 "minTime" asUInt64?
    let maxTime ← .fieldOr 0 "maxTime" asUInt64?
    return ⟨minTime, maxTime⟩) value

/-- The value of bounds. -/
def toJson (bounds : TimeBounds) : Json :=
  .object [("minTime", .integer bounds.minTime.toNat), ("maxTime", .integer bounds.maxTime.toNat)]

end TimeBounds

namespace Context

/-- The context of a value. -/
def ofJson? (value : Json) : Option Context :=
  RecordReader.ofJson? (do
    let source ← .field "source" asString?
    let sequence ← .field "sequenceNumber" asInt64?
    let baseFee ← .fieldOr minBaseFee "baseFee" asUInt32?
    let memo ← .fieldOr none "memo" (orNull MemoIntent.ofJson?)
    let timeBounds ← .fieldOr none "timeBounds" (orNull TimeBounds.ofJson?)
    return { source, sequence, baseFee, memo, timeBounds }) value

/-- The value of a context. -/
def toJson (context : Context) : Json :=
  .object [
    ("source", .string context.source),
    ("sequenceNumber", .integer context.sequence.toInt),
    ("baseFee", .integer context.baseFee.toNat),
    ("memo", ofOption MemoIntent.toJson context.memo),
    ("timeBounds", ofOption TimeBounds.toJson context.timeBounds)]

end Context

end LedgerTx
