import LedgerTx.Account

namespace LedgerTx

/-! # Preconditions

When a transaction may be applied. -/

/-- The first and the last second since 1970; a last second of zero sets no end. -/
structure TimeBounds where
  minTime : UInt64
  maxTime : UInt64
deriving DecidableEq

/-- The first and then the last second. -/
def TimeBounds.layout : Layout TimeBounds :=
  .map ⟨fun b => (b.minTime, b.maxTime), fun v => ⟨v.1, v.2⟩, fun _ => rfl, fun _ => rfl⟩ <|
    .field "minTime" .time <|
    .under "maxTime" .time

/-- The first and the last ledger; a last ledger of zero sets no end. -/
structure LedgerBounds where
  minLedger : UInt32
  maxLedger : UInt32
deriving DecidableEq

/-- The first and then the last ledger. -/
def LedgerBounds.layout : Layout LedgerBounds :=
  .map ⟨fun b => (b.minLedger, b.maxLedger), fun v => ⟨v.1, v.2⟩, fun _ => rfl, fun _ => rfl⟩ <|
    .field "minLedger" .uint32 <|
    .under "maxLedger" .uint32

/-- The conditions of the second version. -/
structure Conditions where
  timeBounds : Option TimeBounds
  ledgerBounds : Option LedgerBounds
  /-- The lowest sequence number that the source account may have. -/
  minSequence : Option Int64
  /-- The seconds since the sequence number of the source account changed. -/
  minSequenceAge : UInt64
  /-- The ledgers since the sequence number of the source account changed. -/
  minSequenceLedgerGap : UInt32
  /-- Who must sign besides. -/
  extraSigners : List SignerKey
deriving DecidableEq

namespace Conditions

/-- The most signers that may be asked for. -/
def maxExtraSigners : Nat := 2

/-- The bounds, what is asked of the sequence number, and the signers. -/
def layout : Layout Conditions :=
  .map ⟨fun c => (c.timeBounds, c.ledgerBounds, c.minSequence, c.minSequenceAge,
      c.minSequenceLedgerGap, c.extraSigners),
    fun v => ⟨v.1, v.2.1, v.2.2.1, v.2.2.2.1, v.2.2.2.2.1, v.2.2.2.2.2⟩,
    fun _ => rfl, fun _ => rfl⟩ <|
    .field "timeBounds" (.option TimeBounds.layout) <|
    .field "ledgerBounds" (.option LedgerBounds.layout) <|
    .field "minSeqNum" (.option .int64) <|
    .field "minSeqAge" .uint64 <|
    .field "minSeqLedgerGap" .uint32 <|
    .under "extraSigners" (.list maxExtraSigners SignerKey.layout)

end Conditions

/-- The kinds of preconditions. -/
inductive PreconditionKind where
  | none
  | time
  | v2
deriving DecidableEq

instance : Enumeration PreconditionKind where
  title := "PreconditionType"
  all := [.none, .time, .v2]
  number
    | .none => 0
    | .time => 1
    | .v2 => 2
  name
    | .none => "PRECOND_NONE"
    | .time => "PRECOND_TIME"
    | .v2 => "PRECOND_V2"

/-- What must hold for a transaction to be applied. -/
inductive Preconditions where
  | none
  | time (bounds : TimeBounds)
  | v2 (conditions : Conditions)
deriving DecidableEq

namespace Preconditions

/-- What preconditions of some kind hold. -/
def Payload : PreconditionKind → Type
  | .none => Unit
  | .time => TimeBounds
  | .v2 => Conditions

/-- Preconditions as their kind and what that kind holds. -/
def view : Bijection Preconditions (Sigma Payload) where
  forth
    | .none => ⟨.none, ()⟩
    | .time bounds => ⟨.time, bounds⟩
    | .v2 conditions => ⟨.v2, conditions⟩
  back
    | ⟨.none, ()⟩ => .none
    | ⟨.time, bounds⟩ => .time bounds
    | ⟨.v2, conditions⟩ => .v2 conditions
  back_forth p := by cases p <;> rfl
  forth_back := fun ⟨k, b⟩ => by cases k <;> rfl

/-- The kind of preconditions. -/
def kind (preconditions : Preconditions) : PreconditionKind :=
  (view.forth preconditions).1

/-- The time bounds that preconditions set. -/
def timeBounds? : Preconditions → Option TimeBounds
  | .none => Option.none
  | .time bounds => some bounds
  | .v2 conditions => conditions.timeBounds

/-- The time bounds, if any, as preconditions. -/
def ofTimeBounds : Option TimeBounds → Preconditions
  | Option.none => .none
  | some bounds => .time bounds

/-- The kind of the preconditions and what that kind holds. -/
def layout : Layout Preconditions :=
  .map view <| .sigma (.under "type" (.constant PreconditionKind)) fun
    | .none => .unit
    | .time => .under "timeBounds" TimeBounds.layout
    | .v2 => .under "v2" Conditions.layout

end Preconditions

end LedgerTx
