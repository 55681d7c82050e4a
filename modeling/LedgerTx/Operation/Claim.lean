import LedgerTx.Asset

namespace LedgerTx

/-! # Claims

A claimable balance names who may claim it and under which condition.  Conditions are trees; the network
accepts up to four levels below the root, and listings are read no deeper. -/

/-- The kinds of conditions. -/
inductive PredicateKind where
  | unconditional
  | and
  | or
  | not
  | beforeAbsoluteTime
  | beforeRelativeTime
deriving DecidableEq

instance : Enumeration PredicateKind where
  title := "ClaimPredicateType"
  all := [.unconditional, .and, .or, .not, .beforeAbsoluteTime, .beforeRelativeTime]
  number
    | .unconditional => 0
    | .and => 1
    | .or => 2
    | .not => 3
    | .beforeAbsoluteTime => 4
    | .beforeRelativeTime => 5
  name
    | .unconditional => "CLAIM_PREDICATE_UNCONDITIONAL"
    | .and => "CLAIM_PREDICATE_AND"
    | .or => "CLAIM_PREDICATE_OR"
    | .not => "CLAIM_PREDICATE_NOT"
    | .beforeAbsoluteTime => "CLAIM_PREDICATE_BEFORE_ABSOLUTE_TIME"
    | .beforeRelativeTime => "CLAIM_PREDICATE_BEFORE_RELATIVE_TIME"

/-- A condition on claiming a balance. -/
inductive Predicate where
  | unconditional
  | and (parts : List Predicate)
  | or (parts : List Predicate)
  | not (part : Option Predicate)
  /-- Before a point in time, in seconds since 1970. -/
  | beforeAbsoluteTime (time : Int64)
  /-- Within so many seconds after the balance was created. -/
  | beforeRelativeTime (seconds : Int64)

namespace Predicate

/-- The greatest number of parts of a conjunction or disjunction. -/
def maxParts : Nat := 2

/-- The greatest number of levels that listings are read with, the root among them. -/
def maxLevels : Nat := 5

/-- What a condition of some kind holds. -/
def Payload : PredicateKind → Type
  | .unconditional => Unit
  | .and => List Predicate
  | .or => List Predicate
  | .not => Option Predicate
  | .beforeAbsoluteTime => Int64
  | .beforeRelativeTime => Int64

/-- A condition as its kind and what that kind holds. -/
def view : Bijection Predicate (Sigma Payload) where
  forth
    | .unconditional => ⟨.unconditional, ()⟩
    | .and parts => ⟨.and, parts⟩
    | .or parts => ⟨.or, parts⟩
    | .not part => ⟨.not, part⟩
    | .beforeAbsoluteTime time => ⟨.beforeAbsoluteTime, time⟩
    | .beforeRelativeTime seconds => ⟨.beforeRelativeTime, seconds⟩
  back
    | ⟨.unconditional, ()⟩ => .unconditional
    | ⟨.and, parts⟩ => .and parts
    | ⟨.or, parts⟩ => .or parts
    | ⟨.not, part⟩ => .not part
    | ⟨.beforeAbsoluteTime, time⟩ => .beforeAbsoluteTime time
    | ⟨.beforeRelativeTime, seconds⟩ => .beforeRelativeTime seconds
  back_forth p := by cases p <;> rfl
  forth_back := fun ⟨k, b⟩ => by cases k <;> rfl

/-- The kind of a condition. -/
def kind (predicate : Predicate) : PredicateKind :=
  (view.forth predicate).1

mutual

/-- How many levels a condition has. -/
def depth : Predicate → Nat
  | .and parts => depthOfParts parts + 1
  | .or parts => depthOfParts parts + 1
  | .not (some part) => part.depth + 1
  | _ => 1

/-- The greatest depth of conditions in a list. -/
def depthOfParts : List Predicate → Nat
  | [] => 0
  | part :: parts => max part.depth (depthOfParts parts)

end

/-- The layout of what conditions hold, when `part` lays out the conditions inside them. -/
def payload (part : Layout Predicate) : (kind : PredicateKind) → Layout (Payload kind)
  | .unconditional => .unit
  | .and => .under "andPredicates" (.list maxParts part)
  | .or => .under "orPredicates" (.list maxParts part)
  | .not => .under "notPredicate" (.option part)
  | .beforeAbsoluteTime => .under "absBefore" .signedTime
  | .beforeRelativeTime => .under "relBefore" .int64

/-- The layout of conditions, when `part` lays out the conditions inside them. -/
def step (part : Layout Predicate) : Layout Predicate :=
  .map view (.sigma (.under "type" (.constant PredicateKind)) (payload part))

/-- The kind of the condition and what that kind holds. -/
def layout : Layout Predicate :=
  .recursiveUpTo maxLevels .nestedTooDeeply depth step

end Predicate

/-- The kinds of claimants. -/
inductive ClaimantKind where
  | v0
deriving DecidableEq

instance : Enumeration ClaimantKind where
  title := "ClaimantType"
  all := [.v0]
  number | .v0 => 0
  name | .v0 => "CLAIMANT_TYPE_V0"

/-- Who may claim a balance, and under which condition. -/
structure Claimant where
  destination : AccountId
  predicate : Predicate

/-- The kind of the claimant, the account and the condition. -/
def Claimant.layout : Layout Claimant :=
  .map ⟨fun c => (.v0, c.destination, c.predicate), fun v => ⟨v.2.1, v.2.2⟩,
    fun _ => rfl, fun ⟨.v0, _⟩ => rfl⟩ <|
    .field "type" (.constant ClaimantKind) <|
    .under "v0" <|
      .field "destination" AccountId.layout <|
      .under "predicate" Predicate.layout

end LedgerTx
