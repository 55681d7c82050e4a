import LedgerTx.Ledger.Key

namespace LedgerTx

/-! # Operations on accounts -/

/-- Opens an account with a balance. -/
structure CreateAccount where
  destination : AccountId
  startingBalance : Int64

/-- The account and then the balance. -/
def CreateAccount.layout : Layout CreateAccount :=
  .map ⟨fun o => (o.destination, o.startingBalance), fun v => ⟨v.1, v.2⟩,
    fun _ => rfl, fun _ => rfl⟩ <|
    .field "destination" AccountId.layout <|
    .under "startingBalance" .amount

/-- Changes those settings of an account that are given. -/
structure SetOptions where
  inflationDest : Option AccountId
  clearFlags : Option UInt32
  setFlags : Option UInt32
  masterWeight : Option UInt32
  lowThreshold : Option UInt32
  medThreshold : Option UInt32
  highThreshold : Option UInt32
  homeDomain : Option String
  signer : Option AccountSigner

namespace SetOptions

/-- The longest home domain. -/
def maxHomeDomain : Nat := 32

/-- The settings, each optional. -/
def layout : Layout SetOptions :=
  .map
    ⟨fun o => (o.inflationDest, o.clearFlags, o.setFlags, o.masterWeight, o.lowThreshold,
        o.medThreshold, o.highThreshold, o.homeDomain, o.signer),
      fun v => ⟨v.1, v.2.1, v.2.2.1, v.2.2.2.1, v.2.2.2.2.1, v.2.2.2.2.2.1, v.2.2.2.2.2.2.1,
        v.2.2.2.2.2.2.2.1, v.2.2.2.2.2.2.2.2⟩,
      fun _ => rfl, fun _ => rfl⟩ <|
    .field "inflationDest" (.option AccountId.layout) <|
    .field "clearFlags" (.option .uint32) <|
    .field "setFlags" (.option .uint32) <|
    .field "masterWeight" (.option .uint32) <|
    .field "lowThreshold" (.option .uint32) <|
    .field "medThreshold" (.option .uint32) <|
    .field "highThreshold" (.option .uint32) <|
    .field "homeDomain" (.option (.text maxHomeDomain)) <|
    .under "signer" (.option AccountSigner.layout)

end SetOptions

/-- Sets an account's data entry, or deletes it when there is no value. -/
structure ManageData where
  name : String
  value : Option (List UInt8)

namespace ManageData

/-- The longest value of a data entry. -/
def maxValue : Nat := 64

/-- The name and then the value. -/
def layout : Layout ManageData :=
  .map ⟨fun o => (o.name, o.value), fun v => ⟨v.1, v.2⟩, fun _ => rfl, fun _ => rfl⟩ <|
    .field "dataName" (.text maxDataName) <|
    .under "dataValue" (.option (.bytes maxValue))

end ManageData

/-- Moves an account's sequence number forward. -/
structure BumpSequence where
  bumpTo : Int64

/-- The new number. -/
def BumpSequence.layout : Layout BumpSequence :=
  .map ⟨fun o => o.bumpTo, fun v => ⟨v⟩, fun _ => rfl, fun _ => rfl⟩ <|
    .under "bumpTo" .int64

end LedgerTx
