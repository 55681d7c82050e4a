import LedgerTx.Extension

namespace LedgerTx

/-! # Operations on the footprint -/

/-- Extends the life of the entries in the footprint. -/
structure BumpFootprintExpiration where
  ext : Extension
  ledgersToExpire : UInt32

/-- The reserved slot and then the number of ledgers. -/
def BumpFootprintExpiration.layout : Layout BumpFootprintExpiration :=
  .map ⟨fun o => (o.ext, o.ledgersToExpire), fun v => ⟨v.1, v.2⟩, fun _ => rfl, fun _ => rfl⟩ <|
    .field "ext" Extension.layout <|
    .under "ledgersToExpire" .uint32

/-- Restores the entries in the footprint. -/
structure RestoreFootprint where
  ext : Extension

/-- The reserved slot. -/
def RestoreFootprint.layout : Layout RestoreFootprint :=
  .map ⟨fun o => o.ext, fun v => ⟨v⟩, fun _ => rfl, fun _ => rfl⟩ <|
    .under "ext" Extension.layout

end LedgerTx
