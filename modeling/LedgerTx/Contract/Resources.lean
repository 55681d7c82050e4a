import LedgerTx.Extension
import LedgerTx.Ledger.Key

namespace LedgerTx

/-! # Resources of contract transactions

A transaction that runs contracts declares which ledger entries it reads and writes and how much of each
resource it may use. -/

/-- The entries that a transaction reads only, and those that it also writes. -/
structure Footprint where
  readOnly : List LedgerKey
  readWrite : List LedgerKey

namespace Footprint

/-- No entries. -/
def empty : Footprint := ⟨[], []⟩

/-- The entries that are read only and then those that are written. -/
def layout : Layout Footprint :=
  .map ⟨fun f => (f.readOnly, f.readWrite), fun v => ⟨v.1, v.2⟩, fun _ => rfl, fun _ => rfl⟩ <|
    .field "readOnly" (.list Layout.unbounded LedgerKey.layout) <|
    .under "readWrite" (.list Layout.unbounded LedgerKey.layout)

end Footprint

/-- The footprint and the limits of a transaction. -/
structure Resources where
  footprint : Footprint
  instructions : UInt32
  readBytes : UInt32
  writeBytes : UInt32
  eventBytes : UInt32

namespace Resources

/-- No entries and all limits zero. -/
def empty : Resources := ⟨.empty, 0, 0, 0, 0⟩

/-- The footprint and then the limits. -/
def layout : Layout Resources :=
  .map ⟨fun r => (r.footprint, r.instructions, r.readBytes, r.writeBytes, r.eventBytes),
    fun v => ⟨v.1, v.2.1, v.2.2.1, v.2.2.2.1, v.2.2.2.2⟩, fun _ => rfl, fun _ => rfl⟩ <|
    .field "footprint" Footprint.layout <|
    .field "instructions" .uint32 <|
    .field "readBytes" .uint32 <|
    .field "writeBytes" .uint32 <|
    .under "contractEventsSizeBytes" .uint32

end Resources

/-- What a transaction declares for its contracts: resources and a fee of which the rest is returned. -/
structure SorobanData where
  ext : Extension
  resources : Resources
  refundableFee : Int64

namespace SorobanData

/-- No resources and no fee. -/
def empty : SorobanData := ⟨.v0, .empty, 0⟩

/-- The reserved slot, the resources and the fee. -/
def layout : Layout SorobanData :=
  .map ⟨fun d => (d.ext, d.resources, d.refundableFee), fun v => ⟨v.1, v.2.1, v.2.2⟩,
    fun _ => rfl, fun _ => rfl⟩ <|
    .field "ext" Extension.layout <|
    .field "resources" Resources.layout <|
    .under "refundableFee" .int64

end SorobanData

end LedgerTx
