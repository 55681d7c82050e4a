import LedgerTx.Layout.Scalar

namespace LedgerTx

/-! # Reserved extensions -/

/-- The versions of a slot that is kept for later extensions; there is only one. -/
inductive Extension where
  | v0
deriving DecidableEq

instance : Enumeration Extension where
  title := "ExtensionPoint"
  all := [.v0]
  number | .v0 => 0
  name | .v0 => "0"

/-- The version of a slot. -/
def Extension.layout : Layout Extension :=
  .under "v" (.version Extension)

end LedgerTx
