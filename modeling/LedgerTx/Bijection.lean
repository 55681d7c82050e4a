namespace LedgerTx

/-! # Two presentations of one type -/

/-- A pair of maps that undo each other: a record and the tuple of its fields, or a union and the pairs
of a tag and a payload. -/
structure Bijection (α β : Type) where
  forth : α → β
  back : β → α
  back_forth : ∀ a, back (forth a) = a
  forth_back : ∀ b, forth (back b) = b

end LedgerTx
