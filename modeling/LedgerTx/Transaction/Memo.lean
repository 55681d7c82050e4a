import LedgerTx.Layout.Scalar

namespace LedgerTx

/-! # Memos -/

/-- The kinds of memos. -/
inductive MemoKind where
  | none
  | text
  | id
  | hash
  | return
deriving DecidableEq

instance : Enumeration MemoKind where
  title := "MemoType"
  all := [.none, .text, .id, .hash, .return]
  number
    | .none => 0
    | .text => 1
    | .id => 2
    | .hash => 3
    | .return => 4
  name
    | .none => "MEMO_NONE"
    | .text => "MEMO_TEXT"
    | .id => "MEMO_ID"
    | .hash => "MEMO_HASH"
    | .return => "MEMO_RETURN"

/-- A note for whoever is paid. -/
inductive Memo where
  | none
  | text (text : String)
  | id (id : UInt64)
  | hash (hash : Bytes32)
  /-- The hash of the transaction that is paid back. -/
  | return (hash : Bytes32)
deriving DecidableEq

namespace Memo

/-- The longest text, in bytes. -/
def maxText : Nat := 28

/-- What a memo of some kind holds. -/
def Payload : MemoKind → Type
  | .none => Unit
  | .text => String
  | .id => UInt64
  | .hash => Bytes32
  | .return => Bytes32

/-- A memo as its kind and what that kind holds. -/
def view : Bijection Memo (Sigma Payload) where
  forth
    | .none => ⟨.none, ()⟩
    | .text s => ⟨.text, s⟩
    | .id n => ⟨.id, n⟩
    | .hash h => ⟨.hash, h⟩
    | .return h => ⟨.return, h⟩
  back
    | ⟨.none, ()⟩ => .none
    | ⟨.text, s⟩ => .text s
    | ⟨.id, n⟩ => .id n
    | ⟨.hash, h⟩ => .hash h
    | ⟨.return, h⟩ => .return h
  back_forth m := by cases m <;> rfl
  forth_back := fun ⟨k, b⟩ => by cases k <;> rfl

/-- The kind of a memo. -/
def kind (memo : Memo) : MemoKind :=
  (view.forth memo).1

/-- The kind of the memo and what that kind holds. -/
def layout : Layout Memo :=
  .map view <| .sigma (.under "type" (.constant MemoKind)) fun
    | .none => .unit
    | .text => .under "text" (.text maxText)
    | .id => .under "id" .uint64
    | .hash => .under "hash" (.fixed 32)
    | .return => .under "retHash" (.fixed 32)

end Memo

end LedgerTx
