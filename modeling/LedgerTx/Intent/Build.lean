import LedgerTx.Intent.Basic
import LedgerTx.Transaction.Text

namespace LedgerTx

/-! # Building from intents

Each action becomes an operation for the source account, in order.  Of several faults the first is
reported: the source, then the actions from left to right, then the memo, then the draft. -/

/-! ## Actions -/

namespace Action

/-- Bytes in hexadecimal. -/
def hexBytes (text : String) : Except ArgumentError (List UInt8) :=
  (Hex.decode text.toList).mapError (.notHex text)

/-- Credit that can be trusted. -/
def trusted (asset : String) : Except ValueError Asset := do
  match ← Asset.ofCanonical asset with
  | .native => throw (.argument .trustInNative)
  | credit => return credit

/-- The limit of trust. -/
def trustLimit : Option String → Except ArgumentError Int64
  | some limit => Amount.parse limit
  | none => .ok Int64.maxValue

/-- The name of a data entry: one byte at least. -/
def dataName (name : String) : Except ArgumentError String :=
  let length := (Utf8.encode name).length
  if length = 0 ∨ maxDataName < length then .error (.dataNameLength maxDataName length)
  else .ok name

/-- The value of a data entry. -/
def dataValue : Option String → Except ArgumentError (Option (List UInt8))
  | none => .ok none
  | some text => do
    let bytes ← hexBytes text
    if ManageData.maxValue < bytes.length then
      throw (.dataValueTooLong ManageData.maxValue bytes.length)
    return some bytes

/-- What the operation of an action does. -/
def body : Action → Except Error OperationBody
  | .payment destination asset amount => do
    let destination ← (MuxedAccount.ofAddress destination : Except ValueError MuxedAccount)
    let asset ← Asset.ofCanonical asset
    let amount ← (Amount.parsePositive amount : Except ValueError Int64)
    return .payment { destination, asset, amount }
  | .createAccount destination startingBalance => do
    let destination ← (AccountId.ofAddress destination : Except ValueError AccountId)
    let startingBalance ← (Amount.parsePositive startingBalance : Except ValueError Int64)
    return .createAccount { destination, startingBalance }
  | .changeTrust asset limit => do
    -- the native asset needs no trust and is refused here
    let asset ← trusted asset
    let limit ← (trustLimit limit : Except ValueError Int64)
    return .changeTrust { line := .asset asset, limit }
  | .manageData name value => do
    let name ← (dataName name : Except ValueError String)
    let value ← (dataValue value : Except ValueError (Option (List UInt8)))
    return .manageData { name, value }
  | .accountMerge destination => do
    let destination ← (MuxedAccount.ofAddress destination : Except ValueError MuxedAccount)
    return .accountMerge destination
  | .bumpSequence bumpTo => return .bumpSequence { bumpTo }
  | .invokeContract contract function args => do
    let contract ← (Strkey.decodeKey .contract contract : Except ValueError Bytes32)
    -- the name of the function is taken as it is, whatever its length
    let args ← args.mapM Contract.Value.layout.wire.ofBase64
    return .invokeHostFunction { function := .call (.contract contract) function args, auth := [] }

end Action

/-! ## Intents -/

namespace Intent

mutual

/-- The operations of an intent in order. -/
def operations : Intent → Except Error (List Operation)
  | .action a => do return [.ofBody (← a.body)]
  | .batch parts => operationsOf parts

/-- The operations of a list of intents in order. -/
def operationsOf : List Intent → Except Error (List Operation)
  | [] => .ok []
  | part :: parts => do
    let first ← part.operations
    let rest ← operationsOf parts
    return first ++ rest

end

end Intent

/-- The memo of an intended transaction. -/
def MemoIntent.memo : MemoIntent → Except ArgumentError Memo
  | .text s => .ok (.text s)
  | .id n => .ok (.id n)
  | .hash hex => .hash <$> key hex
  | .return hex => .return <$> key hex
where
  /-- A hash of 32 bytes. -/
  key (hex : String) : Except ArgumentError Bytes32 := do
    let bytes ← Action.hexBytes hex
    match FixedBytes.ofList? bytes with
    | some bytes32 => return bytes32
    | none => throw (.hashLength bytes.length)

/-- The memo of a context, if any. -/
def Context.memoOrNone (context : Context) : Except ArgumentError Memo :=
  match context.memo with
  | none => .ok .none
  | some memo => memo.memo

/-- The transaction that does what an intent says. -/
def Intent.build (intent : Intent) (context : Context) : Except Error Transaction := do
  let source ← (MuxedAccount.ofAddress context.source : Except ValueError MuxedAccount)
  -- the actions are read before the memo is
  let operations ← intent.operations
  let memo ← (context.memoOrNone : Except ValueError Memo)
  let draft : Draft := {
    source, memo, operations
    sequence := context.sequence
    baseFee := context.baseFee
    preconditions := .ofTimeBounds context.timeBounds }
  (draft.build : Except ValueError Transaction)

end LedgerTx
