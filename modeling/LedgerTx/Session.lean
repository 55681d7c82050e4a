import LedgerTx.Intent.Build
import LedgerTx.Intent.Json
import LedgerTx.Signer.Source
import LedgerTx.Transaction.Edit
import LedgerTx.Transaction.FeeBump

namespace LedgerTx.Session

/-! # Sessions

A session works on one transaction or fee bump at a time.  Its steps take what they need as text, and
read it only if they fit what the session works on. -/

/-- What a session works on. -/
inductive State where
  | empty
  | transaction (signed : Signed Transaction)
  | feeBump (signed : Signed FeeBump)

/-- A step of a session. -/
inductive Step where
  /-- Takes up the transaction of an envelope. -/
  | takeEnvelope (envelope : String)
  /-- Takes up a transaction without signatures. -/
  | takeTransaction (tx : String)
  /-- Takes up the fee bump of an envelope. -/
  | takeFeeBump (envelope : String)
  /-- Takes up a new transaction. -/
  | build (intent context : Json)
  | sign (signer : Signer.Source) (network : Network)
  | addSignature (signature : DecoratedSignature)
  | hash (network : Network)
  | signatureBase (network : Network)
  | signatures
  | listing
  | overview
  | setSorobanData (data : String)
  | addResourceFee (fee : UInt32)
  | setAuthorizations (entries : List String)
  | setFootprint (footprint : String)
  /-- Wraps the transaction in a fee bump. -/
  | bump (feeSource : String) (fee : Int64)
  | feeSource
  /-- Takes up the transaction inside the fee bump. -/
  | unwrap

/-- Why a step fails. -/
inductive Fault where
  | badIntent
  | badContext
  | nothingTaken
  | notTransaction
  | notFeeBump
  | error (cause : Error)

/-- What a step tells. -/
inductive Answer where
  /-- The step is done; whether it found something to change. -/
  | done (changed : Bool)
  | bytes (bytes : List UInt8)
  | text (text : String)
  | signatures (signatures : List DecoratedSignature)
  | overview (signed : Signed Transaction)

instance : MonadLift (Except Error) (Except Fault) := ⟨(·.mapError .error)⟩

/-- The transaction of an intent and a context, both in JSON. -/
def buildOfJson (intent context : Json) : Except Fault Transaction := do
  let some intent := Intent.ofJson? intent | throw .badIntent
  let some context := Context.ofJson? context | throw .badContext
  intent.build context

/-! ## Steps in one state -/

/-- Calls a method of what the session works on, and goes on with what the call makes of it. -/
def calling {σ α : Type} (state : σ → State) (value : σ) (method : Method Error σ α) :
    Method Fault State α := do
  let (result, after) := method.call value
  -- what the call leaves is kept even if it fails
  set (state after)
  (result : Except Error α)

/-- A step that does the same to transactions and to fee bumps, if this is one. -/
def shared? {τ : Type} [Signable τ] (envelope : Signed τ → Envelope) (state : Signed τ → State)
    (signed : Signed τ) : Step → Option (Method Fault State Answer)
  | .sign source network => some do
    -- a key that cannot be read leaves the state alone
    let signer ← Signer.ofSource source
    calling state signed (Signed.sign signer network)
    return .done true
  | .addSignature signature => some do
    calling state signed (Signed.addSignature signature)
    return .done true
  | .hash network => some (return .bytes (signed.hash network).toList)
  | .signatureBase network => some (return .bytes (signed.signatureBase network))
  | .signatures => some (return .signatures signed.signatures)
  | .listing => some do
    let text ← ((envelope signed).toText : Except Error String)
    return .text text
  | _ => none

/-- The edit that a step makes to a transaction, if it makes one. -/
def edit? : Step → Option (Except Error Edit)
  | .setSorobanData data => some do
    return .setSorobanData (← SorobanData.layout.wire.ofBase64 data)
  | .addResourceFee fee => some (.ok (.addResourceFee fee))
  | .setAuthorizations entries => some do
    return .setAuthorizations (← entries.mapM Contract.Authorization.layout.wire.ofBase64)
  | .setFootprint footprint => some do
    return .setFootprint (← Footprint.layout.wire.ofBase64 footprint)
  | _ => none

/-- A step on a transaction that is no step on fee bumps. -/
def onTransaction (signed : Signed Transaction) (step : Step) : Method Fault State Answer :=
  match step with
  | .overview => return .overview signed
  | .bump feeSource fee => do
    let feeSource ← ((MuxedAccount.ofAddress feeSource : Except ValueError _) : Except Error _)
    let bump ← ((FeeBump.build feeSource fee signed : Except ValueError _) : Except Error _)
    -- the signatures inside stay, and the fee bump has none yet
    set (State.feeBump (.unsigned bump))
    return .done true
  | .feeSource | .unwrap => throw .notFeeBump
  | _ =>
    match edit? step with
    | none => throw .nothingTaken
    | some edit => do
      let edit ← edit
      return .done (← calling .transaction signed (Signed.edit edit))

/-- A step on a fee bump that is no step on transactions. -/
def onFeeBump (signed : Signed FeeBump) (step : Step) : Method Fault State Answer :=
  match step with
  | .feeSource => return .text signed.tx.feeSource.address
  | .unwrap => do
    -- the signatures of the fee bump are dropped, those inside come back
    set (State.transaction signed.tx.inner)
    return .done true
  | _ => throw .notTransaction

/-! ## Sessions -/

/-- Makes a step. -/
def step (step : Step) : Method Fault State Answer := do
  match step with
  | .takeEnvelope envelope =>
    set (State.transaction (← Signed.ofBase64 envelope))
    return .done true
  | .takeTransaction tx =>
    let tx ← (Transaction.layout.wire.ofBase64 tx : Except Error Transaction)
    set (State.transaction (.unsigned tx))
    return .done true
  | .takeFeeBump envelope =>
    set (State.feeBump (← Signed.bumpOfBase64 envelope))
    return .done true
  | .build intent context =>
    set (State.transaction (.unsigned (← buildOfJson intent context)))
    return .done true
  | _ =>
    -- all other steps need something to work on
    match ← get with
    | .empty => throw .nothingTaken
    | .transaction signed =>
      (shared? .transaction .transaction signed step).getD (onTransaction signed step)
    | .feeBump signed =>
      (shared? .feeBump .feeBump signed step).getD (onFeeBump signed step)

/-- Makes steps one after the other. -/
def run (state : State) (steps : List Step) : List (Call Step Fault State Answer) :=
  calls step state steps

end LedgerTx.Session
