import LedgerTx.Transaction.Envelope

namespace LedgerTx.Transaction

/-! # Contract parts of a transaction

A transaction that runs contracts is simulated first; what the simulation finds out is then put into the
transaction. -/

/-- Attaches contract data. -/
def setSorobanData (tx : Transaction) (data : SorobanData) : Transaction :=
  { tx with sorobanData := some data }

/-- The operations with other authorizations for the first call of a host function, if there is one. -/
def authorizeFirst? (auth : List Contract.Authorization) : List Operation → Option (List Operation)
  | [] => none
  | operation :: rest =>
    match operation.body with
    -- calls after the first keep what they have
    | .invokeHostFunction call =>
      some ({ operation with body := .invokeHostFunction { call with auth } } :: rest)
    | _ => (authorizeFirst? auth rest).map (operation :: ·)

/-- Replaces the authorizations of the first call of a host function; there may be none. -/
def setAuthorizations? (tx : Transaction) (auth : List Contract.Authorization) :
    Option Transaction :=
  (authorizeFirst? auth tx.operations).map fun operations => { tx with operations }

/-- Whether an operation has to do with contracts. -/
def runsContracts (operation : Operation) : Bool :=
  match operation.kind with
  | .invokeHostFunction | .bumpFootprintExpiration | .restoreFootprint => true
  | _ => false

/-- Replaces the footprint in the contract data, if any operation has to do with contracts; data that
is missing is filled in as empty. -/
def setFootprint? (tx : Transaction) (footprint : Footprint) : Option Transaction :=
  if tx.operations.any runsContracts then
    let data := tx.sorobanData.getD .empty
    some (tx.setSorobanData { data with resources := { data.resources with footprint } })
  else none

end LedgerTx.Transaction
