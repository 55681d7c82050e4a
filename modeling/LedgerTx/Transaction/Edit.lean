import LedgerTx.Transaction.Signed
import LedgerTx.Transaction.Soroban

namespace LedgerTx

/-! # Edits

What can be done to a transaction between being made and being submitted. -/

/-- Adding a signature. -/
inductive Endorsement where
  | sign (signer : Signer) (network : Network)
  | add (signature : DecoratedSignature)

/-- A change to a transaction. -/
inductive Edit where
  | endorse (endorsement : Endorsement)
  | addResourceFee (fee : UInt32)
  | setSorobanData (data : SorobanData)
  | setAuthorizations (auth : List Contract.Authorization)
  | setFootprint (footprint : Footprint)

namespace Signed

/-- Adds a signature. -/
def endorse {τ : Type} [Signable τ] : Endorsement → Method Error (Signed τ) Unit
  | .sign signer network => sign signer network
  | .add signature => addSignature signature

/-- Adds to the fee what resources cost. -/
def addResourceFee (fee : UInt32) : Method Error (Signed Transaction) Unit := do
  let signed ← get
  let total := signed.tx.fee.toNat + fee.toNat
  if UInt32.size ≤ total then throw (.value (.argument .feeOverflow))
  set { signed with tx := { signed.tx with fee := UInt32.ofNat total } }

/-- Changes what is signed, and says whether there is anything to be changed that way. -/
def changeBody (change? : Transaction → Option Transaction) : Method Error (Signed Transaction) Bool := do
  let signed ← get
  match change? signed.tx with
  | some tx =>
    set { signed with tx }
    return true
  | none => return false

/-- Makes a change, and says whether the transaction has anything to be changed that way. -/
def edit : Edit → Method Error (Signed Transaction) Bool
  | .endorse endorsement => do
    endorse endorsement
    return true
  | .addResourceFee fee => do
    addResourceFee fee
    return true
  | .setSorobanData data => changeBody fun tx => some (tx.setSorobanData data)
  | .setAuthorizations auth => changeBody fun tx => tx.setAuthorizations? auth
  | .setFootprint footprint => changeBody fun tx => tx.setFootprint? footprint

end Signed

end LedgerTx
