import LedgerTx.Transaction.Draft

namespace LedgerTx

/-! # Intents

An intent says in everyday terms what a transaction shall do: amounts in units, assets and accounts by
their texts.  Intents that are combined in batches, however nested, make up one transaction. -/

/-- One thing to be done. -/
inductive Action where
  /-- Pay an account that exists. -/
  | payment (destination asset amount : String)
  /-- Open an account and pay its first balance in the native asset. -/
  | createAccount (destination startingBalance : String)
  /-- Trust in an asset up to a limit; without one, as far as possible. -/
  | changeTrust (asset : String) (limit : Option String)
  /-- Set a data entry to bytes in hexadecimal; without a value, delete it. -/
  | manageData (name : String) (value : Option String)
  /-- Close the account in favour of another. -/
  | accountMerge (destination : String)
  /-- Move the sequence number forward. -/
  | bumpSequence (bumpTo : Int64)
  /-- Call a contract's function; the arguments are contract values in base64. -/
  | invokeContract (contract function : String) (args : List String)
deriving DecidableEq

/-- What a transaction shall do. -/
inductive Intent where
  | action (action : Action)
  | batch (parts : List Intent)

namespace Intent

mutual

/-- The actions of an intent from left to right. -/
def actions : Intent → List Action
  | .action a => [a]
  | .batch parts => actionsOf parts

/-- The actions of a list of intents from left to right. -/
def actionsOf : List Intent → List Action
  | [] => []
  | part :: parts => part.actions ++ actionsOf parts

end

end Intent

/-- The memo of an intended transaction; hashes are in hexadecimal. -/
inductive MemoIntent where
  | text (text : String)
  | id (id : UInt64)
  | hash (hex : String)
  | return (hex : String)
deriving DecidableEq

/-- How an intended transaction is built. -/
structure Context where
  source : String
  sequence : Int64
  baseFee : UInt32
  memo : Option MemoIntent
  timeBounds : Option TimeBounds
deriving DecidableEq

end LedgerTx
