namespace LedgerTx

/-! # Calls

A method changes the value that it is called on, and gives a result or fails.  Nothing is taken back by
a failure: what the method has changed until then stays changed. -/

variable {ε σ α κ : Type}

/-- A method of values of type `σ`. -/
abbrev Method (ε σ α : Type) := EStateM ε σ α

instance : MonadLift (Except ε) (Method ε σ) := ⟨ofExcept⟩

/-- What a call gives, and what it makes of the value. -/
def Method.call (method : Method ε σ α) (value : σ) : Except ε α × σ :=
  match method.run value with
  | .ok a after => (.ok a, after)
  | .error cause after => (.error cause, after)

/-- A call of one of the methods `κ`, as part of a run. -/
structure Call (κ ε σ α : Type) where
  request : κ
  before : σ
  result : Except ε α
  after : σ

/-- Calls one after the other, each on what the one before it has left. -/
def calls (method : κ → Method ε σ α) (value : σ) : List κ → List (Call κ ε σ α)
  | [] => []
  | request :: requests =>
    let (result, after) := (method request).call value
    ⟨request, value, result, after⟩ :: calls method after requests

/-- What calls make of a value. -/
def afterCalls (method : κ → Method ε σ α) (value : σ) (requests : List κ) : σ :=
  requests.foldl (fun value request => ((method request).call value).2) value

end LedgerTx
