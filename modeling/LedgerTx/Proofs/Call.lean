import LedgerTx.Call

namespace LedgerTx

/-! # Laws of calls

What a method does is worked out from what its parts do, and what a run of calls does from what each of
them does. -/

variable {ε σ α β κ : Type}

/-- Another answer in place of a result leaves the failures as they are. -/
theorem Except.map_eq_error {result : Except ε α} {f : α → β} {cause : ε} :
    result.map f = .error cause ↔ result = .error cause := by
  cases result with
  | ok a =>
    constructor
    · intro h
      cases h
    · intro h
      cases h
  | error cause' =>
    constructor
    · intro h
      cases h
      rfl
    · intro h
      rw [h]
      rfl

namespace Method

/-! ## Parts of methods -/

section

variable {value after : σ} {a : α} {cause : ε}

@[simp]
theorem call_set : (set after : Method ε σ PUnit).call value = (.ok (), after) := rfl

/-- After the first part has failed, the second is not called. -/
theorem call_bind {first : Method ε σ α} {second : α → Method ε σ β} :
    (first >>= second).call value =
      match first.call value with
      | (.ok a, between) => (second a).call between
      | (.error cause, between) => (.error cause, between) := by
  simp only [call, EStateM.run, bind, EStateM.bind]
  cases first value with
  | ok a between => rfl
  | error cause between => rfl

/-- A method that tells the same whatever its first part tells. -/
@[simp]
theorem call_bind_pure {first : Method ε σ α} {b : β} :
    (first >>= fun _ => pure b).call value =
      ((first.call value).1.map fun _ => b, (first.call value).2) := by
  rw [call_bind]
  rcases first.call value with ⟨result, after⟩
  cases result with
  | ok a => rfl
  | error cause => rfl

/-- A method that first looks at the value. -/
@[simp]
theorem call_get_bind {next : σ → Method ε σ α} :
    (get >>= next).call value = (next value).call value := rfl

/-- A method that first computes what does not hang on the value. -/
@[simp]
theorem call_lift_bind {x : Except ε α} {next : α → Method ε σ β} :
    (liftM x >>= next).call value =
      match x with
      | .ok a => (next a).call value
      | .error cause => (.error cause, value) := by
  cases x with
  | ok a => rfl
  | error cause => rfl

/-- What follows a failure is not called. -/
@[simp]
theorem call_throw_bind {next : α → Method ε σ β} :
    (throw cause >>= next).call value = (.error cause, value) := rfl

/-- A choice between methods is a choice between their calls. -/
@[simp]
theorem call_ite {c : Prop} [Decidable c] {method method' : Method ε σ α} :
    (if c then method else method').call value
      = if c then method.call value else method'.call value :=
  apply_ite (call · value) c method method'

end

/-! ## Calls after calls -/

/-- A method that does the same whether the other one has been called or not. -/
def Overrides (last first : Method ε σ α) : Prop :=
  ∀ value, last.call (first.call value).2 = last.call value

/-- Two methods of which it does not matter which is called first. -/
structure Commutes (method method' : Method ε σ α) : Prop where
  after : ∀ value, (method'.call (method.call value).2).2 = (method.call (method'.call value).2).2
  /-- What the one tells does not hang on the other. -/
  result : ∀ value, (method.call (method'.call value).2).1 = (method.call value).1
  result' : ∀ value, (method'.call (method.call value).2).1 = (method'.call value).1

theorem Commutes.symm {method method' : Method ε σ α} (h : Commutes method method') :
    Commutes method' method where
  after value := (h.after value).symm
  result := h.result'
  result' := h.result

end Method

/-! ## Runs -/

variable {method : κ → Method ε σ α} {value : σ} {requests requests' : List κ}

/-- A run is its first call and the run from what that call leaves. -/
theorem calls_cons {request : κ} :
    calls method value (request :: requests)
      = ⟨request, value, ((method request).call value).1, ((method request).call value).2⟩
        :: calls method ((method request).call value).2 requests := rfl

/-- What a run leaves is what the rest leaves after its first call. -/
theorem afterCalls_cons {request : κ} :
    afterCalls method value (request :: requests)
      = afterCalls method ((method request).call value).2 requests := rfl

/-- Each call of a run is a call of the method. -/
theorem call_of_mem_calls {call : Call κ ε σ α} (h : call ∈ calls method value requests) :
    (method call.request).call call.before = (call.result, call.after) := by
  induction requests generalizing value with
  | nil => cases h
  | cons request requests ih =>
    rcases List.mem_cons.mp h with rfl | h
    · rfl
    · exact ih h

/-- In a run of methods that commute, each call tells what it would tell alone. -/
theorem results_of_commutes
    (h : requests.Pairwise fun request request' => (method request).Commutes (method request')) :
    (calls method value requests).map Call.result
      = requests.map fun request => ((method request).call value).1 := by
  induction requests generalizing value with
  | nil => rfl
  | cons request requests ih =>
    obtain ⟨hrequest, hrest⟩ := List.pairwise_cons.mp h
    rw [calls_cons, List.map_cons, List.map_cons, ih hrest]
    -- the first call changes nothing about what the later ones tell
    have hresults : ∀ later ∈ requests, ((method later).call ((method request).call value).2).1
        = ((method later).call value).1 := fun later hlater => (hrequest later hlater).result' value
    rw [List.map_congr_left hresults]

/-- Methods that commute make the same of a value in any order. -/
theorem afterCalls_perm (hperm : requests.Perm requests')
    (h : requests.Pairwise fun request request' => (method request).Commutes (method request')) :
    afterCalls method value requests = afterCalls method value requests' := by
  -- along the swaps that make up the reordering
  induction hperm generalizing value with
  | nil => rfl
  | cons request _ ih =>
    rw [afterCalls_cons, afterCalls_cons]
    exact ih (List.pairwise_cons.mp h).2
  | swap request request' requests =>
    have hcommutes := (List.pairwise_cons.mp h).1 request List.mem_cons_self
    rw [afterCalls_cons, afterCalls_cons, afterCalls_cons, afterCalls_cons, hcommutes.after]
  | trans hperm _ ih ih' =>
    rw [ih h]
    exact ih' ((hperm.pairwise_iff Method.Commutes.symm).mp h)

end LedgerTx
