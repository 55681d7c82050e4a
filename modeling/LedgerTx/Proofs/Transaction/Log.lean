import Mathlib.Data.List.Forall2
import LedgerTx.Proofs.Transaction.Edit

namespace LedgerTx

/-! # Signatures are a log

Edits add to the signatures at their end only, one entry for each endorsement that succeeds.  An edit
that fails does nothing. -/

variable {τ κ α : Type}

/-! ## Single calls -/

namespace Edit

/-- The endorsement that an edit makes, if it makes one. -/
def endorsement? : Edit → Option Endorsement
  | .endorse endorsement => some endorsement
  | _ => none

/-- Why an edit fails. -/
inductive Refused (signed : Signed Transaction) : Edit → Error → Prop
  | endorse {endorsement : Endorsement} {cause : Error} (h : endorsement.Refused .transaction signed cause) :
      Refused signed (.endorse endorsement) cause
  | feeOverflow {fee : UInt32} (h : UInt32.size ≤ signed.tx.fee.toNat + fee.toNat) :
      Refused signed (.addResourceFee fee) (.value (.argument .feeOverflow))

end Edit

section

variable {subject : τ → Subject} {endorsement? : κ → Option Endorsement}
  {Refused : Signed τ → κ → Error → Prop}

/-- What a call may do to a signed value, where `subject` tells what of a value is signed, `endorsement?`
which calls make an endorsement, and `Refused` why calls fail. -/
structure Call.Logs (subject : τ → Subject) (endorsement? : κ → Option Endorsement)
    (Refused : Signed τ → κ → Error → Prop) (call : Call κ Error (Signed τ) α) : Prop where
  fails : ∀ cause, call.result = .error cause ↔ Refused call.before call.request cause
  /-- A failing call does nothing. -/
  atomic : ∀ cause, call.result = .error cause → call.after = call.before
  /-- What is signed is not changed by signing it. -/
  tx : ∀ endorsement, endorsement? call.request = some endorsement → call.after.tx = call.before.tx
  entry : ∀ endorsement, endorsement? call.request = some endorsement → ∀ a, call.result = .ok a →
    ∃ entry, endorsement.Makes (subject call.before.tx) entry
      ∧ call.after.signatures = call.before.signatures ++ [entry]
  /-- Other calls change no signatures. -/
  signatures : endorsement? call.request = none → call.after.signatures = call.before.signatures

/-- A call that fails does nothing, and has one reason to fail. -/
theorem Call.logs_of_error {call : Call κ Error (Signed τ) α} {cause : Error}
    (hfails : call.result = .error cause)
    (hrefused : ∀ cause', Refused call.before call.request cause' ↔ cause' = cause)
    (hatomic : call.after = call.before) : call.Logs subject endorsement? Refused := by
  constructor
  · intro cause'
    rw [hfails, hrefused]
    constructor
    · intro heq
      cases heq
      rfl
    · intro heq
      rw [heq]
  · intro _ _
    exact hatomic
  · intro _ _
    rw [hatomic]
  · intro _ _ a hok
    rw [hfails] at hok
    cases hok
  · intro _
    rw [hatomic]

/-- A call that succeeds and has no reason to fail. -/
theorem Call.logs_of_ok {call : Call κ Error (Signed τ) α} {a : α} (hok : call.result = .ok a)
    (hnever : ∀ cause, ¬Refused call.before call.request cause)
    (hendorse : ∀ endorsement, endorsement? call.request = some endorsement →
      ∃ entry, endorsement.Makes (subject call.before.tx) entry
        ∧ call.after = ⟨call.before.tx, call.before.signatures ++ [entry]⟩)
    (hchange : endorsement? call.request = none → call.after.signatures = call.before.signatures) :
    call.Logs subject endorsement? Refused := by
  constructor
  · intro cause
    rw [hok]
    constructor
    · intro hfails
      cases hfails
    · intro hrefused
      exact absurd hrefused (hnever cause)
  · intro cause hfails
    rw [hok] at hfails
    cases hfails
  · intro endorsement hsome
    obtain ⟨entry, -, hafter⟩ := hendorse endorsement hsome
    rw [hafter]
  · intro endorsement hsome _ _
    obtain ⟨entry, hmakes, hafter⟩ := hendorse endorsement hsome
    rw [hafter]
    -- what is appended is the entry that the endorsement makes
    exact ⟨entry, hmakes, rfl⟩
  · exact hchange

/-- An endorsement keeps the law, on transactions and fee bumps alike. -/
theorem Call.logs_of_endorse [Signable τ] {call : Call Endorsement Error (Signed τ) Unit}
    (h : (Signed.endorse call.request).call call.before = (call.result, call.after)) :
    call.Logs Signable.subject some (Endorsement.Refused Signable.subject) := by
  have hrefused : ∀ cause, Endorsement.Refused Signable.subject call.before call.request cause →
      call.result = .error cause := by
    intro cause hrefused
    have hfails := Signed.call_endorse_eq_error.mpr ⟨hrefused, rfl⟩
    rw [h] at hfails
    exact (Prod.mk.inj hfails).1
  cases hresult : call.result with
  | ok u =>
    -- the signatures have one entry more, and there was no reason to fail
    rw [hresult] at h hrefused
    obtain ⟨entry, hmakes, -, -, hafter⟩ := Signed.call_endorse_eq_ok.mp h
    refine logs_of_ok hresult (fun cause hcause => ?_) (fun endorsement hsome => ?_) (fun hnone => ?_)
    · cases hrefused cause hcause
    · cases hsome
      exact ⟨entry, hmakes, hafter⟩
    · cases hnone
  | error cause =>
    -- a second reason to fail would be a second result
    rw [hresult] at h hrefused
    obtain ⟨hcause, hafter⟩ := Signed.call_endorse_eq_error.mp h
    refine logs_of_error hresult (fun cause' => ?_) hafter
    constructor
    · intro hcause'
      cases hrefused cause' hcause'
      rfl
    · intro heq
      rw [heq]
      exact hcause

/-- An endorsement does the same as an edit. -/
theorem Call.Logs.edit {call : Call Endorsement Error (Signed Transaction) Unit}
    (h : call.Logs Subject.transaction some (Endorsement.Refused .transaction)) :
    Call.Logs Subject.transaction Edit.endorsement? Edit.Refused
      ⟨.endorse call.request, call.before, call.result.map fun _ => true, call.after⟩ := by
  -- the edit is refused for the reason that the endorsement is refused for
  constructor
  · intro cause
    rw [Except.map_eq_error, h.fails]
    constructor
    · exact Edit.Refused.endorse
    · intro hrefused
      cases hrefused with
      | endorse hrefused => exact hrefused
  · intro cause hfails
    exact h.atomic cause (Except.map_eq_error.mp hfails)
  · intro endorsement hsome
    cases hsome
    exact h.tx _ rfl
  · intro endorsement hsome a hok
    cases hsome
    cases hresult : call.result with
    | ok u => exact h.entry _ rfl u hresult
    | error cause =>
      rw [hresult] at hok
      cases hok
  · intro hnone
    cases hnone

/-- A change that succeeds and leaves the signatures alone. -/
theorem Call.logs_of_change {call : Call Edit Error (Signed Transaction) Bool} {changed : Bool}
    (hok : call.result = .ok changed) (hchange : call.request.endorsement? = none)
    (hnever : ∀ cause, ¬Edit.Refused call.before call.request cause)
    (hsignatures : call.after.signatures = call.before.signatures) :
    call.Logs Subject.transaction Edit.endorsement? Edit.Refused := by
  refine logs_of_ok hok hnever (fun endorsement hsome => ?_) (fun _ => hsignatures)
  rw [hchange] at hsome
  cases hsome

/-- An edit that only changes the transaction keeps the law. -/
theorem Call.logs_of_changeBody {edit : Edit} (change? : Transaction → Option Transaction)
    {before after : Signed Transaction} {result : Except Error Bool}
    (hedit : Signed.edit edit = Signed.changeBody change?) (hchange : edit.endorsement? = none)
    (hnever : ∀ cause, ¬Edit.Refused before edit cause)
    (h : (Signed.edit edit).call before = (result, after)) :
    Call.Logs Subject.transaction Edit.endorsement? Edit.Refused ⟨edit, before, result, after⟩ := by
  rw [hedit, Signed.call_changeBody] at h
  split at h
  · cases h
    exact logs_of_change rfl hchange hnever rfl
  · cases h
    exact logs_of_change rfl hchange hnever rfl

/-- One case for each kind of edit. -/
theorem Call.logs_of_edit {call : Call Edit Error (Signed Transaction) Bool}
    (h : (Signed.edit call.request).call call.before = (call.result, call.after)) :
    call.Logs Subject.transaction Edit.endorsement? Edit.Refused := by
  rcases call with ⟨edit, before, result, after⟩
  cases edit with
  | endorse endorsement =>
    -- an endorsement keeps the law before it is wrapped as an edit
    rcases hcall : (Signed.endorse endorsement).call before with ⟨endorsed, between⟩
    simp only [Signed.edit, Method.call_bind_pure, hcall] at h
    rcases Prod.mk.inj h with ⟨rfl, hafter⟩
    subst hafter
    have hlogs : Call.Logs Subject.transaction some (Endorsement.Refused .transaction)
        ⟨endorsement, before, endorsed, between⟩ :=
      Call.logs_of_endorse hcall
    exact hlogs.edit
  | addResourceFee fee =>
    simp only [Signed.edit, Method.call_bind_pure, Signed.call_addResourceFee] at h
    split at h
    -- the sum does not fit, and this is the only reason
    · rename_i hoverflow
      cases h
      refine logs_of_error rfl (fun cause => ?_) rfl
      constructor
      · intro hrefused
        cases hrefused
        rfl
      · rintro rfl
        exact .feeOverflow hoverflow
    · rename_i hroom
      cases h
      refine logs_of_change rfl rfl (fun cause hrefused => ?_) rfl
      cases hrefused with
      | feeOverflow hoverflow => exact hroom hoverflow
  | setSorobanData data =>
    refine logs_of_changeBody (fun tx => some (tx.setSorobanData data)) rfl rfl (fun cause hrefused => ?_) h
    cases hrefused
  | setAuthorizations auth =>
    refine logs_of_changeBody (fun tx => tx.setAuthorizations? auth) rfl rfl (fun cause hrefused => ?_) h
    cases hrefused
  | setFootprint footprint =>
    refine logs_of_changeBody (fun tx => tx.setFootprint? footprint) rfl rfl (fun cause hrefused => ?_) h
    cases hrefused

end

/-! ## Runs -/

/-- Whether a call made an endorsement. -/
def Call.endorsed (endorsement? : κ → Option Endorsement) (call : Call κ Error (Signed τ) α) : Bool :=
  (endorsement? call.request).isSome && call.result.isOk

/-- Whether an entry is that of the endorsement that a call made. -/
def Call.Adds (subject : τ → Subject) (endorsement? : κ → Option Endorsement)
    (call : Call κ Error (Signed τ) α) (entry : DecoratedSignature) : Prop :=
  ∃ endorsement, endorsement? call.request = some endorsement
    ∧ endorsement.Makes (subject call.before.tx) entry

/-- How runs of calls treat signed values. -/
structure AppendOnly (subject : τ → Subject) (endorsement? : κ → Option Endorsement)
    (Refused : Signed τ → κ → Error → Prop) (method : κ → Method Error (Signed τ) α) : Prop where
  logs : ∀ signed requests, ∀ call ∈ calls method signed requests, call.Logs subject endorsement? Refused
  /-- The calls that made an endorsement have one entry each, in their order. -/
  log : ∀ signed requests, ∃ log, (afterCalls method signed requests).signatures = signed.signatures ++ log
    ∧ List.Forall₂ (Call.Adds subject endorsement?)
        ((calls method signed requests).filter (Call.endorsed endorsement?)) log

/-- What holds of each call makes a log of a run. -/
theorem AppendOnly.of_logs {subject : τ → Subject} {endorsement? : κ → Option Endorsement}
    {Refused : Signed τ → κ → Error → Prop} {method : κ → Method Error (Signed τ) α}
    (h : ∀ {call : Call κ Error (Signed τ) α},
      (method call.request).call call.before = (call.result, call.after) →
        call.Logs subject endorsement? Refused) :
    AppendOnly subject endorsement? Refused method := by
  constructor
  · intro signed requests call hmem
    exact h (call_of_mem_calls hmem)
  · intro signed requests
    -- on the calls: each one adds its entry in front of those of the calls after it
    induction requests generalizing signed with
    | nil => exact ⟨[], (List.append_nil _).symm, .nil⟩
    | cons request requests ih =>
      rcases hcall : (method request).call signed with ⟨result, after⟩
      have hlogs : Call.Logs subject endorsement? Refused ⟨request, signed, result, after⟩ := h hcall
      have hcalls : calls method signed (request :: requests)
          = ⟨request, signed, result, after⟩ :: calls method after requests := by
        rw [calls, hcall]
      have hafter : afterCalls method signed (request :: requests) = afterCalls method after requests := by
        rw [afterCalls, List.foldl_cons, hcall]
        rfl
      rcases ih after with ⟨log, hlog, hentries⟩
      rw [hcalls, hafter, hlog]
      cases hrequest : endorsement? request with
      | none =>
        -- another kind of call
        have hsignatures : after.signatures = signed.signatures := hlogs.signatures hrequest
        refine ⟨log, by rw [hsignatures], ?_⟩
        rw [List.filter_cons_of_neg (by simp [Call.endorsed, hrequest])]
        exact hentries
      | some endorsement =>
        cases result with
        | ok a =>
          -- the call made an endorsement, so the log begins with its entry
          rcases hlogs.entry endorsement hrequest a rfl with ⟨entry, hmakes, hsignatures⟩
          refine ⟨entry :: log, ?_, ?_⟩
          · show after.signatures ++ log = signed.signatures ++ (entry :: log)
            rw [hsignatures, List.append_assoc]
            rfl
          · rw [List.filter_cons_of_pos (by simp [Call.endorsed, hrequest, Except.isOk, Except.toBool])]
            exact .cons ⟨endorsement, hrequest, hmakes⟩ hentries
        | error cause =>
          -- a call that failed has no entry
          have hatomic : after = signed := hlogs.atomic cause rfl
          refine ⟨log, by rw [hatomic], ?_⟩
          rw [List.filter_cons_of_neg (by simp [Call.endorsed, Except.isOk, Except.toBool])]
          exact hentries

/-- Whatever is done to transactions and fee bumps, their signatures are a log. -/
theorem Signed.signatures_appendOnly :
    AppendOnly Subject.transaction Edit.endorsement? Edit.Refused Signed.edit
      ∧ AppendOnly Subject.feeBump some (Endorsement.Refused Subject.feeBump)
        (Signed.endorse : Endorsement → Method Error (Signed FeeBump) Unit) := by
  constructor
  · exact AppendOnly.of_logs Call.logs_of_edit
  · exact AppendOnly.of_logs Call.logs_of_endorse

end LedgerTx
