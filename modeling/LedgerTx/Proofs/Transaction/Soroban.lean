import LedgerTx.Proofs.Transaction.Edit

namespace LedgerTx

/-! # What simulations find out

The authorizations go to the first call of a host function, and the footprint to the contract data.
Nothing else is changed, and the last one that was set stands. -/

variable {operation : Operation} {operations authorized : List Operation}
  {auth auth' : List Contract.Authorization} {signed after : Signed Transaction}

/-! ## Kinds -/

/-- The kind of an operation says whether it calls a host function. -/
theorem Operation.kind_eq_invokeHostFunction :
    operation.kind = .invokeHostFunction ↔ ∃ call, operation.body = .invokeHostFunction call := by
  rcases operation with ⟨source, body⟩
  constructor
  · intro h
    cases body with
    | invokeHostFunction call => exact ⟨call, rfl⟩
    | _ => cases h
  · rintro ⟨call, rfl⟩
    rfl

namespace Transaction

/-- Three kinds of operations have to do with contracts. -/
theorem runsContracts_iff :
    runsContracts operation = true ↔ operation.kind = .invokeHostFunction
      ∨ operation.kind = .bumpFootprintExpiration ∨ operation.kind = .restoreFootprint := by
  unfold runsContracts
  split
  · rename_i h
    exact iff_of_true rfl (.inl h)
  · rename_i h
    exact iff_of_true rfl (.inr (.inl h))
  · rename_i h
    exact iff_of_true rfl (.inr (.inr h))
  · rename_i hinvoke hbump hrestore
    refine iff_of_false Bool.false_ne_true ?_
    rintro (h | h | h)
    · exact hinvoke h
    · exact hbump h
    · exact hrestore h

/-! ## Authorizations -/

/-- An operation that is no call of a host function is passed over. -/
theorem authorizeFirst?_cons_of_ne (h : operation.kind ≠ .invokeHostFunction) :
    authorizeFirst? auth (operation :: operations)
      = (authorizeFirst? auth operations).map (operation :: ·) := by
  rw [authorizeFirst?]
  split
  · rename_i call hbody
    exact absurd (Operation.kind_eq_invokeHostFunction.mpr ⟨call, hbody⟩) h
  · rfl

/-- Authorizations replace those of the first call of a host function, wherever it stands. -/
theorem authorizeFirst?_eq_some :
    authorizeFirst? auth operations = some authorized ↔
      ∃ before source call rest, operations = before ++ ⟨source, .invokeHostFunction call⟩ :: rest
        ∧ (∀ operation ∈ before, operation.kind ≠ .invokeHostFunction)
        ∧ authorized = before ++ ⟨source, .invokeHostFunction { call with auth }⟩ :: rest := by
  constructor
  · intro h
    induction operations generalizing authorized with
    | nil => cases h
    | cons operation operations ih =>
      -- the first operation is the call, or the call is among the others
      by_cases hkind : operation.kind = .invokeHostFunction
      · obtain ⟨call, hbody⟩ := Operation.kind_eq_invokeHostFunction.mp hkind
        rcases operation with ⟨source, body⟩
        cases hbody
        cases h
        exact ⟨[], source, call, operations, rfl, List.forall_mem_nil _, rfl⟩
      · rw [authorizeFirst?_cons_of_ne hkind] at h
        obtain ⟨authorized, hrest, rfl⟩ := Option.map_eq_some_iff.mp h
        obtain ⟨before, source, call, rest, rfl, hbefore, rfl⟩ := ih hrest
        exact ⟨operation :: before, source, call, rest, rfl,
          List.forall_mem_cons.mpr ⟨hkind, hbefore⟩, rfl⟩
  · rintro ⟨before, source, call, rest, rfl, hbefore, rfl⟩
    induction before with
    | nil => rfl
    | cons operation before ih =>
      obtain ⟨hkind, hbefore⟩ := List.forall_mem_cons.mp hbefore
      rw [List.cons_append, authorizeFirst?_cons_of_ne hkind, ih hbefore]
      rfl

/-- Without such a call nothing is authorized. -/
theorem authorizeFirst?_eq_none :
    authorizeFirst? auth operations = none ↔
      ∀ operation ∈ operations, operation.kind ≠ .invokeHostFunction := by
  induction operations with
  | nil => exact iff_of_true rfl (List.forall_mem_nil _)
  | cons operation operations ih =>
    rw [List.forall_mem_cons]
    by_cases hkind : operation.kind = .invokeHostFunction
    · obtain ⟨call, hbody⟩ := Operation.kind_eq_invokeHostFunction.mp hkind
      rcases operation with ⟨source, body⟩
      cases hbody
      exact iff_of_false nofun fun h => h.1 hkind
    · rw [authorizeFirst?_cons_of_ne hkind, Option.map_eq_none_iff, ih]
      exact (and_iff_right hkind).symm

/-- Authorizations make no operation run contracts that did not. -/
theorem any_runsContracts_authorized (h : authorizeFirst? auth operations = some authorized) :
    authorized.any runsContracts = operations.any runsContracts := by
  obtain ⟨before, source, call, rest, rfl, -, rfl⟩ := authorizeFirst?_eq_some.mp h
  rw [List.any_append, List.any_append, List.any_cons, List.any_cons]
  rfl

end Transaction

namespace Signed

open Transaction

/-- The authorizations are set if there is a call that they are for. -/
theorem call_setAuthorizations :
    (edit (.setAuthorizations auth)).call signed =
      match authorizeFirst? auth signed.tx.operations with
      | some operations => (.ok true, { signed with tx := { signed.tx with operations } })
      | none => (.ok false, signed) := by
  rw [edit, call_changeBody, setAuthorizations?]
  cases authorizeFirst? auth signed.tx.operations with
  | some operations => rfl
  | none => rfl

/-- If they are set, the first call has them and all else is as it was. -/
theorem call_setAuthorizations_eq_true :
    (edit (.setAuthorizations auth)).call signed = (.ok true, after) ↔
      ∃ before source call rest,
        signed.tx.operations = before ++ ⟨source, .invokeHostFunction call⟩ :: rest
          ∧ (∀ operation ∈ before, operation.kind ≠ .invokeHostFunction)
          ∧ after = { signed with tx := { signed.tx with
            operations := before ++ ⟨source, .invokeHostFunction { call with auth }⟩ :: rest } } := by
  rw [edit, call_changeBody_eq_true]
  constructor
  · rintro ⟨tx, hsome, rfl⟩
    obtain ⟨authorized, hfirst, rfl⟩ := Option.map_eq_some_iff.mp hsome
    obtain ⟨before, source, call, rest, hsplit, hbefore, rfl⟩ := authorizeFirst?_eq_some.mp hfirst
    exact ⟨before, source, call, rest, hsplit, hbefore, rfl⟩
  · rintro ⟨before, source, call, rest, hsplit, hbefore, rfl⟩
    have hfirst : authorizeFirst? auth signed.tx.operations = some _ :=
      authorizeFirst?_eq_some.mpr ⟨before, source, call, rest, hsplit, hbefore, rfl⟩
    exact ⟨_, Option.map_eq_some_iff.mpr ⟨_, hfirst, rfl⟩, rfl⟩

/-- If there is no call, nothing is changed, and this is told. -/
theorem call_setAuthorizations_eq_false :
    (edit (.setAuthorizations auth)).call signed = (.ok false, after) ↔
      (∀ operation ∈ signed.tx.operations, operation.kind ≠ .invokeHostFunction) ∧ after = signed := by
  rw [edit, call_changeBody_eq_false, setAuthorizations?, Option.map_eq_none_iff, authorizeFirst?_eq_none]

/-- The result tells whether there is a call of a host function. -/
theorem result_setAuthorizations_eq_true :
    ((edit (.setAuthorizations auth)).call signed).1 = .ok true ↔
      ∃ operation ∈ signed.tx.operations, operation.kind = .invokeHostFunction := by
  rw [call_setAuthorizations]
  cases hfirst : authorizeFirst? auth signed.tx.operations with
  | none =>
    refine iff_of_false nofun ?_
    rintro ⟨operation, hmem, hkind⟩
    exact authorizeFirst?_eq_none.mp hfirst operation hmem hkind
  | some authorized =>
    obtain ⟨before, source, call, rest, hsplit, -, -⟩ := authorizeFirst?_eq_some.mp hfirst
    refine iff_of_true rfl ?_
    rw [hsplit]
    exact ⟨_, List.mem_append_right before List.mem_cons_self, rfl⟩

/-- Authorizations that were set before make no difference. -/
theorem setAuthorizations_overrides (auth auth' : List Contract.Authorization) :
    (edit (.setAuthorizations auth')).Overrides (edit (.setAuthorizations auth)) := by
  intro signed
  have hcall : (edit (.setAuthorizations auth)).call signed = _ := call_setAuthorizations
  cases hfirst : authorizeFirst? auth signed.tx.operations with
  | none =>
    rw [hfirst] at hcall
    rw [hcall]
  | some authorized =>
    obtain ⟨before, source, call, rest, hsplit, hbefore, rfl⟩ := authorizeFirst?_eq_some.mp hfirst
    -- what stands before the call is no call, before and after
    have hset : (edit (.setAuthorizations auth')).call signed = (.ok true, _) :=
      call_setAuthorizations_eq_true.mpr ⟨before, source, call, rest, hsplit, hbefore, rfl⟩
    rw [hfirst] at hcall
    rw [hcall, hset]
    exact call_setAuthorizations_eq_true.mpr ⟨before, source, _, rest, rfl, hbefore, rfl⟩

/-! ## Footprints -/

/-- Contracts are run if some operation has to do with them. -/
theorem any_runsContracts_eq_true :
    operations.any runsContracts = true ↔ ∃ operation ∈ operations, operation.kind = .invokeHostFunction
      ∨ operation.kind = .bumpFootprintExpiration ∨ operation.kind = .restoreFootprint := by
  simp only [List.any_eq_true, runsContracts_iff]

/-- If the footprint is set, other contract data is kept, or starts empty. -/
theorem call_setFootprint_eq_true {footprint : Footprint} :
    (edit (.setFootprint footprint)).call signed = (.ok true, after) ↔
      (∃ operation ∈ signed.tx.operations, operation.kind = .invokeHostFunction
          ∨ operation.kind = .bumpFootprintExpiration ∨ operation.kind = .restoreFootprint)
        ∧ after = { signed with tx := { signed.tx with
          sorobanData := some (match signed.tx.sorobanData with
            | some data => { data with resources := { data.resources with footprint } }
            | none => ⟨.v0, ⟨footprint, 0, 0, 0, 0⟩, 0⟩) } } := by
  rw [edit, call_changeBody_eq_true, setFootprint?, ← any_runsContracts_eq_true]
  constructor
  · rintro ⟨tx, hsome, rfl⟩
    obtain ⟨hruns, hsome⟩ := Option.ite_none_right_eq_some.mp hsome
    cases hsome
    refine ⟨hruns, ?_⟩
    cases signed.tx.sorobanData with
    | some data => rfl
    | none => rfl
  · rintro ⟨hruns, rfl⟩
    refine ⟨_, if_pos hruns, ?_⟩
    cases signed.tx.sorobanData with
    | some data => rfl
    | none => rfl

/-- If no operation has to do with contracts, nothing is changed, and this is told. -/
theorem call_setFootprint_eq_false {footprint : Footprint} :
    (edit (.setFootprint footprint)).call signed = (.ok false, after) ↔
      (∀ operation ∈ signed.tx.operations, operation.kind ≠ .invokeHostFunction
          ∧ operation.kind ≠ .bumpFootprintExpiration ∧ operation.kind ≠ .restoreFootprint)
        ∧ after = signed := by
  have hnone : signed.tx.setFootprint? footprint = none ↔ ¬signed.tx.operations.any runsContracts = true := by
    unfold setFootprint?
    split
    · rename_i hruns
      exact iff_of_false nofun (not_not_intro hruns)
    · rename_i hruns
      exact iff_of_true rfl hruns
  rw [edit, call_changeBody_eq_false, hnone, any_runsContracts_eq_true]
  simp only [not_exists, not_and, not_or, ne_eq]

/-- A footprint that was set before makes no difference. -/
theorem setFootprint_overrides (footprint footprint' : Footprint) :
    (edit (.setFootprint footprint')).Overrides (edit (.setFootprint footprint)) := by
  intro signed
  by_cases hruns : ∃ operation ∈ signed.tx.operations, operation.kind = .invokeHostFunction
      ∨ operation.kind = .bumpFootprintExpiration ∨ operation.kind = .restoreFootprint
  · have hset : ∀ footprint, (edit (.setFootprint footprint)).call signed = (.ok true, _) :=
      fun footprint => call_setFootprint_eq_true.mpr ⟨hruns, rfl⟩
    -- the second footprint replaces the first, in the same contract data
    rw [hset, hset]
    refine call_setFootprint_eq_true.mpr ⟨hruns, ?_⟩
    cases signed.tx.sorobanData with
    | some data => rfl
    | none => rfl
  · simp only [not_exists, not_and, not_or] at hruns
    have hfalse : (edit (.setFootprint footprint)).call signed = (.ok false, signed) :=
      call_setFootprint_eq_false.mpr ⟨hruns, rfl⟩
    rw [hfalse]

end Signed

end LedgerTx
