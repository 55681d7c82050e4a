import LedgerTx.Proofs.Transaction.Fee
import LedgerTx.Proofs.Transaction.Soroban

namespace LedgerTx

/-! # Edits of different parts

Each edit writes to one place.  Apart from that place it looks at most at whether the transaction runs
contracts, which no edit changes.  So edits of different places can be made in any order.  Signing is not
among them: it looks at the whole transaction. -/

/-- Whether any operation of a transaction has to do with contracts. -/
abbrev Signed.runsContracts (signed : Signed Transaction) : Bool :=
  signed.tx.operations.any Transaction.runsContracts

/-! ## Places -/

namespace Edit

/-- Where edits write to. -/
inductive Place where
  | signatures
  | fee
  | operations
  | sorobanData
deriving DecidableEq

namespace Place

/-- What stands at a place. -/
abbrev Held : Place → Type
  | .signatures => List DecoratedSignature
  | .fee => UInt32
  | .operations => List Operation
  | .sorobanData => Option SorobanData

/-- Reads what stands at a place. -/
def get (signed : Signed Transaction) : (place : Place) → place.Held
  | .signatures => signed.signatures
  | .fee => signed.tx.fee
  | .operations => signed.tx.operations
  | .sorobanData => signed.tx.sorobanData

/-- Writes to a place. -/
def put (signed : Signed Transaction) : (place : Place) → place.Held → Signed Transaction
  | .signatures, held => { signed with signatures := held }
  | .fee, held => { signed with tx := { signed.tx with fee := held } }
  | .operations, held => { signed with tx := { signed.tx with operations := held } }
  | .sorobanData, held => { signed with tx := { signed.tx with sorobanData := held } }

variable {signed : Signed Transaction} {place place' : Place}

@[simp]
theorem get_put {held : place.Held} : place.get (place.put signed held) = held := by
  cases place <;> rfl

/-- What stands at another place is not changed. -/
theorem get_put_of_ne (h : place ≠ place') {held : place.Held} :
    place'.get (place.put signed held) = place'.get signed := by
  cases place <;> cases place' <;> first | rfl | exact absurd rfl h

theorem put_comm (h : place ≠ place') {held : place.Held} {held' : place'.Held} :
    place'.put (place.put signed held) held' = place.put (place'.put signed held') held := by
  cases place <;> cases place' <;> first | rfl | exact absurd rfl h

end Place

/-- The only place that an edit writes to, unless it hangs on the whole transaction. -/
def place? : Edit → Option Place
  | .endorse (.sign _ _) => none
  | .endorse (.add _) => some .signatures
  | .addResourceFee _ => some .fee
  | .setAuthorizations _ => some .operations
  | .setSorobanData _ | .setFootprint _ => some .sorobanData

/-- Edits that write to one place each, and not to the same. -/
def Apart (edit edit' : Edit) : Prop :=
  edit.place?.isSome ∧ edit'.place?.isSome ∧ edit.place? ≠ edit'.place?

instance (edit edit' : Edit) : Decidable (Apart edit edit') := inferInstanceAs (Decidable (_ ∧ _ ∧ _))

/-! ## Acting on a place -/

/-- What an edit may read and write. -/
structure ActsOn (edit : Edit) (place : Place) : Prop where
  /-- It writes to no other place. -/
  frame : ∀ signed, ∃ held, ((Signed.edit edit).call signed).2 = place.put signed held
  /-- What it does hangs on what stands at the place, and on whether the transaction runs contracts. -/
  reads : ∀ signed signed', place.get signed = place.get signed' →
    signed.runsContracts = signed'.runsContracts →
    ((Signed.edit edit).call signed).1 = ((Signed.edit edit).call signed').1
      ∧ place.get ((Signed.edit edit).call signed).2 = place.get ((Signed.edit edit).call signed').2
  /-- It does not make contracts run, or stop to. -/
  runs : ∀ signed, ((Signed.edit edit).call signed).2.runsContracts = signed.runsContracts

variable {edit edit' : Edit} {place place' : Place}

/-- An edit that computes what it tells and writes from what it reads. -/
theorem ActsOn.of_eq (act : Bool → place.Held → Except Error Bool × place.Held)
    (hcall : ∀ signed, (Signed.edit edit).call signed
      = Prod.map id (place.put signed) (act signed.runsContracts (place.get signed)))
    (hruns : ∀ signed, ((Signed.edit edit).call signed).2.runsContracts = signed.runsContracts) :
    edit.ActsOn place where
  frame signed := ⟨_, congrArg Prod.snd (hcall signed)⟩
  reads signed signed' hget hcontracts := by
    rw [hcall, hcall, hget, hcontracts]
    exact ⟨rfl, Place.get_put.trans Place.get_put.symm⟩
  runs := hruns

/-- What an edit has written is all that it has changed. -/
theorem ActsOn.put_eq (h : edit.ActsOn place) (signed : Signed Transaction) :
    place.put signed (place.get ((Signed.edit edit).call signed).2) = ((Signed.edit edit).call signed).2 := by
  obtain ⟨held, hafter⟩ := h.frame signed
  rw [hafter, Place.get_put]

/-- An edit does the same after an edit of another place. -/
theorem ActsOn.call_after (h : edit.ActsOn place) (h' : edit'.ActsOn place') (hne : place ≠ place')
    (signed : Signed Transaction) :
    ((Signed.edit edit').call ((Signed.edit edit).call signed).2).1 = ((Signed.edit edit').call signed).1
      ∧ ((Signed.edit edit').call ((Signed.edit edit).call signed).2).2
        = place'.put ((Signed.edit edit).call signed).2
          (place'.get ((Signed.edit edit').call signed).2) := by
  -- the first edit has left the place of the second as it was
  have hget : place'.get ((Signed.edit edit).call signed).2 = place'.get signed := by
    rw [← h.put_eq, Place.get_put_of_ne hne]
  obtain ⟨hresult, hheld⟩ := h'.reads _ _ hget (h.runs signed)
  refine ⟨hresult, ?_⟩
  rw [← hheld, h'.put_eq]

/-- Edits of different places can be made in either order. -/
theorem ActsOn.commutes (h : edit.ActsOn place) (h' : edit'.ActsOn place') (hne : place ≠ place') :
    (Signed.edit edit).Commutes (Signed.edit edit') where
  after signed := by
    -- either order writes to both places what the edits would write there alone
    rw [(h.call_after h' hne signed).2, (h'.call_after h hne.symm signed).2]
    calc place'.put ((Signed.edit edit).call signed).2 (place'.get ((Signed.edit edit').call signed).2)
        = place'.put (place.put signed (place.get ((Signed.edit edit).call signed).2))
            (place'.get ((Signed.edit edit').call signed).2) := by rw [h.put_eq]
      _ = place.put (place'.put signed (place'.get ((Signed.edit edit').call signed).2))
            (place.get ((Signed.edit edit).call signed).2) := Place.put_comm hne
      _ = place.put ((Signed.edit edit').call signed).2 (place.get ((Signed.edit edit).call signed).2) := by
        rw [h'.put_eq]
  result signed := (h'.call_after h hne.symm signed).1
  result' signed := (h.call_after h' hne signed).1

/-! ## Where edits act -/

/-- An edit that writes nothing to the operations. -/
theorem ActsOn.of_eq_of_ne (hplace : place ≠ .operations)
    (act : Bool → place.Held → Except Error Bool × place.Held)
    (hcall : ∀ signed, (Signed.edit edit).call signed
      = Prod.map id (place.put signed) (act signed.runsContracts (place.get signed))) :
    edit.ActsOn place := by
  refine .of_eq act hcall fun signed => ?_
  rw [hcall]
  exact congrArg (List.any · Transaction.runsContracts) (Place.get_put_of_ne hplace)

/-- A signature that was made elsewhere is added whatever the transaction is. -/
theorem actsOn_add (signature : DecoratedSignature) :
    (Edit.endorse (.add signature)).ActsOn .signatures := by
  refine .of_eq_of_ne nofun (fun _ signatures =>
    if Signed.maxSignatures ≤ signatures.length then
      (.error (.value (.argument (.tooManySignatures Signed.maxSignatures))), signatures)
    else if DecoratedSignature.maxLength < signature.signature.length then
      (.error (.value (.argument
        (.signatureTooLong DecoratedSignature.maxLength signature.signature.length))), signatures)
    else (.ok true, signatures ++ [signature])) fun signed => ?_
  rw [Signed.edit, Method.call_bind_pure, Signed.endorse, Signed.call_addSignature]
  show _ = Prod.map id _ (if Signed.maxSignatures ≤ signed.signatures.length then _ else _)
  by_cases hfull : Signed.maxSignatures ≤ signed.signatures.length
  · rw [if_pos hfull, if_pos hfull]
    rfl
  · rw [if_neg hfull, if_neg hfull]
    by_cases hlong : DecoratedSignature.maxLength < signature.signature.length
    · rw [if_pos hlong, if_pos hlong]
      rfl
    · rw [if_neg hlong, if_neg hlong]
      rfl

/-- Whether a fee fits hangs on the fee alone. -/
theorem actsOn_addResourceFee (fee : UInt32) : (Edit.addResourceFee fee).ActsOn .fee := by
  refine .of_eq_of_ne nofun (fun _ total =>
    if UInt32.size ≤ total.toNat + fee.toNat then (.error (.value (.argument .feeOverflow)), total)
    else (.ok true, UInt32.ofNat (total.toNat + fee.toNat))) fun signed => ?_
  rw [Signed.call_edit_addResourceFee]
  show _ = Prod.map id _ (if UInt32.size ≤ signed.tx.fee.toNat + fee.toNat then _ else _)
  by_cases hoverflow : UInt32.size ≤ signed.tx.fee.toNat + fee.toNat
  · rw [if_pos hoverflow, if_pos hoverflow]
    rfl
  · rw [if_neg hoverflow, if_neg hoverflow]
    rfl

theorem actsOn_setSorobanData (data : SorobanData) : (Edit.setSorobanData data).ActsOn .sorobanData :=
  .of_eq_of_ne nofun (fun _ _ => (.ok true, some data)) fun _ => rfl

/-- A footprint goes into the contract data, if contracts are run. -/
theorem actsOn_setFootprint (footprint : Footprint) : (Edit.setFootprint footprint).ActsOn .sorobanData := by
  refine .of_eq_of_ne nofun (fun runs sorobanData =>
    if runs then
      let data := sorobanData.getD .empty
      (.ok true, some { data with resources := { data.resources with footprint } })
    else (.ok false, sorobanData)) fun signed => ?_
  rw [Signed.edit, Signed.call_changeBody, Transaction.setFootprint?, Signed.runsContracts]
  cases signed.tx.operations.any Transaction.runsContracts with
  | true => rfl
  | false => rfl

/-- Authorizations go into an operation, and leave its kind as it is. -/
theorem actsOn_setAuthorizations (auth : List Contract.Authorization) :
    (Edit.setAuthorizations auth).ActsOn .operations := by
  let act (operations : List Operation) : Except Error Bool × List Operation :=
    (Transaction.authorizeFirst? auth operations).elim (.ok false, operations) ((.ok true, ·))
  have hcall : ∀ signed, (Signed.edit (.setAuthorizations auth)).call signed
      = Prod.map id (Place.operations.put signed) (act signed.tx.operations) := by
    intro signed
    rw [Signed.call_setAuthorizations]
    dsimp only [act]
    cases Transaction.authorizeFirst? auth signed.tx.operations with
    | some authorized => rfl
    | none => rfl
  refine .of_eq (fun _ => act) hcall fun signed => ?_
  rw [Signed.call_setAuthorizations]
  cases hfirst : Transaction.authorizeFirst? auth signed.tx.operations with
  -- the kinds of the operations are the same as before
  | some authorized => exact Transaction.any_runsContracts_authorized hfirst
  | none => rfl

/-- One case for each kind of edit. -/
theorem actsOn_of_place? (h : edit.place? = some place) : edit.ActsOn place := by
  cases edit with
  | endorse endorsement =>
    cases endorsement with
    | sign signer network => cases h
    | add signature =>
      cases h
      exact actsOn_add signature
  | addResourceFee fee =>
    cases h
    exact actsOn_addResourceFee fee
  | setSorobanData data =>
    cases h
    exact actsOn_setSorobanData data
  | setAuthorizations auth =>
    cases h
    exact actsOn_setAuthorizations auth
  | setFootprint footprint =>
    cases h
    exact actsOn_setFootprint footprint

/-- Edits that are apart can be made in either order. -/
theorem Apart.commutes (h : edit.Apart edit') : (Signed.edit edit).Commutes (Signed.edit edit') := by
  obtain ⟨hplace, hplace', hne⟩ := h
  obtain ⟨place, hplace⟩ := Option.isSome_iff_exists.mp hplace
  obtain ⟨place', hplace'⟩ := Option.isSome_iff_exists.mp hplace'
  rw [hplace, hplace'] at hne
  exact (actsOn_of_place? hplace).commutes (actsOn_of_place? hplace') fun heq => hne (congrArg some heq)

end Edit

/-! ## Simulation -/

/-- The authorizations go to the first call of a host function, and the footprint to the contract data,
if any operation has to do with contracts.  Nothing else is changed, and the last ones that were set
stand.  Together with fees and signatures they can be put in in any order: the transaction is the same
then, and so is what each edit tells, also of those that are refused. -/
theorem Signed.edits_apart :
    (∀ (auth : List Contract.Authorization) (signed : Signed Transaction),
      (((edit (.setAuthorizations auth)).call signed).1 = .ok true ↔
        ∃ operation ∈ signed.tx.operations, operation.kind = .invokeHostFunction)
      ∧ (∀ after, (edit (.setAuthorizations auth)).call signed = (.ok true, after) ↔
        ∃ before source call rest,
          signed.tx.operations = before ++ ⟨source, .invokeHostFunction call⟩ :: rest
            ∧ (∀ operation ∈ before, operation.kind ≠ .invokeHostFunction)
            ∧ after = { signed with tx := { signed.tx with
              operations := before ++ ⟨source, .invokeHostFunction { call with auth }⟩ :: rest } })
      ∧ ∀ after, (edit (.setAuthorizations auth)).call signed = (.ok false, after) ↔
        (∀ operation ∈ signed.tx.operations, operation.kind ≠ .invokeHostFunction) ∧ after = signed)
    ∧ (∀ (footprint : Footprint) (signed : Signed Transaction),
      (∀ after, (edit (.setFootprint footprint)).call signed = (.ok true, after) ↔
        (∃ operation ∈ signed.tx.operations, operation.kind = .invokeHostFunction
            ∨ operation.kind = .bumpFootprintExpiration ∨ operation.kind = .restoreFootprint)
          ∧ after = { signed with tx := { signed.tx with
            sorobanData := some (match signed.tx.sorobanData with
              | some data => { data with resources := { data.resources with footprint } }
              | none => ⟨.v0, ⟨footprint, 0, 0, 0, 0⟩, 0⟩) } })
      ∧ ∀ after, (edit (.setFootprint footprint)).call signed = (.ok false, after) ↔
        (∀ operation ∈ signed.tx.operations, operation.kind ≠ .invokeHostFunction
            ∧ operation.kind ≠ .bumpFootprintExpiration ∧ operation.kind ≠ .restoreFootprint)
          ∧ after = signed)
    ∧ (∀ auth auth', (edit (.setAuthorizations auth')).Overrides (edit (.setAuthorizations auth)))
    ∧ (∀ footprint footprint', (edit (.setFootprint footprint')).Overrides (edit (.setFootprint footprint)))
    ∧ (∀ edit edit', Edit.Apart edit edit' → (Signed.edit edit).Commutes (Signed.edit edit'))
    ∧ ∀ (signed : Signed Transaction) (edits edits' : List Edit),
      edits.Perm edits' → edits.Pairwise Edit.Apart →
        afterCalls Signed.edit signed edits = afterCalls Signed.edit signed edits'
          ∧ (calls Signed.edit signed edits).map Call.result
            = edits.map fun edit => ((Signed.edit edit).call signed).1 := by
  refine ⟨fun auth signed => ⟨result_setAuthorizations_eq_true, fun after => call_setAuthorizations_eq_true,
      fun after => call_setAuthorizations_eq_false⟩,
    fun footprint signed => ⟨fun after => call_setFootprint_eq_true, fun after => call_setFootprint_eq_false⟩,
    setAuthorizations_overrides, setFootprint_overrides, fun edit edit' => Edit.Apart.commutes, ?_⟩
  intro signed edits edits' hperm hapart
  -- edits that are pairwise apart commute pairwise
  have hcommutes := hapart.imp Edit.Apart.commutes
  exact ⟨afterCalls_perm hperm hcommutes, results_of_commutes hcommutes⟩

/-- Four edits of a transaction with two calls, the last of which is refused, in two orders. -/
theorem Signed.edits_apart_reversed :
    let account : MuxedAccount := .plain ⟨List.replicate 32 1, rfl⟩
    let contract : Contract.Address := .contract ⟨List.replicate 32 2, rfl⟩
    let auth : List Contract.Authorization :=
      [⟨.sourceAccount, .node (.contract ⟨contract, "swap", []⟩) []⟩]
    let call (auth : List Contract.Authorization) : Operation :=
      .ofBody (.invokeHostFunction ⟨.call contract "swap" [], auth⟩)
    let tx : Transaction := ⟨account, 300, 1, .none, .none, [.ofBody .inflation, call [], call []], none⟩
    let edits : List Edit := [.setAuthorizations auth, .setFootprint ⟨[], []⟩, .addResourceFee 50,
      .endorse (.add ⟨⟨[1, 2, 3, 4], rfl⟩, List.replicate 65 0⟩)]
    (calls Signed.edit (.unsigned tx) edits).map Call.result
        = [.ok true, .ok true, .ok true, .error (.value (.argument (.signatureTooLong 64 65)))]
      ∧ (afterCalls Signed.edit (.unsigned tx) edits.reverse).tx
        = { tx with
          fee := 350
          operations := [.ofBody .inflation, call auth, call []]
          sorobanData := some .empty } := by
  intro account contract auth call tx edits
  have hapart : edits.Pairwise Edit.Apart := by decide
  obtain ⟨hafter, hresults⟩ := edits_apart.2.2.2.2.2 (.unsigned tx) edits edits.reverse
    edits.reverse_perm.symm hapart
  rw [hresults, ← hafter]
  exact ⟨rfl, rfl⟩

end LedgerTx
