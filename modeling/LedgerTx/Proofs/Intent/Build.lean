import LedgerTx.Intent.Build
import LedgerTx.Proofs.Transaction.Reached
import LedgerTx.Proofs.Transaction.Text
import Mathlib.Data.List.Forall2

namespace LedgerTx

/-! # Intents that can be sent

Building checks most limits that reading sets: the number of operations, the memo, and the name and the
value of a data entry.  It does not check the name of a contract's function, which is a symbol. -/

/-! ## Lists of results -/

/-- All items succeed, and each gives what stands in its place. -/
theorem Except.mapM_eq_ok {ε α β : Type} {f : α → Except ε β} {as : List α} {bs : List β} :
    as.mapM f = .ok bs ↔ List.Forall₂ (fun a b => f a = .ok b) as bs := by
  induction as generalizing bs with
  | nil =>
    rw [List.mapM_nil, Except.pure_eq_ok, List.forall₂_nil_left_iff]
  | cons a as ih =>
    rw [List.mapM_cons, Except.bind_eq_ok, List.forall₂_cons_left_iff]
    refine exists_congr fun b => ?_
    rw [Except.bind_eq_ok]
    constructor
    · rintro ⟨hb, rest, hrest, h⟩
      cases h
      exact ⟨rest, hb, ih.mp hrest, rfl⟩
    · rintro ⟨rest, hb, hrest, rfl⟩
      exact ⟨hb, rest, ih.mpr hrest, rfl⟩

/-- The first item that fails decides. -/
theorem Except.mapM_eq_error {ε α β : Type} {f : α → Except ε β} {as : List α} {cause : ε} :
    as.mapM f = .error cause ↔
      ∃ before first after, as = before ++ first :: after
        ∧ (∀ a ∈ before, ∃ b, f a = .ok b) ∧ f first = .error cause := by
  constructor
  · intro h
    induction as with
    | nil => cases h
    | cons a as ih =>
      rw [List.mapM_cons] at h
      -- the first item fails, or one after it does
      rcases Except.bind_eq_error.mp h with ha | ⟨b, hb, h⟩
      · exact ⟨[], a, as, rfl, List.forall_mem_nil _, ha⟩
      · rcases Except.bind_eq_error.mp h with hrest | ⟨bs, -, h⟩
        · obtain ⟨before, first, after, rfl, hbefore, hfirst⟩ := ih hrest
          exact ⟨a :: before, first, after, rfl, List.forall_mem_cons.mpr ⟨⟨b, hb⟩, hbefore⟩, hfirst⟩
        · cases h
  · rintro ⟨before, first, after, rfl, hbefore, hfirst⟩
    induction before with
    | nil =>
      rw [List.nil_append, List.mapM_cons]
      exact Except.bind_eq_error.mpr (.inl hfirst)
    | cons a before ih =>
      obtain ⟨⟨b, hb⟩, hbefore⟩ := List.forall_mem_cons.mp hbefore
      rw [List.cons_append, List.mapM_cons]
      exact Except.bind_eq_error.mpr (.inr ⟨b, hb, Except.bind_eq_error.mpr (.inl (ih hbefore))⟩)

/-- Lists of which the items match are alike in what matching items are alike in. -/
theorem forall_mem_iff_of_forall₂ {α β : Type} {R : α → β → Prop} {as : List α} {bs : List β}
    (h : List.Forall₂ R as bs) {P : α → Prop} {Q : β → Prop} (hiff : ∀ a b, R a b → (P a ↔ Q b)) :
    (∀ a ∈ as, P a) ↔ ∀ b ∈ bs, Q b := by
  induction h with
  | nil => exact ⟨fun _ b hb => absurd hb List.not_mem_nil, fun _ a ha => absurd ha List.not_mem_nil⟩
  | cons hab _ ih => rw [List.forall_mem_cons, List.forall_mem_cons, hiff _ _ hab, ih]

/-- Items that match something have what all that matches has. -/
theorem forall_mem_of_forall₂ {α β : Type} {R : α → β → Prop} {as : List α} {bs : List β}
    (h : List.Forall₂ R as bs) {Q : β → Prop} (hmatch : ∀ a b, R a b → Q b) : ∀ b ∈ bs, Q b := by
  have hiff := forall_mem_iff_of_forall₂ h fun a b hab => iff_of_true trivial (hmatch a b hab)
  exact hiff.mp fun _ _ => trivial

/-! ## Actions -/

namespace Contract.Value

/-- A symbol is limited in bytes. -/
theorem fits_symbol {text : String} :
    layout.wire.fits .standard (.symbol text) = true ↔ (Utf8.encode text).length ≤ maxSymbol :=
  decide_eq_true_iff

theorem fits_address (address : Address) : layout.wire.fits .standard (.address address) = true := by
  cases address <;> rfl

end Contract.Value

/-- Both the name and the value of a data entry are limited. -/
theorem ManageData.fits_iff {op : ManageData} :
    layout.wire.fits .standard op = true ↔ (Utf8.encode op.name).length ≤ maxDataName
      ∧ ∀ bytes ∈ op.value, bytes.length ≤ maxValue := by
  have hvalue : (Codec.option (Codec.bytes maxValue)).fits .standard op.value = true
      ↔ ∀ bytes ∈ op.value, bytes.length ≤ maxValue := by
    refine (Option.all_eq_true _ _).trans ?_
    exact forall₂_congr fun bytes _ => decide_eq_true_iff
  have hname : (Codec.string maxDataName).fits .standard op.name = true
      ↔ (Utf8.encode op.name).length ≤ maxDataName := decide_eq_true_iff
  rw [← hvalue, ← hname]
  exact Bool.and_eq_true_iff

namespace Action

/-! ### Data entries -/

/-- A name that is accepted is short enough to be read back. -/
theorem length_of_dataName {text name : String} (h : dataName text = .ok name) :
    (Utf8.encode name).length ≤ maxDataName := by
  unfold dataName at h
  dsimp only at h
  split at h
  · cases h
  · rename_i hlength
    cases h
    omega

/-- A value of a data entry, if there is one, is short enough too. -/
theorem length_of_dataValue {text : Option String} {value : Option (List UInt8)}
    (h : dataValue text = .ok value) : ∀ bytes ∈ value, bytes.length ≤ ManageData.maxValue := by
  cases text with
  | none =>
    cases h
    rintro bytes ⟨⟩
  | some text =>
    obtain ⟨bytes, -, h⟩ := Except.bind_eq_ok.mp h
    obtain ⟨hlength, h⟩ := Except.guard_bind_eq_ok.mp h
    cases h
    rintro _ ⟨⟩
    exact Nat.le_of_not_lt hlength

/-! ### Calls -/

/-- Whether the name of the function that is called, if any, is a symbol, and whether the contract's
address, the name and the arguments can be counted. -/
def KeepsLimits : Action → Prop
  | .invokeContract _ function args =>
    (Utf8.encode function).length ≤ Contract.Value.maxSymbol ∧ args.length + 2 ≤ Rules.maxCount
  | _ => True

/-- Arguments are read from bytes, which hold no values beyond the limits. -/
theorem fits_of_args {args : List String} {values : List Contract.Value}
    (h : args.mapM Contract.Value.layout.wire.ofBase64 = .ok values) :
    values.length = args.length
      ∧ ∀ value ∈ values, Contract.Value.layout.wire.fits .standard value = true := by
  have hcodec : Codec.Composed false Contract.Value.layout.wire := Contract.Value.hasParts.wire
  have hread := Except.mapM_eq_ok.mp h
  refine ⟨hread.length_eq.symm, forall_mem_of_forall₂ hread fun arg value hvalue => ?_⟩
  obtain ⟨bytes, -, hwhole⟩ := Codec.ofBase64_eq_ok.mp hvalue
  exact hcodec.readable_iff.mp ⟨bytes, hwhole⟩

/-- The arguments of a call keep their limits if the name of the function does. -/
theorem fits_call {contract : Contract.Address} {function : String} {values : List Contract.Value}
    (h : ∀ value ∈ values, Contract.Value.layout.wire.fits .standard value = true) :
    Contract.HostFunction.layout.wire.fits .standard (.call contract function values) = true
      ↔ (Utf8.encode function).length ≤ Contract.Value.maxSymbol
        ∧ values.length + 2 ≤ Rules.maxCount := by
  have hlist : Contract.HostFunction.layout.wire.fits .standard (.call contract function values)
      = (Codec.list Layout.unbounded Contract.Value.layout.wire).fits .standard
          (.address contract :: .symbol function :: values) := Bool.true_and _
  -- a list without a bound of its own still has a count to be written
  have hlimit : Rules.standard.limit Layout.unbounded = Rules.maxCount := by
    show min Rules.maxCount Rules.maxCount = Rules.maxCount
    exact Nat.min_self _
  rw [hlist, Codec.list_fits_iff, hlimit, List.forall_mem_cons, List.forall_mem_cons,
    Contract.Value.fits_symbol]
  constructor
  · rintro ⟨hcount, -, hname, -⟩
    exact ⟨hname, hcount⟩
  · rintro ⟨hname, hcount⟩
    exact ⟨hcount, Contract.Value.fits_address contract, hname, h⟩

/-- The operation of an action keeps the limits of reading if the action does. -/
theorem fits_body_iff {action : Action} {body : OperationBody} (h : action.body = .ok body) :
    Operation.layout.wire.fits .standard (.ofBody body) = true ↔ action.KeepsLimits := by
  cases action with
  | payment destination asset amount =>
    obtain ⟨destination, -, h⟩ := Except.bind_eq_ok.mp h
    obtain ⟨asset, -, h⟩ := Except.bind_eq_ok.mp h
    obtain ⟨amount, -, h⟩ := Except.bind_eq_ok.mp h
    cases h
    refine iff_of_true ?_ trivial
    cases destination <;> cases asset <;> rfl
  | createAccount destination startingBalance =>
    obtain ⟨destination, -, h⟩ := Except.bind_eq_ok.mp h
    obtain ⟨startingBalance, -, h⟩ := Except.bind_eq_ok.mp h
    cases h
    exact iff_of_true rfl trivial
  | changeTrust asset limit =>
    obtain ⟨asset, -, h⟩ := Except.bind_eq_ok.mp h
    obtain ⟨limit, -, h⟩ := Except.bind_eq_ok.mp h
    cases h
    refine iff_of_true ?_ trivial
    cases asset <;> rfl
  | manageData name value =>
    obtain ⟨name, hname, h⟩ := Except.bind_eq_ok.mp h
    obtain ⟨value, hvalue, h⟩ := Except.bind_eq_ok.mp h
    cases h
    -- building checks the two limits of a data entry
    have hname := length_of_dataName (Except.mapError_eq_ok.mp (Except.mapError_eq_ok.mp hname))
    have hvalue := length_of_dataValue (Except.mapError_eq_ok.mp (Except.mapError_eq_ok.mp hvalue))
    have hfits : ManageData.layout.wire.fits .standard ⟨name, value⟩ = true :=
      ManageData.fits_iff.mpr ⟨hname, hvalue⟩
    exact iff_of_true hfits trivial
  | accountMerge destination =>
    obtain ⟨destination, -, h⟩ := Except.bind_eq_ok.mp h
    cases h
    refine iff_of_true ?_ trivial
    cases destination <;> rfl
  | bumpSequence bumpTo =>
    cases h
    exact iff_of_true rfl trivial
  | invokeContract contract function args =>
    obtain ⟨contract, -, h⟩ := Except.bind_eq_ok.mp h
    obtain ⟨values, hvalues, h⟩ := Except.bind_eq_ok.mp h
    cases h
    -- the name of the function is the one limit that building does not check
    obtain ⟨hlength, hall⟩ := fits_of_args hvalues
    have hauth : (Codec.list Layout.unbounded Contract.Authorization.layout.wire).fits .standard []
        = true := rfl
    rw [Operation.ofBody, Operation.fits_invoke, fits_call hall, hlength]
    exact and_iff_left hauth

/-- An asset that can be trusted has a canonical code, since the native one cannot be. -/
theorem canonical_of_trusted {text : String} {asset : Asset} (h : trusted text = .ok asset) :
    asset.Canonical := by
  obtain ⟨found, hfound, h⟩ := Except.bind_eq_ok.mp h
  have hcanonical := Asset.canonical_of_ofCanonical hfound
  cases found with
  | native => cases h
  | credit4 credit | credit12 credit =>
    cases h
    exact hcanonical

/-- What an action is made of is listed as it is: assets are read from texts, which give only canonical
codes, and nothing else matters. -/
theorem listed_of_body {action : Action} {body : OperationBody} (h : action.body = .ok body) :
    ∀ part ∈ body.parts, part.Plain ∧ part.Good := by
  have hasset : ∀ {asset : Asset}, asset.Canonical → ∀ part ∈ asset.parts, part.Plain ∧ part.Good :=
    fun hcanonical part hpart =>
      ⟨Asset.canonical_iff.mpr hcanonical part hpart, Asset.good_of_mem_parts part hpart⟩
  have hnone : ∀ part ∈ ([] : List Part), part.Plain ∧ part.Good :=
    fun part hpart => absurd hpart List.not_mem_nil
  -- field by field, as the body is built; only assets can fail to be listed
  cases action with
  | payment destination asset amount =>
    obtain ⟨destination, -, h⟩ := Except.bind_eq_ok.mp h
    obtain ⟨asset, hread, h⟩ := Except.bind_eq_ok.mp h
    obtain ⟨amount, -, h⟩ := Except.bind_eq_ok.mp h
    cases h
    exact hasset (Asset.canonical_of_ofCanonical (Except.mapError_eq_ok.mp hread))
  | changeTrust asset limit =>
    obtain ⟨asset, hread, h⟩ := Except.bind_eq_ok.mp h
    obtain ⟨limit, -, h⟩ := Except.bind_eq_ok.mp h
    cases h
    exact hasset (canonical_of_trusted (Except.mapError_eq_ok.mp hread))
  | createAccount destination startingBalance =>
    obtain ⟨destination, -, h⟩ := Except.bind_eq_ok.mp h
    obtain ⟨startingBalance, -, h⟩ := Except.bind_eq_ok.mp h
    cases h
    exact hnone
  | manageData name value =>
    obtain ⟨name, -, h⟩ := Except.bind_eq_ok.mp h
    obtain ⟨value, -, h⟩ := Except.bind_eq_ok.mp h
    cases h
    exact hnone
  | accountMerge destination =>
    obtain ⟨destination, -, h⟩ := Except.bind_eq_ok.mp h
    cases h
    exact hnone
  | bumpSequence bumpTo =>
    cases h
    exact hnone
  | invokeContract contract function args =>
    obtain ⟨contract, -, h⟩ := Except.bind_eq_ok.mp h
    obtain ⟨values, -, h⟩ := Except.bind_eq_ok.mp h
    cases h
    exact hnone

end Action

/-! ## Intents -/

namespace Intent

mutual

/-- The operations of an intent are those of its actions, one each, in order. -/
theorem operations_eq_mapM (intent : Intent) :
    intent.operations = intent.actions.mapM fun action => do return .ofBody (← action.body) := by
  cases intent with
  | action a =>
    rw [operations, actions, List.mapM_cons, List.mapM_nil]
    cases a.body with
    | error cause => rfl
    | ok body => rfl
  | batch parts =>
    rw [operations, actions]
    exact operationsOf_eq_mapM parts

/-- The operations of the parts of a batch, one part after the other. -/
theorem operationsOf_eq_mapM (parts : List Intent) :
    operationsOf parts = (actionsOf parts).mapM fun action => do return .ofBody (← action.body) := by
  cases parts with
  | nil => rfl
  | cons part parts =>
    rw [operationsOf, actionsOf, List.mapM_append, operations_eq_mapM part, operationsOf_eq_mapM parts]

end

/-- Each action has the operation that stands in its place. -/
theorem forall₂_of_operations {intent : Intent} {all : List Operation}
    (h : intent.operations = .ok all) :
    List.Forall₂ (fun action operation => ∃ body, action.body = .ok body ∧ operation = .ofBody body)
      intent.actions all := by
  rw [operations_eq_mapM] at h
  refine (Except.mapM_eq_ok.mp h).imp fun action operation hoperation => ?_
  obtain ⟨body, hbody, h⟩ := Except.bind_eq_ok.mp hoperation
  cases h
  exact ⟨body, hbody, rfl⟩

/-- A transaction is built in order: the source, the operations, the memo, and then the draft. -/
theorem exists_draft_of_build {intent : Intent} {context : Context} {tx : Transaction}
    (h : intent.build context = .ok tx) :
    ∃ draft : Draft, intent.operations = .ok draft.operations ∧ draft.build = .ok tx
      ∧ draft.baseFee = context.baseFee ∧ draft.preconditions = .ofTimeBounds context.timeBounds
      ∧ draft.sorobanData = none := by
  obtain ⟨source, -, h⟩ := Except.bind_eq_ok.mp h
  obtain ⟨all, hall, h⟩ := Except.bind_eq_ok.mp h
  obtain ⟨memo, -, h⟩ := Except.bind_eq_ok.mp h
  exact ⟨_, hall, Except.mapError_eq_ok.mp (Except.mapError_eq_ok.mp h), rfl, rfl, rfl⟩

/-- What is built keeps the limits of reading if each of the actions does. -/
theorem fits_of_build_iff {intent : Intent} {context : Context} {tx : Transaction}
    (h : intent.build context = .ok tx) :
    Transaction.layout.wire.fits .standard tx = true ↔ ∀ action ∈ intent.actions, action.KeepsLimits := by
  obtain ⟨draft, hoperations, hdraft, -, hpreconditions, hdata⟩ := exists_draft_of_build h
  have hactions : (∀ action ∈ intent.actions, action.KeepsLimits)
      ↔ ∀ operation ∈ draft.operations, Operation.layout.wire.fits .standard operation = true := by
    refine forall_mem_iff_of_forall₂ (forall₂_of_operations hoperations) ?_
    rintro action operation ⟨body, hbody, rfl⟩
    exact (Action.fits_body_iff hbody).symm
  rw [hactions]
  constructor
  · intro hfits
    -- what is read back has its operations read back
    obtain ⟨-, -, -, -, -, rfl⟩ := Draft.build_eq_ok.mp hdraft
    exact (Codec.list_fits_iff.mp (Transaction.fits_iff.mp hfits).2.2.1).2
  · intro hall
    -- the draft checks the memo and the number of operations
    refine Signed.fits_of_build ⟨?_, fun operation hmem => ?_, ?_⟩ hdraft
    · have hcodec : Codec.Composed true Preconditions.layout.wire := Preconditions.hasParts.wire
      refine hcodec.readable_iff.mpr ?_
      rw [hpreconditions]
      cases context.timeBounds <;> rfl
    · exact Operation.hasParts.wire.readable_iff.mpr (hall operation hmem)
    · rw [hdata]
      rintro data ⟨⟩

/-- What is built is listed as it is. -/
theorem listed_of_build {intent : Intent} {context : Context} {tx : Transaction}
    (h : intent.build context = .ok tx) : ∀ part ∈ tx.parts, part.Plain ∧ part.Good := by
  obtain ⟨draft, hoperations, hdraft, -, hpreconditions, hdata⟩ := exists_draft_of_build h
  obtain ⟨-, -, -, -, -, rfl⟩ := Draft.build_eq_ok.mp hdraft
  have hbodies : ∀ operation ∈ draft.operations, ∀ part ∈ operation.body.parts,
      part.Plain ∧ part.Good := by
    refine forall_mem_of_forall₂ (forall₂_of_operations hoperations) ?_
    rintro action operation ⟨body, hbody, rfl⟩
    exact Action.listed_of_body hbody
  intro part hpart
  unfold Transaction.parts at hpart
  dsimp only at hpart
  rw [hpreconditions, hdata] at hpart
  -- time bounds and an empty footprint have no parts
  have hconditions : (Preconditions.ofTimeBounds context.timeBounds).parts = [] := by
    cases context.timeBounds <;> rfl
  rw [hconditions, List.nil_append, Option.toList_none, List.flatMap_nil, List.append_nil] at hpart
  obtain ⟨operation, hoperation, hpart⟩ := List.mem_flatMap.mp hpart
  exact hbodies operation hoperation part hpart

/-- A transaction that is built from an intent can be sent, that is, read back from its envelope and from
its listing, exactly if each function that is called has a symbol for its name.  Building itself does not
ask for that. -/
theorem build_reads_back_iff {intent : Intent} {context : Context} {tx : Transaction}
    (h : intent.build context = .ok tx) :
    (Signed.ofBase64 (Envelope.transaction (.unsigned tx)).toBase64 = .ok (.unsigned tx)
        ∧ ∃ text, (Envelope.transaction (.unsigned tx)).toText = .ok text
          ∧ Envelope.ofText text = .ok (.transaction (.unsigned tx)))
      ↔ ∀ action ∈ intent.actions, action.KeepsLimits := by
  rw [← fits_of_build_iff h]
  constructor
  -- what was read from bytes keeps the limits
  · rintro ⟨hread, -⟩
    exact (Signed.fits_iff.mp (Signed.fits_of_ofBase64 hread)).1
  · intro hfits
    have henvelope : Envelope.layout.wire.fits .standard (.transaction (.unsigned tx)) = true :=
      (Envelope.fits_arm .transaction _).trans (Signed.fits_unsigned hfits)
    have hlisted := listed_of_build h
    have hplain : ∀ part ∈ (Envelope.transaction (.unsigned tx)).parts, part.Plain :=
      fun part hpart => (hlisted part hpart).1
    obtain ⟨text, hwrite, hgood, -⟩ := Envelope.exists_toText henvelope hplain
    have hread := Envelope.hasParts.wire.ofBase64_toBase64 henvelope
    exact ⟨Signed.ofBase64_eq_ok.mpr ⟨_, hread, rfl⟩, text, hwrite,
      hgood.mp fun part hpart => (hlisted part hpart).2⟩

/-- A call is built whatever the function is called. -/
theorem exists_build_call (account : MuxedAccount) (contract : Bytes32) (function : String) :
    ∃ tx, (action (.invokeContract (Strkey.encode .contract contract.toList) function [])).build
      ⟨account.address, 1, minBaseFee, none, none⟩ = .ok tx := by
  have hsource := MuxedAccount.ofAddress_address account
  have hbody : (Action.invokeContract (Strkey.encode .contract contract.toList) function []).body
      = .ok (.invokeHostFunction ⟨.call (.contract contract) function [], []⟩) := by
    unfold Action.body
    dsimp only
    rw [Strkey.decodeKey_encode rfl]
    rfl
  unfold build operations
  rw [hsource, hbody]
  exact ⟨_, rfl⟩

/-- A function with a name of 33 bytes can be called in a transaction that nobody can read. -/
theorem build_reads_back_long :
    ∃ tx, (action (.invokeContract (Strkey.encode .contract (List.replicate 32 0))
        "this_function_name_has_33_letters" [])).build
          ⟨(MuxedAccount.plain ⟨List.replicate 32 0, rfl⟩).address, 1, minBaseFee, none, none⟩ = .ok tx
      ∧ ¬(Signed.ofBase64 (Envelope.transaction (.unsigned tx)).toBase64 = .ok (.unsigned tx)
        ∧ ∃ text, (Envelope.transaction (.unsigned tx)).toText = .ok text
          ∧ Envelope.ofText text = .ok (.transaction (.unsigned tx))) := by
  obtain ⟨tx, hbuild⟩ := exists_build_call (.plain ⟨List.replicate 32 0, rfl⟩)
    ⟨List.replicate 32 0, rfl⟩ "this_function_name_has_33_letters"
  refine ⟨tx, hbuild, ?_⟩
  rw [build_reads_back_iff hbuild]
  intro hall
  have hlength := (hall _ (List.mem_singleton_self _)).1
  revert hlength
  decide

end Intent

end LedgerTx
