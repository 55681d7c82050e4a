import LedgerTx.Proofs.Parts.Operation
import LedgerTx.Transaction.Envelope

namespace LedgerTx

open Layout

/-! # Parts of transactions and envelopes -/

variable {lenient : Bool}

/-! ## Memos and preconditions -/

instance : Enumeration.Numbered MemoKind := ⟨by intro k; cases k <;> rfl⟩

instance : Enumeration.Named MemoKind :=
  ⟨by intro k; cases k <;> rfl, by intro k; cases k <;> rfl⟩

instance : Enumeration.Numbered PreconditionKind := ⟨by intro k; cases k <;> rfl⟩

instance : Enumeration.Named PreconditionKind :=
  ⟨by intro k; cases k <;> rfl, by intro k; cases k <;> rfl⟩

instance : Enumeration.Numbered TransactionVersion := ⟨by intro k; cases k <;> rfl⟩

instance : Enumeration.Numbered EnvelopeKind := ⟨by intro k; cases k <;> rfl⟩

instance : Enumeration.Named EnvelopeKind :=
  ⟨by intro k; cases k <;> rfl, by intro k; cases k <;> rfl⟩

/-- Every memo is read back. -/
theorem Memo.hasParts : HasParts lenient layout fun _ => [] := by
  refine .union (.under rfl .constant) fun k => ?_
  cases k with
  | none => exact .unit
  | text => exact .under rfl (.text _)
  | id => exact .under rfl .uint64
  | _ => exact .under rfl (.fixed 32)

theorem TimeBounds.hasParts : HasParts lenient layout fun _ => [] :=
  .map (.field rfl .time (.under rfl .time))

theorem LedgerBounds.hasParts : HasParts lenient layout fun _ => [] :=
  .map (.field rfl .uint32 (.under rfl .uint32))

/-- The signers that are asked for. -/
def Conditions.parts (conditions : Conditions) : List Part :=
  conditions.extraSigners.flatMap fun key => [.signer key]

/-- Of the conditions, nothing but the extra signers matters. -/
theorem Conditions.hasParts : HasParts lenient layout parts :=
  .map (.field rfl (.option_nil TimeBounds.hasParts) (.field rfl (.option_nil LedgerBounds.hasParts)
    (.field rfl (.option_nil .int64) (.field rfl .uint64 (.field rfl .uint32
      (.under rfl (.list SignerKey.hasParts _)))))))

/-- The signers that are asked for, if any. -/
def Preconditions.parts : Preconditions → List Part
  | .v2 conditions => conditions.parts
  | _ => []

/-- Only the second version has conditions with signers. -/
theorem Preconditions.hasParts : HasParts lenient layout parts := by
  refine .union (.under rfl .constant) fun k => ?_
  cases k with
  | none => exact .unit
  | time => exact .under rfl TimeBounds.hasParts
  | v2 => exact .under rfl Conditions.hasParts

/-! ## Transactions -/

/-- The version says whether there is contract data. -/
theorem SorobanData.optionHasParts :
    HasParts true optionLayout fun data => data.toList.flatMap SorobanData.parts := by
  refine .union (.under rfl (.under rfl .version)) fun k => ?_
  cases k with
  | v0 => exact .unit
  | v1 => exact (SorobanData.hasParts.under rfl).congr fun data => List.flatMap_singleton ..

/-- What matters in the preconditions, the operations and the contract data. -/
def Transaction.parts (tx : Transaction) : List Part :=
  tx.preconditions.parts ++ tx.operations.flatMap (fun operation => operation.body.parts)
    ++ tx.sorobanData.toList.flatMap SorobanData.parts

/-- The source, the fee, the sequence number and the memo do not matter. -/
theorem Transaction.hasParts : HasParts true layout parts := by
  -- the parts field by field, most of which hold none
  have hfields : HasParts true layout fun tx => [] ++ ([] ++ ([] ++ (tx.preconditions.parts
      ++ ([] ++ (tx.operations.flatMap (fun operation => operation.body.parts)
        ++ tx.sorobanData.toList.flatMap SorobanData.parts))))) :=
    .map (.field rfl MuxedAccount.hasParts (.field rfl .uint32 (.field rfl .int64
      (.field rfl Preconditions.hasParts (.field rfl Memo.hasParts
        (.field rfl (.list Operation.hasParts _) SorobanData.optionHasParts))))))
  exact hfields.congr fun tx => List.append_assoc ..

/-- What matters in the operations. -/
def LegacyTransaction.parts (tx : LegacyTransaction) : List Part :=
  tx.operations.flatMap fun operation => operation.body.parts

/-- A transaction of the old kind has time bounds alone, and these do not matter. -/
theorem LegacyTransaction.hasParts : HasParts true layout parts := by
  have hfields : HasParts true layout fun tx =>
      [] ++ ([] ++ ([] ++ ([] ++ ([] ++ (tx.operations.flatMap (fun operation => operation.body.parts)
        ++ []))))) :=
    .map (.field rfl Layout.accountKey_hasParts (.field rfl .uint32 (.field rfl .int64
      (.field rfl (.option_nil TimeBounds.hasParts) (.field rfl Memo.hasParts
        (.field rfl (.list Operation.hasParts _) (.under rfl Extension.hasParts)))))))
  exact hfields.congr fun tx => (List.append_nil _).symm

/-! ## Envelopes -/

/-- Signatures do not matter, so the parts are those of what is signed. -/
theorem Signed.hasParts {τ : Type} {tx : Layout τ} {parts : τ → List Part}
    (h : HasParts lenient tx parts) : HasParts lenient (layout tx) fun signed => parts signed.tx := by
  have hfields : HasParts lenient (layout tx) fun signed => parts signed.tx ++ [] :=
    .map (.field rfl h (.under rfl (.list_nil DecoratedSignature.hasParts _)))
  exact hfields.congr fun signed => (List.append_nil _).symm

/-- The inner transaction is written with its kind, of which there is one. -/
theorem FeeBump.innerHasParts : HasParts true innerLayout fun signed => signed.tx.parts := by
  have hkind : HasParts true innerKind fun _ => [] := by
    refine .arms (fun _ => rfl) fun k u h => ?_
    split at h
    · rename_i hk
      exact hk.symm
    · cases h
  exact .map (.field rfl hkind (Signed.hasParts Transaction.hasParts))

/-- What matters in the transaction inside. -/
def FeeBump.parts (bump : FeeBump) : List Part :=
  bump.inner.tx.parts

/-- The source and the fee of the outer transaction do not matter. -/
theorem FeeBump.hasParts : HasParts true layout parts := by
  have hfields : HasParts true layout fun bump => [] ++ ([] ++ (bump.inner.tx.parts ++ [])) :=
    .map (.field rfl MuxedAccount.hasParts (.field rfl .int64 (.field rfl FeeBump.innerHasParts
      (.under rfl Extension.hasParts))))
  exact hfields.congr fun bump => (List.append_nil _).symm

namespace Envelope

/-- All that matters in an envelope, in the order of its listing. -/
def parts : Envelope → List Part
  | .legacy signed => signed.tx.parts
  | .transaction signed => signed.tx.parts
  | .feeBump signed => signed.tx.parts

/-- The parts of an envelope are those of its transaction, whichever kind it is. -/
theorem hasParts : HasParts true layout parts := by
  refine .union (.under rfl (.arms ?_ ?_)) fun arm => ?_
  · intro arm
    cases arm <;> rfl
  · intro kind arm h
    cases kind <;> cases h <;> rfl
  -- each kind of envelope holds one kind of signed transaction
  · cases arm with
    | legacy => exact Signed.hasParts LegacyTransaction.hasParts
    | transaction => exact Signed.hasParts Transaction.hasParts
    | feeBump => exact .under rfl (Signed.hasParts FeeBump.hasParts)

/-- The codes of all assets in an envelope. -/
def assetCodes (envelope : Envelope) : List AssetCode :=
  envelope.parts.filterMap fun
    | .code code => some code
    | _ => none

/-- The conditions of all claimants in an envelope. -/
def predicates (envelope : Envelope) : List Predicate :=
  envelope.parts.filterMap fun
    | .predicate predicate => some predicate
    | _ => none

/-- All signer keys in an envelope. -/
def signerKeys (envelope : Envelope) : List SignerKey :=
  envelope.parts.filterMap fun
    | .signer key => some key
    | _ => none

/-- All parts are plain if all codes are canonical, since nothing else can fail to be. -/
theorem plain_iff {envelope : Envelope} :
    (∀ part ∈ envelope.parts, part.Plain) ↔ ∀ code ∈ envelope.assetCodes, code.Canonical := by
  constructor
  · intro h code hcode
    rcases List.mem_filterMap.mp hcode with ⟨part, hpart, hsome⟩
    have hplain := h part hpart
    cases part with
    | code c =>
      cases hsome
      exact hplain
    | predicate p => cases hsome
    | signer key => cases hsome
  · intro h part hpart
    cases part with
    | code c => exact h c (List.mem_filterMap.mpr ⟨_, hpart, rfl⟩)
    | predicate p => trivial
    | signer key => trivial

/-- All parts are good if no condition is nested too deeply and no signer lacks its payload. -/
theorem good_iff {envelope : Envelope} :
    (∀ part ∈ envelope.parts, part.Good) ↔
      (∀ predicate ∈ envelope.predicates, predicate.depth ≤ Predicate.maxLevels)
        ∧ ∀ key ∈ envelope.signerKeys, key.HasPayload := by
  constructor
  · intro h
    constructor
    · intro predicate hpredicate
      rcases List.mem_filterMap.mp hpredicate with ⟨part, hpart, hsome⟩
      have hgood := h part hpart
      cases part with
      | predicate p =>
        cases hsome
        exact hgood
      | code c => cases hsome
      | signer key => cases hsome
    · intro key hkey
      rcases List.mem_filterMap.mp hkey with ⟨part, hpart, hsome⟩
      have hgood := h part hpart
      cases part with
      | signer key' =>
        cases hsome
        exact hgood
      | code c => cases hsome
      | predicate p => cases hsome
  -- of a code nothing more is asked
  · rintro ⟨hpredicates, hkeys⟩ part hpart
    cases part with
    | code c => trivial
    | predicate p => exact hpredicates p (List.mem_filterMap.mpr ⟨_, hpart, rfl⟩)
    | signer key => exact hkeys key (List.mem_filterMap.mpr ⟨_, hpart, rfl⟩)

end Envelope

end LedgerTx
