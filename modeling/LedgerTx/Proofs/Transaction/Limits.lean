import LedgerTx.Proofs.Transaction.Edit
import LedgerTx.Proofs.Transaction.Envelope

namespace LedgerTx

/-! # Limits of transactions

Which transactions keep the limits that reading sets, and that edits keep them.  Writing checks no limit,
so only transactions that keep them all can be read back. -/

variable {rules : Rules}

/-! ## Limits of parts -/

/-- A list keeps the limits if it is short enough and all its elements do. -/
theorem Codec.list_fits_iff {α : Type} {max : Nat} {item : Codec α} {vs : List α} :
    (Codec.list max item).fits rules vs = true ↔
      vs.length ≤ rules.limit max ∧ ∀ v ∈ vs, item.fits rules v = true := by
  show (decide _ && vs.all _) = true ↔ _
  rw [Bool.and_eq_true, decide_eq_true_eq, List.all_eq_true]

theorem MuxedAccount.fits (account : MuxedAccount) : layout.wire.fits rules account = true := by
  cases account <;> rfl

theorem Extension.fits (ext : Extension) : layout.wire.fits rules ext = true := by
  cases ext
  rfl

/-- A text in a memo is limited in bytes, not in characters. -/
theorem Memo.fits_text {text : String} :
    layout.wire.fits .standard (.text text) = true ↔ (Utf8.encode text).length ≤ maxText :=
  decide_eq_true_iff

/-- The limits of resources are those of the footprint, since all else is numbers. -/
theorem Resources.fits_eq {resources : Resources} :
    layout.wire.fits rules resources = Footprint.layout.wire.fits rules resources.footprint := by
  show (Footprint.layout.wire.fits rules resources.footprint && _) = _
  exact Bool.and_true _

/-- The limits of contract data are those of the footprint as well. -/
theorem SorobanData.fits_eq {data : SorobanData} :
    layout.wire.fits rules data = Footprint.layout.wire.fits rules data.resources.footprint := by
  show (Extension.layout.wire.fits rules data.ext
    && (Resources.layout.wire.fits rules data.resources && true)) = _
  rw [Extension.fits, Bool.true_and, Bool.and_true, Resources.fits_eq]

/-- An operation that invokes keeps the limits if the function and the authorizations do. -/
theorem Operation.fits_invoke {source : Option MuxedAccount} {call : Contract.HostCall} :
    layout.wire.fits rules ⟨source, .invokeHostFunction call⟩ = true ↔
      Contract.HostFunction.layout.wire.fits rules call.function = true
        ∧ (Codec.list Layout.unbounded Contract.Authorization.layout.wire).fits rules call.auth = true := by
  have hsource : (Codec.option MuxedAccount.layout.wire).fits rules source = true := by
    cases source with
    | none => rfl
    | some account => exact MuxedAccount.fits account
  show ((Codec.option MuxedAccount.layout.wire).fits rules source
    && (true && Contract.HostCall.layout.wire.fits rules call)) = true ↔ _
  rw [hsource, Bool.true_and, Bool.true_and]
  exact Bool.and_eq_true_iff

/-- The parts of a transaction that have limits to keep. -/
theorem Transaction.fits_iff {tx : Transaction} :
    layout.wire.fits rules tx = true ↔ Preconditions.layout.wire.fits rules tx.preconditions = true
      ∧ Memo.layout.wire.fits rules tx.memo = true
      ∧ (Codec.list maxOperations Operation.layout.wire).fits rules tx.operations = true
      ∧ SorobanData.optionLayout.wire.fits rules tx.sorobanData = true := by
  show (MuxedAccount.layout.wire.fits rules tx.source
    && (true && (true && (_ && (_ && (_ && _)))))) = true ↔ _
  rw [MuxedAccount.fits]
  simp only [Bool.true_and, Bool.and_eq_true]
  rfl

/-- A transaction of the old kind keeps them when it is lifted to the current one. -/
theorem LegacyTransaction.fits_toTransaction {legacy : LegacyTransaction}
    (h : layout.wire.fits rules legacy = true) :
    Transaction.layout.wire.fits rules legacy.toTransaction = true := by
  -- time bounds become preconditions, and have no limits either way
  have hpreconditions : Preconditions.layout.wire.fits rules (.ofTimeBounds legacy.timeBounds) = true := by
    cases legacy.timeBounds with
    | none => rfl
    | some bounds => rfl
  replace h : (true && (true && (true && ((Codec.option TimeBounds.layout.wire).fits rules legacy.timeBounds
      && (Memo.layout.wire.fits rules legacy.memo
        && ((Codec.list maxOperations Operation.layout.wire).fits rules legacy.operations
          && Extension.layout.wire.fits rules legacy.ext)))))) = true := h
  simp only [Bool.true_and, Bool.and_eq_true] at h
  obtain ⟨-, hmemo, hoperations, -⟩ := h
  exact Transaction.fits_iff.mpr ⟨hpreconditions, hmemo, hoperations, rfl⟩

/-- An outer transaction adds no limits to those of the inner one. -/
theorem FeeBump.fits_eq {bump : FeeBump} :
    layout.wire.fits rules bump = (Signed.layout Transaction.layout).wire.fits rules bump.inner := by
  show (MuxedAccount.layout.wire.fits rules bump.feeSource
    && (true && ((true && (Signed.layout Transaction.layout).wire.fits rules bump.inner)
      && Extension.layout.wire.fits rules bump.ext))) = _
  rw [MuxedAccount.fits, Extension.fits]
  simp only [Bool.true_and, Bool.and_true]

/-- There is a limit to the number of signatures and one to the length of each. -/
theorem Signed.signaturesCodec_fits_iff {signatures : List DecoratedSignature} :
    signaturesCodec.fits .standard signatures = true ↔ signatures.length ≤ maxSignatures
      ∧ ∀ signature ∈ signatures, signature.signature.length ≤ DecoratedSignature.maxLength := by
  have hitem : ∀ signature : DecoratedSignature,
      DecoratedSignature.layout.wire.fits .standard signature = true
        ↔ signature.signature.length ≤ DecoratedSignature.maxLength := by
    intro signature
    exact decide_eq_true_iff
  rw [signaturesCodec, Codec.list_fits_iff]
  simp only [hitem]
  rfl

/-! ## Limits after edits -/

/-- Whether some bytes are read as what an edit puts into a transaction. -/
def Edit.Readable : Edit → Prop
  | .setSorobanData data => SorobanData.layout.wire.Readable data
  | .setAuthorizations auth =>
    (Codec.list Layout.unbounded Contract.Authorization.layout.wire).Readable auth
  | .setFootprint footprint => Footprint.layout.wire.Readable footprint
  | .endorse _ | .addResourceFee _ => True

namespace Transaction

variable {tx after : Transaction}

/-- Contract data within the limits may take the place of any other. -/
theorem fits_setSorobanData {data : SorobanData} (h : layout.wire.fits rules tx = true)
    (hdata : SorobanData.layout.wire.fits rules data = true) :
    layout.wire.fits rules (tx.setSorobanData data) = true := by
  obtain ⟨hpreconditions, hmemo, hoperations, -⟩ := fits_iff.mp h
  exact fits_iff.mpr ⟨hpreconditions, hmemo, hoperations, hdata⟩

/-- Other authorizations change no number of operations, and one operation at most. -/
theorem fits_authorizeFirst {auth : List Contract.Authorization} {operations operations' : List Operation}
    (hauth : (Codec.list Layout.unbounded Contract.Authorization.layout.wire).fits rules auth = true)
    (hoperations : ∀ operation ∈ operations, Operation.layout.wire.fits rules operation = true)
    (h : authorizeFirst? auth operations = some operations') :
    operations'.length = operations.length
      ∧ ∀ operation ∈ operations', Operation.layout.wire.fits rules operation = true := by
  induction operations generalizing operations' with
  | nil => cases h
  | cons operation rest ih =>
    rcases operation with ⟨source, body⟩
    have hfirst := hoperations _ (List.mem_cons_self ..)
    have hrest := fun other hother => hoperations other (List.mem_cons_of_mem _ hother)
    rw [authorizeFirst?] at h
    dsimp only at h
    split at h
    -- the first operation invokes, and only its authorizations change
    · rename_i call
      cases h
      refine ⟨rfl, List.forall_mem_cons.mpr ⟨?_, hrest⟩⟩
      exact Operation.fits_invoke.mpr ⟨(Operation.fits_invoke.mp hfirst).1, hauth⟩
    -- another operation is left, and the search goes on behind it
    · rcases Option.map_eq_some_iff.mp h with ⟨rest', hrest', rfl⟩
      rcases ih hrest hrest' with ⟨hlength, hall⟩
      exact ⟨congrArg (· + 1) hlength, List.forall_mem_cons.mpr ⟨hfirst, hall⟩⟩

/-- Replacing the authorizations of the call keeps the limits if the new ones do. -/
theorem fits_setAuthorizations {auth : List Contract.Authorization}
    (h : layout.wire.fits rules tx = true)
    (hauth : (Codec.list Layout.unbounded Contract.Authorization.layout.wire).fits rules auth = true)
    (hafter : tx.setAuthorizations? auth = some after) : layout.wire.fits rules after = true := by
  obtain ⟨hpreconditions, hmemo, hoperations, hdata⟩ := fits_iff.mp h
  rcases Option.map_eq_some_iff.mp hafter with ⟨operations, hauthorize, rfl⟩
  rw [Codec.list_fits_iff] at hoperations
  rcases fits_authorizeFirst hauth hoperations.2 hauthorize with ⟨hlength, hall⟩
  -- there are as many operations as before, so they are not too many
  rw [← hlength] at hoperations
  exact fits_iff.mpr ⟨hpreconditions, hmemo, Codec.list_fits_iff.mpr ⟨hoperations.1, hall⟩, hdata⟩

/-- Replacing the footprint keeps the limits, as it is all that has limits in contract data. -/
theorem fits_setFootprint {footprint : Footprint} (h : layout.wire.fits rules tx = true)
    (hfootprint : Footprint.layout.wire.fits rules footprint = true)
    (hafter : tx.setFootprint? footprint = some after) : layout.wire.fits rules after = true := by
  unfold setFootprint? at hafter
  split at hafter
  · cases hafter
    exact fits_setSorobanData h (SorobanData.fits_eq.trans hfootprint)
  · cases hafter

end Transaction

namespace Signed

/-- A signature is added only where there is room for it, and only if it is short enough. -/
theorem fits_endorse {τ : Type} [Signable τ] {tx : Layout τ} {signed : Signed τ}
    (h : (layout tx).wire.fits .standard signed = true) (endorsement : Endorsement) :
    (layout tx).wire.fits .standard ((endorse endorsement).call signed).2 = true := by
  rcases hcall : (endorse endorsement).call signed with ⟨result, after⟩
  cases result with
  | error cause =>
    -- a refusal leaves all as it was
    rcases call_endorse_eq_error.mp hcall with ⟨-, rfl⟩
    exact h
  | ok u =>
    -- one entry more, for which there was room
    rcases call_endorse_eq_ok.mp hcall with ⟨entry, -, hroom, hshort, rfl⟩
    rw [fits_iff, signaturesCodec_fits_iff] at h ⊢
    rcases h with ⟨htx, -, hsignatures⟩
    refine ⟨htx, ?_, ?_⟩
    · rw [List.length_append, List.length_singleton]
      exact hroom
    · intro signature hmem
      rcases List.mem_append.mp hmem with hmem | hmem
      · exact hsignatures signature hmem
      · rw [List.mem_singleton.mp hmem]
        exact hshort

/-- A change of the body keeps the limits if its results do. -/
theorem fits_changeBody {change? : Transaction → Option Transaction} {signed : Signed Transaction}
    (h : (layout Transaction.layout).wire.fits .standard signed = true)
    (hchange : ∀ tx, change? signed.tx = some tx → Transaction.layout.wire.fits .standard tx = true) :
    (layout Transaction.layout).wire.fits .standard ((changeBody change?).call signed).2 = true := by
  rw [call_changeBody]
  cases htx : change? signed.tx with
  | none => exact h
  | some tx => exact fits_iff.mpr ⟨hchange tx htx, (fits_iff.mp h).2⟩

/-- Each kind of edit keeps the limits, whether it succeeds or not. -/
theorem fits_edit {signed : Signed Transaction} {edit : Edit}
    (h : (layout Transaction.layout).wire.fits .standard signed = true) (hedit : edit.Readable) :
    (layout Transaction.layout).wire.fits .standard ((Signed.edit edit).call signed).2 = true := by
  have htx := (fits_iff.mp h).1
  cases edit with
  | endorse endorsement =>
    rw [Signed.edit, Method.call_bind_pure]
    exact fits_endorse h endorsement
  | addResourceFee fee =>
    rw [Signed.edit, Method.call_bind_pure, call_addResourceFee]
    split
    · exact h
    · exact h
  | setSorobanData data =>
    -- what some bytes are read as keeps the limits
    have hdata := SorobanData.hasParts.wire.readable_iff.mp hedit
    rw [Signed.edit]
    refine fits_changeBody h fun tx hsome => ?_
    cases hsome
    exact Transaction.fits_setSorobanData htx hdata
  | setAuthorizations auth =>
    have hcodec : Codec.Composed false (.list Layout.unbounded Contract.Authorization.layout.wire) :=
      .list _ Contract.Authorization.hasParts.wire
    have hauth := hcodec.readable_iff.mp hedit
    rw [Signed.edit]
    exact fits_changeBody h fun tx hsome => Transaction.fits_setAuthorizations htx hauth hsome
  | setFootprint footprint =>
    have hfootprint := Footprint.hasParts.wire.readable_iff.mp hedit
    rw [Signed.edit]
    exact fits_changeBody h fun tx hsome => Transaction.fits_setFootprint htx hfootprint hsome

end Signed

end LedgerTx
