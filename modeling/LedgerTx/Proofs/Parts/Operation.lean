import LedgerTx.Operation.Basic
import LedgerTx.Proofs.Parts.Ledger

namespace LedgerTx

open Layout

/-! # Parts of operations -/

variable {lenient : Bool}

/-! ## Conditions of claims -/

instance : Enumeration.Numbered PredicateKind := ⟨by intro k; cases k <;> rfl⟩

instance : Enumeration.Named PredicateKind :=
  ⟨by intro k; cases k <;> rfl, by intro k; cases k <;> rfl⟩

instance : Enumeration.Numbered ClaimantKind := ⟨by intro k; cases k; rfl⟩

instance : Enumeration.Named ClaimantKind := ⟨by intro k; cases k; rfl, by intro k; cases k; rfl⟩

namespace Predicate

/-- The conditions one level below a condition. -/
def inside : Predicate → List Predicate
  | .and parts => parts
  | .or parts => parts
  | .not (some part) => [part]
  | _ => []

/-- The depth of some conditions is that of the deepest. -/
theorem depthOfParts_le_iff {parts : List Predicate} {n : Nat} :
    depthOfParts parts ≤ n ↔ ∀ part ∈ parts, part.depth ≤ n := by
  induction parts with
  | nil => simp [depthOfParts]
  | cons part parts ih => rw [depthOfParts, Nat.max_le, ih, List.forall_mem_cons]

/-- A condition is one level deeper than the conditions below it. -/
theorem depth_le_iff {p : Predicate} {n : Nat} : p.depth ≤ n + 1 ↔ ∀ q ∈ p.inside, q.depth ≤ n := by
  -- a condition with none below it is one level
  have hleaf : ∀ {d : Nat}, d = 1 → (d ≤ n + 1 ↔ ∀ q ∈ ([] : List Predicate), q.depth ≤ n) := by
    rintro d rfl
    exact ⟨fun _ q hq => absurd hq List.not_mem_nil, fun _ => Nat.succ_le_succ (Nat.zero_le n)⟩
  cases p with
  | and parts | or parts =>
    rw [depth, Nat.succ_le_succ_iff]
    exact depthOfParts_le_iff
  | not part =>
    cases part with
    | none => exact hleaf rfl
    | some part =>
      have hone : (∀ q ∈ [part], q.depth ≤ n) ↔ part.depth ≤ n := List.forall_mem_singleton
      rw [depth, Nat.succ_le_succ_iff]
      exact hone.symm
  | _ => exact hleaf rfl

theorem depth_pos (p : Predicate) : 0 < p.depth := by
  unfold depth
  split <;> exact Nat.succ_pos _

/-- What is laid out for a kind of condition depends on the conditions below as far as these go. -/
theorem payload_agree {layout other : Layout Predicate} {n : Nat} (h : Agree 0 n layout other)
    (kind : PredicateKind) : Agree 0 n (payload layout kind) (payload other kind) := by
  -- conditions on times hold no conditions
  have hleaf : ∀ {β : Type} {leaf : Layout β}, HasParts false leaf (fun _ => []) → Agree 0 n leaf leaf :=
    fun hparts => Composed.agree hparts n
  cases kind with
  | and => exact (h.list _).weaken.under _
  | or => exact (h.list _).weaken.under _
  | not => exact h.option.weaken.under _
  | unconditional => exact hleaf .unit
  | beforeAbsoluteTime => exact (hleaf .signedTime).under _
  | beforeRelativeTime => exact (hleaf .int64).under _

/-- Conditions are laid out level by level. -/
theorem recursion : Recursion depth inside step where
  nests := by
    refine .union (fun k => ?_) "type"
    -- three kinds hold conditions, and the others none
    cases k with
    | and =>
      refine ((Nests.self.list _).under "andPredicates").congr fun parts q => ?_
      show q ∈ parts ↔ q ∈ parts.flatMap fun part => [part]
      simp
    | or =>
      refine ((Nests.self.list _).under "orPredicates").congr fun parts q => ?_
      show q ∈ parts ↔ q ∈ parts.flatMap fun part => [part]
      simp
    | not =>
      refine (Nests.self.option.under "notPredicate").congr fun part q => ?_
      cases part with
      | none => exact Iff.rfl
      | some part => exact Iff.rfl
    | _ => exact .const _
  pos := depth_pos
  depth_le_iff := depth_le_iff
  agree h := .union (payload_agree h)

/-- A condition is read if those below it are. -/
theorem step_composed {layout : Layout Predicate} {good : Predicate → Prop}
    (h : Composed false layout (fun _ => True) good) :
    Composed false (step layout) (fun _ => True) fun p => ∀ q ∈ p.inside, good q := by
  -- nothing is below the conditions on times
  have hleaf : ∀ {β : Type} {leaf : Layout β}, HasParts false leaf (fun _ => []) →
      Composed false leaf (fun _ => True) fun _ => ∀ q ∈ ([] : List Predicate), good q := by
    intro β leaf hparts
    refine Composed.congr hparts (fun _ => ?_) fun _ => ?_
    · exact ⟨fun _ part hpart => absurd hpart List.not_mem_nil, fun _ => trivial⟩
    · exact ⟨fun _ part hpart => absurd hpart List.not_mem_nil,
        fun _ q hq => absurd hq List.not_mem_nil⟩
  have hlist : Composed false (.list maxParts layout) (fun _ => True) fun parts => ∀ q ∈ parts, good q :=
    (Composed.list maxParts h).congr (fun _ => ⟨fun _ _ _ => trivial, fun _ => trivial⟩) fun _ => Iff.rfl
  -- any kind may be read, since its name tells it
  have hkind : Composed false (.under "type" (.constant PredicateKind)) (fun _ => True) fun _ => True :=
    .under rfl (.line (.constant PredicateKind) .constant (.of_fits .constant fun _ => rfl))
  refine .union hkind fun k => ?_
  cases k with
  | unconditional => exact hleaf .unit
  | and => exact .under rfl hlist
  | or => exact .under rfl hlist
  | not =>
    refine .under rfl ((Composed.option h).congr (fun _ => ?_) fun part => ?_)
    · exact ⟨fun _ _ _ => trivial, fun _ => trivial⟩
    · cases part with
      | none =>
        constructor
        · rintro - q ⟨⟩
        · rintro - q ⟨⟩
      | some part =>
        refine List.forall_mem_singleton.trans ⟨fun hpart q hq => ?_, fun hall => hall part rfl⟩
        cases hq
        exact hpart
  | beforeAbsoluteTime => exact hleaf (.under rfl .signedTime)
  | beforeRelativeTime => exact hleaf (.under rfl .int64)

/-- A condition is a part itself, with all that is below it. -/
theorem hasParts : HasParts lenient layout fun p => [.predicate p] := by
  refine Composed.congr (.recursiveUpTo recursion step_composed maxLevels .nestedTooDeeply)
    (fun p => ?_) fun p => ?_
  · exact ⟨fun _ => trivial, fun _ => List.forall_mem_singleton.mpr trivial⟩
  · exact List.forall_mem_singleton

end Predicate

/-- What matters in a claimant is the condition of the claim. -/
theorem Claimant.hasParts : HasParts lenient layout fun claimant => [.predicate claimant.predicate] :=
  .map (.field rfl .constant (.under rfl (.field rfl AccountId.hasParts (.under rfl Predicate.hasParts))))

/-! ## Bodies -/

instance : Enumeration.Numbered RevokeKind := ⟨by intro k; cases k <;> rfl⟩

instance : Enumeration.Named RevokeKind :=
  ⟨by intro k; cases k <;> rfl, by intro k; cases k <;> rfl⟩

instance : Enumeration.Numbered OperationKind := ⟨by intro k; cases k <;> rfl⟩

instance : Enumeration.Named OperationKind :=
  ⟨by intro k; cases k <;> rfl, by intro k; cases k <;> rfl⟩

theorem CreateAccount.hasParts : HasParts lenient layout fun _ => [] :=
  .map (.field rfl AccountId.hasParts (.under rfl .amount))

/-- The signer that is set. -/
def SetOptions.parts (op : SetOptions) : List Part :=
  op.signer.toList.flatMap fun signer => [.signer signer.key]

/-- Of all the options, only the signer matters. -/
theorem SetOptions.hasParts : HasParts lenient layout parts :=
  .map (.field rfl (.option_nil AccountId.hasParts) (.field rfl (.option_nil .uint32)
    (.field rfl (.option_nil .uint32) (.field rfl (.option_nil .uint32) (.field rfl (.option_nil .uint32)
      (.field rfl (.option_nil .uint32) (.field rfl (.option_nil .uint32)
        (.field rfl (.option_nil (.text _)) (.under rfl (.option AccountSigner.hasParts))))))))))

theorem ManageData.hasParts : HasParts lenient layout fun _ => [] :=
  .map (.field rfl (.text _) (.under rfl (.option_nil (.bytes _))))

theorem BumpSequence.hasParts : HasParts lenient layout fun _ => [] :=
  .map (.under rfl .int64)

theorem Payment.hasParts : HasParts lenient layout fun op => op.asset.parts := by
  have hfields : HasParts lenient layout fun op => [] ++ (op.asset.parts ++ []) :=
    .map (.field rfl MuxedAccount.hasParts (.field rfl Asset.hasParts (.under rfl .amount)))
  exact hfields.congr fun op => (List.append_nil _).symm

/-- The codes of all assets that a payment goes through. -/
def PathPaymentReceive.parts (op : PathPaymentReceive) : List Part :=
  op.sendAsset.parts ++ op.destAsset.parts ++ op.path.flatMap Asset.parts

/-- The assets at both ends come first, and then those between. -/
theorem PathPaymentReceive.hasParts : HasParts lenient layout parts := by
  have hfields : HasParts lenient layout fun op =>
      op.sendAsset.parts ++ ([] ++ ([] ++ (op.destAsset.parts ++ ([] ++ op.path.flatMap Asset.parts)))) :=
    .map (.field rfl Asset.hasParts (.field rfl .amount (.field rfl MuxedAccount.hasParts
      (.field rfl Asset.hasParts (.field rfl .amount (.under rfl (.list Asset.hasParts _)))))))
  exact hfields.congr fun op => List.append_assoc ..

/-- The codes of all assets that a payment goes through. -/
def PathPaymentSend.parts (op : PathPaymentSend) : List Part :=
  op.sendAsset.parts ++ op.destAsset.parts ++ op.path.flatMap Asset.parts

/-- Neither the destination nor the amounts matter. -/
theorem PathPaymentSend.hasParts : HasParts lenient layout parts := by
  have hfields : HasParts lenient layout fun op =>
      op.sendAsset.parts ++ ([] ++ ([] ++ (op.destAsset.parts ++ ([] ++ op.path.flatMap Asset.parts)))) :=
    .map (.field rfl Asset.hasParts (.field rfl .amount (.field rfl MuxedAccount.hasParts
      (.field rfl Asset.hasParts (.field rfl .amount (.under rfl (.list Asset.hasParts _)))))))
  exact hfields.congr fun op => List.append_assoc ..

/-- The code of the asset, and the conditions of the claimants. -/
def CreateClaimableBalance.parts (op : CreateClaimableBalance) : List Part :=
  op.asset.parts ++ op.claimants.flatMap fun claimant => [.predicate claimant.predicate]

theorem CreateClaimableBalance.hasParts : HasParts lenient layout parts :=
  .map (.field rfl Asset.hasParts (.field rfl .amount (.under rfl (.list Claimant.hasParts _))))

theorem ClaimClaimableBalance.hasParts : HasParts lenient layout fun _ => [] :=
  .map (.under rfl BalanceId.hasParts)

/-- Of an offer, the two assets matter. -/
theorem ManageSellOffer.hasParts :
    HasParts lenient layout fun op => op.selling.parts ++ op.buying.parts := by
  have hfields : HasParts lenient layout fun op =>
      op.selling.parts ++ (op.buying.parts ++ ([] ++ ([] ++ []))) :=
    .map (.field rfl Asset.hasParts (.field rfl Asset.hasParts (.field rfl .amount (.field rfl Price.hasParts
      (.under rfl .int64)))))
  exact hfields.congr fun op => congrArg (op.selling.parts ++ ·) (List.append_nil _).symm

/-- To buy is laid out as to sell is. -/
theorem ManageBuyOffer.hasParts :
    HasParts lenient layout fun op => op.selling.parts ++ op.buying.parts := by
  have hfields : HasParts lenient layout fun op =>
      op.selling.parts ++ (op.buying.parts ++ ([] ++ ([] ++ []))) :=
    .map (.field rfl Asset.hasParts (.field rfl Asset.hasParts (.field rfl .amount (.field rfl Price.hasParts
      (.under rfl .int64)))))
  exact hfields.congr fun op => congrArg (op.selling.parts ++ ·) (List.append_nil _).symm

/-- A passive offer has no number, and the same assets matter. -/
theorem CreatePassiveOffer.hasParts :
    HasParts lenient layout fun op => op.selling.parts ++ op.buying.parts := by
  have hfields : HasParts lenient layout fun op =>
      op.selling.parts ++ (op.buying.parts ++ ([] ++ [])) :=
    .map (.field rfl Asset.hasParts (.field rfl Asset.hasParts (.field rfl .amount
      (.under rfl Price.hasParts))))
  exact hfields.congr fun op => congrArg (op.selling.parts ++ ·) (List.append_nil _).symm

/-- A pool is known by its hash, so nothing matters in a deposit. -/
theorem PoolDeposit.hasParts : HasParts lenient layout fun _ => [] :=
  .map (.field rfl (.fixed 32) (.field rfl .amount (.field rfl .amount (.field rfl Price.hasParts
    (.under rfl Price.hasParts)))))

theorem PoolWithdraw.hasParts : HasParts lenient layout fun _ => [] :=
  .map (.field rfl (.fixed 32) (.field rfl .amount (.field rfl .amount (.under rfl .amount))))

/-- The codes of the asset or of the pool. -/
def ChangeTrust.parts (op : ChangeTrust) : List Part :=
  op.line.parts PoolParameters.parts

theorem ChangeTrust.hasParts : HasParts lenient layout parts := by
  have hfields : HasParts lenient layout fun op => op.line.parts PoolParameters.parts ++ [] :=
    .map (.field rfl ChangeTrustAsset.hasParts (.under rfl .amount))
  exact hfields.congr fun op => (List.append_nil _).symm

/-- The bare code of an asset is a part as well. -/
theorem AllowTrust.hasParts : HasParts lenient layout fun op => [.code op.asset] :=
  .map (.field rfl AccountId.hasParts (.field rfl AssetCode.hasParts (.under rfl .uint32)))

theorem SetTrustLineFlags.hasParts : HasParts lenient layout fun op => op.asset.parts := by
  have hfields : HasParts lenient layout fun op => [] ++ (op.asset.parts ++ ([] ++ [])) :=
    .map (.field rfl AccountId.hasParts (.field rfl Asset.hasParts (.field rfl .uint32 (.under rfl .uint32))))
  exact hfields.congr fun op => (List.append_nil _).symm

theorem Clawback.hasParts : HasParts lenient layout fun op => op.asset.parts := by
  have hfields : HasParts lenient layout fun op => op.asset.parts ++ ([] ++ []) :=
    .map (.field rfl Asset.hasParts (.field rfl MuxedAccount.hasParts (.under rfl .amount)))
  exact hfields.congr fun op => (List.append_nil _).symm

theorem ClawbackClaimableBalance.hasParts : HasParts lenient layout fun _ => [] :=
  .map (.under rfl BalanceId.hasParts)

theorem BeginSponsoring.hasParts : HasParts lenient layout fun _ => [] :=
  .map (.under rfl AccountId.hasParts)

/-- What matters in the key of a ledger entry, or a signer. -/
def RevokeSponsorship.parts : RevokeSponsorship → List Part
  | .ledgerEntry key => key.parts
  | .signer _ key => [.signer key]

/-- Keys of ledger entries make this operation lenient. -/
theorem RevokeSponsorship.hasParts : HasParts true layout parts := by
  refine .union (.under rfl .constant) fun k => ?_
  cases k with
  | ledgerEntry => exact .under rfl LedgerKey.hasParts
  | signer => exact .under rfl (.field rfl AccountId.hasParts (.under rfl SignerKey.hasParts))

theorem BumpFootprintExpiration.hasParts : HasParts lenient layout fun _ => [] :=
  .map (.field rfl Extension.hasParts (.under rfl .uint32))

/-- There is nothing in it but the extension. -/
theorem RestoreFootprint.hasParts : HasParts lenient layout fun _ => [] :=
  .map (.under rfl Extension.hasParts)

/-- What matters in a body. -/
def OperationBody.parts : OperationBody → List Part
  | .payment op => op.asset.parts
  | .pathPaymentReceive op => op.parts
  | .manageSellOffer op => op.selling.parts ++ op.buying.parts
  | .createPassiveOffer op => op.selling.parts ++ op.buying.parts
  | .setOptions op => op.parts
  | .changeTrust op => op.parts
  | .allowTrust op => [.code op.asset]
  | .manageBuyOffer op => op.selling.parts ++ op.buying.parts
  | .pathPaymentSend op => op.parts
  | .createClaimableBalance op => op.parts
  | .revokeSponsorship op => op.parts
  | .clawback op => op.asset.parts
  | .setTrustLineFlags op => op.asset.parts
  | .invokeHostFunction call => call.parts
  | _ => []

/-- Kind by kind, what matters in a body is what matters in its operation. -/
theorem OperationBody.hasParts : HasParts true layout parts := by
  refine .union (.under rfl .constant) fun k => ?_
  cases k with
  | createAccount => exact .under rfl CreateAccount.hasParts
  | payment => exact .under rfl Payment.hasParts
  | pathPaymentReceive => exact .under rfl PathPaymentReceive.hasParts
  | manageSellOffer => exact .under rfl ManageSellOffer.hasParts
  | createPassiveOffer => exact .under rfl CreatePassiveOffer.hasParts
  | setOptions => exact .under rfl SetOptions.hasParts
  | changeTrust => exact .under rfl ChangeTrust.hasParts
  | allowTrust => exact .under rfl AllowTrust.hasParts
  | accountMerge => exact .under rfl MuxedAccount.hasParts
  -- these two have no fields
  | inflation | endSponsoring => exact .unit
  | manageData => exact .under rfl ManageData.hasParts
  | bumpSequence => exact .under rfl BumpSequence.hasParts
  | manageBuyOffer => exact .under rfl ManageBuyOffer.hasParts
  | pathPaymentSend => exact .under rfl PathPaymentSend.hasParts
  | createClaimableBalance => exact .under rfl CreateClaimableBalance.hasParts
  | claimClaimableBalance => exact .under rfl ClaimClaimableBalance.hasParts
  | beginSponsoring => exact .under rfl BeginSponsoring.hasParts
  | revokeSponsorship => exact .under rfl RevokeSponsorship.hasParts
  | clawback => exact .under rfl Clawback.hasParts
  | clawbackClaimableBalance => exact .under rfl ClawbackClaimableBalance.hasParts
  | setTrustLineFlags => exact .under rfl SetTrustLineFlags.hasParts
  | poolDeposit => exact .under rfl PoolDeposit.hasParts
  | poolWithdraw => exact .under rfl PoolWithdraw.hasParts
  | invokeHostFunction => exact .under rfl Contract.HostCall.hasParts
  | bumpFootprintExpiration => exact .under rfl BumpFootprintExpiration.hasParts
  | restoreFootprint => exact .under rfl RestoreFootprint.hasParts

/-- What matters in an operation is what matters in its body. -/
theorem Operation.hasParts : HasParts true layout fun operation => operation.body.parts :=
  .map (.field rfl (.option_nil MuxedAccount.hasParts) (.under rfl OperationBody.hasParts))

end LedgerTx
