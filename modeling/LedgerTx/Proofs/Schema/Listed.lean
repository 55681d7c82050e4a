import LedgerTx.Proofs.Layout.Run
import LedgerTx.Proofs.Parts.Transaction
import LedgerTx.Transaction.Text

namespace LedgerTx.Schema

open Listing Layout

/-! # Reading listings always advances

Readers of listings ask for one line after the other and stop at the first that they refuse, whatever counts
and nesting the lines claim.  Every type that has a place of its own in listings takes a line at least. -/

/-! ## The types -/

/-- A type that stands in listings. -/
structure ListedType where
  {Value : Type}
  layout : Layout Value

/-- Values on one line, and small records. -/
def listedScalars : List (String × ListedType) := [
  ("u32", ⟨Layout.uint32⟩),
  ("PublicKey", ⟨AccountId.layout⟩),
  ("MuxedAccount", ⟨MuxedAccount.layout⟩),
  ("SignerKey", ⟨SignerKey.layout⟩),
  ("Signer", ⟨AccountSigner.layout⟩),
  ("DecoratedSignature", ⟨DecoratedSignature.layout⟩),
  ("Asset", ⟨Asset.layout⟩),
  ("TrustLineAsset", ⟨TrustLineAsset.layout⟩),
  ("ChangeTrustAsset", ⟨ChangeTrustAsset.layout⟩),
  ("Price", ⟨Price.layout⟩),
  ("ClaimableBalanceId", ⟨BalanceId.layout⟩),
  ("LedgerKey", ⟨LedgerKey.layout⟩)]

/-- Contract values, and what contracts are called with. -/
def listedContracts : List (String × ListedType) := [
  ("ScAddress", ⟨Contract.Address.layout⟩),
  ("ContractExecutable", ⟨Contract.Executable.layout⟩),
  ("ScMapEntry", ⟨Contract.Entry.layout Contract.Value.layout⟩),
  ("ScVal", ⟨Contract.Value.layout⟩),
  ("ExtensionPoint", ⟨Extension.layout⟩),
  ("ContractIdPreimage", ⟨Contract.IdSource.layout⟩),
  ("CreateContractArgs", ⟨Contract.Creation.layout⟩),
  ("HostFunction", ⟨Contract.HostFunction.layout⟩),
  ("SorobanCredentials", ⟨Contract.Credentials.layout⟩),
  ("SorobanAuthorizedFunction", ⟨Contract.Function.layout⟩),
  ("SorobanAuthorizedInvocation", ⟨Contract.Invocation.layout⟩),
  ("SorobanAuthorizationEntry", ⟨Contract.Authorization.layout⟩),
  ("InvokeHostFunctionOp", ⟨Contract.HostCall.layout⟩),
  ("BumpFootprintExpirationOp", ⟨BumpFootprintExpiration.layout⟩),
  ("RestoreFootprintOp", ⟨RestoreFootprint.layout⟩),
  ("SorobanTransactionData", ⟨SorobanData.layout⟩)]

/-- Operations, transactions and envelopes. -/
def listedTransactions : List (String × ListedType) := [
  ("ClaimPredicate", ⟨Predicate.layout⟩),
  ("Claimant", ⟨Claimant.layout⟩),
  ("Operation", ⟨Operation.layout⟩),
  ("TimeBounds", ⟨TimeBounds.layout⟩),
  ("LedgerBounds", ⟨LedgerBounds.layout⟩),
  ("Preconditions", ⟨Preconditions.layout⟩),
  ("Memo", ⟨Memo.layout⟩),
  ("Transaction", ⟨Transaction.layout⟩),
  ("TransactionV0", ⟨LegacyTransaction.layout⟩),
  ("TransactionV1Envelope", ⟨Signed.layout Transaction.layout⟩),
  ("TransactionV0Envelope", ⟨Signed.layout LegacyTransaction.layout⟩),
  ("FeeBumpTransaction", ⟨FeeBump.layout⟩),
  ("FeeBumpTransactionEnvelope", ⟨Signed.layout FeeBump.layout⟩),
  ("TransactionEnvelope", ⟨Envelope.layout⟩)]

/-- The types that stand in listings, by their names. -/
def listedTypes : List (String × ListedType) :=
  listedScalars ++ listedContracts ++ listedTransactions

/-- A type whose layout is put together from those of single values, and that no value of is read where no
line is left. -/
structure ListedType.Lawful (type : ListedType) : Prop where
  exists_hasParts : ∃ parts, HasParts true type.layout parts
  read_nil : ∀ path, ∃ e, type.layout.form.read path [] = .error e

/-- Whatever its parts are, a layout that has parts is put together from those of single values. -/
theorem ListedType.Lawful.of_hasParts {α : Type} {layout : Layout α} {parts : α → List Part}
    (h : HasParts true layout parts) (hnil : ∀ path, ∃ e, layout.form.read path [] = .error e) :
    Lawful ⟨layout⟩ :=
  ⟨⟨parts, h⟩, hnil⟩

/-- Single values and small records ask for a line first. -/
theorem listedScalars_lawful : ∀ entry ∈ listedScalars, entry.2.Lawful := by
  simp only [listedScalars, List.forall_mem_cons]
  exact ⟨.of_hasParts .uint32 fun _ => ⟨_, rfl⟩, .of_hasParts AccountId.hasParts fun _ => ⟨_, rfl⟩,
    .of_hasParts MuxedAccount.hasParts fun _ => ⟨_, rfl⟩,
    .of_hasParts SignerKey.hasParts fun _ => ⟨_, rfl⟩,
    .of_hasParts AccountSigner.hasParts fun _ => ⟨_, rfl⟩,
    .of_hasParts DecoratedSignature.hasParts fun _ => ⟨_, rfl⟩,
    .of_hasParts Asset.hasParts fun _ => ⟨_, rfl⟩,
    .of_hasParts TrustLineAsset.hasParts fun _ => ⟨_, rfl⟩,
    .of_hasParts ChangeTrustAsset.hasParts fun _ => ⟨_, rfl⟩,
    .of_hasParts Price.hasParts fun _ => ⟨_, rfl⟩, .of_hasParts BalanceId.hasParts fun _ => ⟨_, rfl⟩,
    .of_hasParts LedgerKey.hasParts fun _ => ⟨_, rfl⟩, fun entry h => absurd h List.not_mem_nil⟩

open Contract in
/-- Contract values and calls ask for a line first. -/
theorem listedContracts_lawful : ∀ entry ∈ listedContracts, entry.2.Lawful := by
  simp only [listedContracts, List.forall_mem_cons]
  exact ⟨.of_hasParts Address.hasParts fun _ => ⟨_, rfl⟩,
    .of_hasParts Executable.hasParts fun _ => ⟨_, rfl⟩,
    .of_hasParts (Entry.hasParts Value.hasParts) fun _ => ⟨_, rfl⟩,
    .of_hasParts Value.hasParts fun _ => ⟨_, rfl⟩, .of_hasParts Extension.hasParts fun _ => ⟨_, rfl⟩,
    .of_hasParts IdSource.hasParts fun _ => ⟨_, rfl⟩, .of_hasParts Creation.hasParts fun _ => ⟨_, rfl⟩,
    .of_hasParts HostFunction.hasParts fun _ => ⟨_, rfl⟩,
    .of_hasParts Credentials.hasParts fun _ => ⟨_, rfl⟩,
    .of_hasParts Function.hasParts fun _ => ⟨_, rfl⟩, .of_hasParts Invocation.hasParts fun _ => ⟨_, rfl⟩,
    .of_hasParts Authorization.hasParts fun _ => ⟨_, rfl⟩,
    .of_hasParts HostCall.hasParts fun _ => ⟨_, rfl⟩,
    .of_hasParts BumpFootprintExpiration.hasParts fun _ => ⟨_, rfl⟩,
    .of_hasParts RestoreFootprint.hasParts fun _ => ⟨_, rfl⟩,
    .of_hasParts SorobanData.hasParts fun _ => ⟨_, rfl⟩, fun entry h => absurd h List.not_mem_nil⟩

/-- Operations, transactions and envelopes ask for a line first. -/
theorem listedTransactions_lawful : ∀ entry ∈ listedTransactions, entry.2.Lawful := by
  simp only [listedTransactions, List.forall_mem_cons]
  exact ⟨.of_hasParts Predicate.hasParts fun _ => ⟨_, rfl⟩,
    .of_hasParts Claimant.hasParts fun _ => ⟨_, rfl⟩, .of_hasParts Operation.hasParts fun _ => ⟨_, rfl⟩,
    .of_hasParts TimeBounds.hasParts fun _ => ⟨_, rfl⟩,
    .of_hasParts LedgerBounds.hasParts fun _ => ⟨_, rfl⟩,
    .of_hasParts Preconditions.hasParts fun _ => ⟨_, rfl⟩, .of_hasParts Memo.hasParts fun _ => ⟨_, rfl⟩,
    .of_hasParts Transaction.hasParts fun _ => ⟨_, rfl⟩,
    .of_hasParts LegacyTransaction.hasParts fun _ => ⟨_, rfl⟩,
    .of_hasParts (Signed.hasParts Transaction.hasParts) fun _ => ⟨_, rfl⟩,
    .of_hasParts (Signed.hasParts LegacyTransaction.hasParts) fun _ => ⟨_, rfl⟩,
    .of_hasParts FeeBump.hasParts fun _ => ⟨_, rfl⟩,
    .of_hasParts (Signed.hasParts FeeBump.hasParts) fun _ => ⟨_, rfl⟩,
    .of_hasParts Envelope.hasParts fun _ => ⟨_, rfl⟩, fun entry h => absurd h List.not_mem_nil⟩

/-- All types that stand in listings are lawful. -/
theorem listedTypes_lawful : ∀ entry ∈ listedTypes, entry.2.Lawful := by
  intro entry h
  simp only [listedTypes, List.mem_append] at h
  rcases h with (h | h) | h
  · exact listedScalars_lawful entry h
  · exact listedContracts_lawful entry h
  · exact listedTransactions_lawful entry h

/-- A lawful type is read line after line, and takes one at least. -/
theorem ListedType.Lawful.advances {type : ListedType} (h : type.Lawful) (path : Path) :
    Advances (type.layout.form.read path) := by
  obtain ⟨parts, hparts⟩ := h.exists_hasParts
  exact Composed.advances hparts h.read_nil path

/-- The count of a list takes a line before its values are read. -/
theorem ListedType.Lawful.list_advances {type : ListedType} (h : type.Lawful) (max : Nat) (path : Path) :
    Advances ((Layout.list max type.layout).form.read path) := by
  obtain ⟨parts, hparts⟩ := h.exists_hasParts
  exact (Composed.list max hparts).advances (fun _ => ⟨_, rfl⟩) path

/-- Conditions inside conditions are read to one level less, and take a line at every level. -/
theorem level_predicate_advances (n : Nat) (path : Path) :
    Advances ((Layout.level .nestedTooDeeply Predicate.step n).form.read path) := by
  have hlevel : Composed false (levelUpTo .nestedTooDeeply Predicate.step n n) _ _ :=
    Composed.levelUpTo Predicate.recursion Predicate.step_composed .nestedTooDeeply (Nat.le_refl n)
  refine hlevel.advances (fun path => ?_) path
  -- with no level left, a condition is refused before any line is asked for
  cases n with
  | zero => exact ⟨_, rfl⟩
  | succ n => exact ⟨_, rfl⟩

/-! ## Every type -/

theorem value_mem_listedTypes : ("ScVal", ⟨Contract.Value.layout⟩) ∈ listedTypes := by
  refine List.mem_append_left _ (List.mem_append_right _ ?_)
  simp [listedContracts]

theorem envelope_mem_listedTypes : ("TransactionEnvelope", ⟨Envelope.layout⟩) ∈ listedTypes := by
  refine List.mem_append_right _ ?_
  simp [listedTransactions]

/-- A type that stands in listings, and a list of it, is read line after line and takes one at least, and so
is a condition at every level.  Of a text, whatever counts it claims, no line is asked for twice, so
there are as many reads as lines that hold more than blanks, and one more at the end; the whole text is
read in one such run.  Contract values and invocations are read by their steps, no deeper than the
lines can fill. -/
theorem read_advances :
    (∀ entry ∈ listedTypes, ∀ path, Advances (entry.2.layout.form.read path)
      ∧ ∀ max, Advances ((Layout.list max entry.2.layout).form.read path))
    ∧ (∀ n path, Advances ((Layout.level .nestedTooDeeply Predicate.step n).form.read path))
    ∧ (∀ {text : List Char} {entries : List Entry}, Entry.ofText text = .ok entries →
      entries.length = (filledLines text).length
      ∧ (∃ asked result, Run (Envelope.layout.form.read .root) entries asked result
        ∧ Envelope.ofEntries entries = do
          let (envelope, rest) ← result
          finish rest
          return envelope)
      ∧ ∀ {left : List Entry}, left <:+ entries → ∀ {α : Type} {read : Reader α}
          {asked : List (Option Entry)} {result : Except ListingError (α × List Entry)},
          Run read left asked result →
            result = read left ∧ asked <+: left.map some ++ [none] ∧ asked.Nodup
              ∧ asked.length ≤ (filledLines text).length + 1)
    ∧ UnfoldsListing Contract.Value.step Contract.Value.layout
    ∧ UnfoldsListing Contract.Invocation.step Contract.Invocation.layout := by
  refine ⟨fun entry hentry path => ?_, level_predicate_advances, ?_,
    Contract.Value.recursion.unfoldsListing, Contract.Invocation.recursion.unfoldsListing⟩
  · have hlawful := listedTypes_lawful entry hentry
    exact ⟨hlawful.advances path, fun max => hlawful.list_advances max path⟩
  · intro text entries hentries
    -- the whole text is one run of the reader of envelopes
    obtain ⟨asked, hwhole⟩ :=
      ((listedTypes_lawful _ envelope_mem_listedTypes).advances .root).runs entries
    refine ⟨length_of_ofText hentries, ⟨asked, _, hwhole, rfl⟩,
      fun {left} hleft α read asked result hrun => ?_⟩
    -- entries are numbered, so those that are left are distinct too
    have hnodup : left.Nodup := (nodup_of_ofText hentries).sublist hleft.sublist
    refine ⟨hrun.result_eq, hrun.asked_eq.2, hrun.asked_nodup hnodup, ?_⟩
    rw [← length_of_ofText hentries]
    exact hrun.length_asked_le.trans (Nat.succ_le_succ hleft.length_le)

/-- A vector that claims to have as many values as a count can say, and has one. -/
theorem read_advances_maxCount :
    ∃ entries asked,
      Entry.ofText "type: SCV_VEC\nvec._present: true\nvec.len: 4294967295\nvec[0].type: SCV_VOID".toList
          = .ok entries
        ∧ Run (Contract.Value.layout.form.read .root) entries asked (.error ⟨"vec[1].type", .missingLine⟩)
        ∧ asked.length ≤ 5 := by
  have hentries : Entry.ofText
      "type: SCV_VEC\nvec._present: true\nvec.len: 4294967295\nvec[0].type: SCV_VOID".toList
        = .ok [⟨1, "type".toList, "SCV_VEC".toList⟩, ⟨2, "vec._present".toList, "true".toList⟩,
          ⟨3, "vec.len".toList, "4294967295".toList⟩, ⟨4, "vec[0].type".toList, "SCV_VOID".toList⟩] := rfl
  obtain ⟨asked, hrun⟩ := (read_advances.1 _ value_mem_listedTypes .root).1.runs _
  exact ⟨_, asked, hentries, hrun, ((read_advances.2.2.1 hentries).2.2 (List.suffix_refl _) hrun).2.2.2⟩

end LedgerTx.Schema
