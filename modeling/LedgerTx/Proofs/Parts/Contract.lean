import LedgerTx.Contract.Authorization
import LedgerTx.Proofs.Parts.Asset

namespace LedgerTx.Contract

open Layout

/-! # Parts of contract values and calls

Contract values hold nothing that matters.  Trees of calls do, since a contract may be created that wraps
an asset. -/

variable {lenient : Bool}

/-! ## Errors, addresses and executables -/

instance : Enumeration.Numbered ErrorKind := ⟨by intro k; cases k <;> rfl⟩

instance : Enumeration.Named ErrorKind :=
  ⟨by intro k; cases k <;> rfl, by intro k; cases k <;> rfl⟩

instance : Enumeration.Numbered AddressKind := ⟨by intro k; cases k <;> rfl⟩

instance : Enumeration.Named AddressKind :=
  ⟨by intro k; cases k <;> rfl, by intro k; cases k <;> rfl⟩

instance : Enumeration.Numbered ExecutableKind := ⟨by intro k; cases k <;> rfl⟩

instance : Enumeration.Named ExecutableKind :=
  ⟨by intro k; cases k <;> rfl, by intro k; cases k <;> rfl⟩

theorem Error.hasParts : HasParts lenient layout fun _ => [] :=
  .map (.field rfl .constant (.under rfl .int32))

theorem Address.contractId_hasParts : HasParts lenient contractId fun _ => [] :=
  .of_lineLaw (.fixed 32) (.key rfl) fun _ => rfl

/-- An address is that of an account or of a contract. -/
theorem Address.hasParts : HasParts lenient layout fun _ => [] := by
  refine .union (.under rfl .constant) fun k => ?_
  cases k with
  | account => exact .under rfl AccountId.hasParts
  | contract => exact .under rfl contractId_hasParts

/-- The hash of the code is read back, and a token has none. -/
theorem Executable.hasParts : HasParts lenient layout fun _ => [] := by
  refine .union (.under rfl .constant) fun k => ?_
  cases k with
  | wasm => exact .under rfl (.fixed 32)
  | token => exact .unit

/-! ## Wide numbers -/

theorem UInt128.hasParts : HasParts lenient layout fun _ => [] :=
  .map (.field rfl .uint64 (.under rfl .uint64))

theorem Int128.hasParts : HasParts lenient layout fun _ => [] :=
  .map (.field rfl .int64 (.under rfl .uint64))

theorem UInt256.hasParts : HasParts lenient layout fun _ => [] :=
  .map (.field rfl .uint64 (.field rfl .uint64 (.field rfl .uint64 (.under rfl .uint64))))

theorem Int256.hasParts : HasParts lenient layout fun _ => [] :=
  .map (.field rfl .int64 (.field rfl .uint64 (.field rfl .uint64 (.under rfl .uint64))))

/-! ## Values -/

/-- A key and a value are inside an entry. -/
theorem Entry.nests {ν : Type} : Nests 0 (fun e : Entry ν => [e.key, e.val]) layout := by
  have hfields : Nests 0 _ (layout : Layout ν → Layout (Entry ν)) :=
    .map (.pair (.under .self "key") (.under .self "val")) _
  exact hfields

/-- The keys and values of the storage are inside a contract's instance. -/
theorem Instance.nests {ν : Type} :
    Nests 0 (fun i : Instance ν => i.storage.toList.flatMap fun entries =>
      entries.flatMap fun e => [e.key, e.val]) layout := by
  have hfields : Nests 0 _ (layout : Layout ν → Layout (Instance ν)) :=
    .map (.pair (.under (.const _) "executable") (.under (.option (.list Entry.nests _)) "storage")) _
  exact hfields

instance : Enumeration.Numbered ValueKind := ⟨by intro k; cases k <;> rfl⟩

instance : Enumeration.Named ValueKind :=
  ⟨by intro k; cases k <;> rfl, by intro k; cases k <;> rfl⟩

/-- Nothing matters in an entry if nothing does in its key and its value. -/
theorem Entry.hasParts {ν : Type} {value : Layout ν} (h : HasParts lenient value fun _ => []) :
    HasParts lenient (layout value) fun _ => [] :=
  .map (.field rfl h (.under rfl h))

theorem Instance.hasParts {ν : Type} {value : Layout ν} (h : HasParts lenient value fun _ => []) :
    HasParts lenient (layout value) fun _ => [] :=
  .map (.field rfl Executable.hasParts (.under rfl (.option_nil (.list_nil (Entry.hasParts h) _))))

theorem Entry.agree {ν : Type} {value other : Layout ν} {n : Nat} (h : Agree 0 n value other) :
    Agree 0 n (layout value) (layout other) :=
  .map (.pair (h.under "key") (h.under "val")) _

theorem Instance.agree {ν : Type} {value other : Layout ν} {n : Nat} (h : Agree 0 n value other) :
    Agree 0 n (layout value) (layout other) := by
  have hexecutable : HasParts false Executable.layout fun _ => [] := Executable.hasParts
  exact .map (.pair ((Composed.agree hexecutable n).under "executable")
    (((Entry.agree h).list _).weaken.option.weaken.under "storage")) _

namespace Value

/-- The keys and values of a map. -/
def insideEntries (entries : List (Entry Value)) : List Value :=
  entries.flatMap fun entry => [entry.key, entry.val]

/-- The values one level inside a value. -/
def inside : Value → List Value
  | .vec (some items) => items
  | .map (some entries) => insideEntries entries
  | .contractInstance ⟨_, some entries⟩ => insideEntries entries
  | _ => []

/-- The depth of a list of values is that of the deepest. -/
theorem depthOfItems_le_iff {items : List Value} {n : Nat} :
    depthOfItems items ≤ n ↔ ∀ item ∈ items, item.depth ≤ n := by
  induction items with
  | nil => simp [depthOfItems]
  | cons item items ih =>
    rw [depthOfItems, Nat.max_le, ih, List.forall_mem_cons]

/-- The depth of a map is that of the deepest key or value. -/
theorem depthOfEntries_le_iff {entries : List (Entry Value)} {n : Nat} :
    depthOfEntries entries ≤ n ↔ ∀ v ∈ insideEntries entries, v.depth ≤ n := by
  induction entries with
  | nil => simp [depthOfEntries, insideEntries]
  | cons entry entries ih =>
    rcases entry with ⟨key, val⟩
    have hcons : insideEntries (⟨key, val⟩ :: entries) = key :: val :: insideEntries entries := rfl
    rw [depthOfEntries, Nat.max_le, Nat.max_le, ih, hcons, List.forall_mem_cons, List.forall_mem_cons,
      and_assoc]

/-- A value is one level deeper than the values inside it. -/
theorem depth_le_iff {v : Value} {n : Nat} : v.depth ≤ n + 1 ↔ ∀ w ∈ v.inside, w.depth ≤ n := by
  -- all values but vectors, maps and instances are one level
  have hleaf : ∀ {d : Nat}, d = 1 → (d ≤ n + 1 ↔ ∀ w ∈ ([] : List Value), w.depth ≤ n) := by
    rintro d rfl
    exact ⟨fun _ w hw => absurd hw List.not_mem_nil, fun _ => Nat.succ_le_succ (Nat.zero_le n)⟩
  cases v with
  | vec items =>
    cases items with
    | none => exact hleaf rfl
    | some items =>
      rw [depth, Nat.succ_le_succ_iff]
      exact depthOfItems_le_iff
  | map entries =>
    cases entries with
    | none => exact hleaf rfl
    | some entries =>
      rw [depth, Nat.succ_le_succ_iff]
      exact depthOfEntries_le_iff
  | contractInstance i =>
    obtain ⟨executable, _ | entries⟩ := i
    · exact hleaf rfl
    · rw [depth, Nat.succ_le_succ_iff]
      exact depthOfEntries_le_iff
  | _ => exact hleaf rfl

theorem depth_pos (v : Value) : 0 < v.depth := by
  unfold depth
  split <;> exact Nat.succ_pos _

/-- What is laid out for a kind of value holds no parts, if the values inside it hold none. -/
theorem payload_hasParts {value : Layout Value} (h : HasParts lenient value fun _ => [])
    (kind : ValueKind) : HasParts lenient (payload value kind) fun _ => [] := by
  cases kind with
  | bool => exact .under rfl .bool
  | void | instanceKey => exact .unit
  | error => exact .under rfl Error.hasParts
  | uint32 => exact .under rfl .uint32
  | int32 => exact .under rfl .int32
  | uint64 | timepoint | duration => exact .under rfl .uint64
  | int64 => exact .under rfl .int64
  | uint128 => exact .under rfl UInt128.hasParts
  | int128 => exact .under rfl Int128.hasParts
  | uint256 => exact .under rfl UInt256.hasParts
  | int256 => exact .under rfl Int256.hasParts
  | bytes => exact .under rfl (.bytes _)
  | string => exact .under rfl (.text _)
  | symbol => exact .under rfl (.symbol _)
  | vec => exact .under rfl (.option_nil (.list_nil h _))
  | map => exact .under rfl (.option_nil (.list_nil (Entry.hasParts h) _))
  | address => exact .under rfl Address.hasParts
  | contractInstance => exact .under rfl (Instance.hasParts h)
  | nonceKey => exact .under rfl (.under rfl .int64)

theorem step_hasParts {value : Layout Value} (h : HasParts lenient value fun _ => []) :
    HasParts lenient (step value) fun _ => [] :=
  .union (.under rfl .constant) (payload_hasParts h)

/-- What is laid out for a kind of value depends on the values inside as far as these go. -/
theorem payload_agree {value other : Layout Value} {n : Nat} (h : Agree 0 n value other)
    (kind : ValueKind) : Agree 0 n (payload value kind) (payload other kind) := by
  -- most kinds hold no values, so it does not matter how these are laid out
  have hnone : HasParts false (level .missingLine step 0) fun _ => [] :=
    Composed.empty (fun _ _ => ⟨_, rfl⟩) fun _ => ⟨_, fun _ => rfl⟩
  have hleaf := fun kind => Composed.agree (payload_hasParts hnone kind) n
  cases kind with
  | vec => exact (h.list _).weaken.option.weaken.under _
  | map => exact ((Entry.agree h).list _).weaken.option.weaken.under _
  | contractInstance => exact (Instance.agree h).under _
  | void => exact hleaf .void
  | instanceKey => exact hleaf .instanceKey
  | _ => exact hleaf _

/-- Values are laid out level by level. -/
theorem recursion : Recursion depth inside step where
  nests := by
    refine .union (fun k => ?_) "type"
    -- three kinds hold values, and the others none
    cases k with
    | vec =>
      refine ((Nests.self.list _).option.under "vec").congr fun items w => ?_
      cases items with
      | none => exact Iff.rfl
      | some items =>
        show w ∈ items ↔ w ∈ [items].flatMap fun vs => vs.flatMap fun v => [v]
        simp
    | map =>
      refine ((Entry.nests.list _).option.under "map").congr fun entries w => ?_
      cases entries with
      | none => exact Iff.rfl
      | some entries =>
        show w ∈ insideEntries entries
          ↔ w ∈ [entries].flatMap fun es => es.flatMap fun e => [e.key, e.val]
        rw [List.flatMap_singleton]
        exact Iff.rfl
    | contractInstance =>
      refine (Instance.nests.under "instance").congr fun i w => ?_
      obtain ⟨executable, _ | entries⟩ := i
      · exact Iff.rfl
      · show w ∈ insideEntries entries
          ↔ w ∈ [entries].flatMap fun es => es.flatMap fun e => [e.key, e.val]
        rw [List.flatMap_singleton]
        exact Iff.rfl
    | _ => exact .const _
  pos := depth_pos
  depth_le_iff := depth_le_iff
  agree h := .union (payload_agree h)

/-- By levels, nothing matters in any contract value. -/
theorem hasParts : HasParts lenient layout fun _ => [] :=
  .recursive recursion step_hasParts

end Value

/-! ## Calls -/

instance : Enumeration.Numbered IdSourceKind := ⟨by intro k; cases k <;> rfl⟩

instance : Enumeration.Named IdSourceKind :=
  ⟨by intro k; cases k <;> rfl, by intro k; cases k <;> rfl⟩

instance : Enumeration.Numbered HostFunctionKind := ⟨by intro k; cases k <;> rfl⟩

instance : Enumeration.Named HostFunctionKind :=
  ⟨by intro k; cases k <;> rfl, by intro k; cases k <;> rfl⟩

instance : Enumeration.Numbered FunctionKind := ⟨by intro k; cases k <;> rfl⟩

instance : Enumeration.Named FunctionKind :=
  ⟨by intro k; cases k <;> rfl, by intro k; cases k <;> rfl⟩

instance : Enumeration.Numbered CredentialsKind := ⟨by intro k; cases k <;> rfl⟩

instance : Enumeration.Named CredentialsKind :=
  ⟨by intro k; cases k <;> rfl, by intro k; cases k <;> rfl⟩

/-- The code of the asset that a contract wraps. -/
def IdSource.parts : IdSource → List Part
  | .fromAddress _ _ => []
  | .fromAsset asset => asset.parts

/-- A contract comes from an address, or wraps an asset. -/
theorem IdSource.hasParts : HasParts lenient layout parts := by
  refine .union (.under rfl .constant) fun k => ?_
  cases k with
  | fromAddress => exact .under rfl (.field rfl Address.hasParts (.under rfl (.fixed 32)))
  | fromAsset => exact .under rfl Asset.hasParts

/-- What matters in the source of a contract that is created. -/
def Creation.parts (creation : Creation) : List Part :=
  creation.source.parts

theorem Creation.hasParts : HasParts lenient layout parts := by
  have hfields : HasParts lenient layout fun c => c.source.parts ++ [] :=
    .map (.field rfl IdSource.hasParts (.under rfl Executable.hasParts))
  exact hfields.congr fun c => (List.append_nil _).symm

/-- What matters in a contract that is created. -/
def HostFunction.parts : HostFunction → List Part
  | .create creation => creation.parts
  | _ => []

/-- The arguments of a call and the code that is uploaded do not matter. -/
theorem HostFunction.hasParts : HasParts lenient layout parts := by
  refine .union (.under rfl .constant) fun k => ?_
  cases k with
  | invoke => exact .under rfl (.list_nil Value.hasParts _)
  | create => exact .under rfl Creation.hasParts
  | upload => exact .under rfl (.bytes _)

theorem FunctionCall.hasParts : HasParts lenient layout fun _ => [] :=
  .map (.field rfl Address.hasParts (.field rfl (.symbol _) (.under rfl (.list_nil Value.hasParts _))))

/-- What matters in a contract that is created. -/
def Function.parts : Function → List Part
  | .contract _ => []
  | .create creation => creation.parts

/-- Only the creation of a contract can hold an asset. -/
theorem Function.hasParts : HasParts lenient layout parts := by
  refine .union (.under rfl .constant) fun k => ?_
  cases k with
  | contract => exact .under rfl FunctionCall.hasParts
  | create => exact .under rfl Creation.hasParts

/-- The kind of a function takes a word and a line. -/
theorem Function.agree (n : Nat) : Agree 1 (n + 1) layout layout := by
  have hcall : HasParts false FunctionCall.layout fun _ => [] := FunctionCall.hasParts
  have hcreation : HasParts false Creation.layout Creation.parts := Creation.hasParts
  refine .union fun k => ?_
  cases k with
  | contract => exact (Composed.agree hcall n).under _
  | create => exact (Composed.agree hcreation n).under _

namespace Invocation

mutual

/-- What matters in the functions of a tree of calls. -/
def parts : Invocation → List Part
  | .node function calls => function.parts ++ partsOfCalls calls

/-- What matters in a list of trees. -/
def partsOfCalls : List Invocation → List Part
  | [] => []
  | call :: calls => call.parts ++ partsOfCalls calls

end

/-- The parts of some calls are those of each, in order. -/
theorem partsOfCalls_eq (calls : List Invocation) : partsOfCalls calls = calls.flatMap parts := by
  induction calls with
  | nil => rfl
  | cons call calls ih => rw [partsOfCalls, ih, List.flatMap_cons]

/-- The trees below the root. -/
def inside : Invocation → List Invocation
  | .node _ calls => calls

/-- The depth of some calls is that of the deepest tree. -/
theorem depthOfCalls_le_iff {calls : List Invocation} {n : Nat} :
    depthOfCalls calls ≤ n ↔ ∀ call ∈ calls, call.depth ≤ n := by
  induction calls with
  | nil => simp [depthOfCalls]
  | cons call calls ih => rw [depthOfCalls, Nat.max_le, ih, List.forall_mem_cons]

/-- Trees of calls are laid out level by level. -/
theorem recursion : Recursion depth inside step where
  nests := by
    -- the root takes a word and a line for the kind of its function
    have hfunction : Nests 1 (fun _ => ([] : List Invocation)) fun _ => Function.layout := by
      refine .union (fun k => ?_) "type"
      cases k <;> exact .const _
    have hfields : Nests 1 _ step :=
      .map (.pair (hfunction.under "function") (.under (.list .self _) "subInvocations")) _
    refine hfields.congr fun t w => ?_
    cases t with
    | node function calls =>
      show w ∈ calls ↔ w ∈ [] ++ calls.flatMap fun v => [v]
      simp
  pos t := by
    cases t with
    | node function calls =>
      rw [depth]
      exact Nat.succ_pos _
  depth_le_iff {t n} := by
    cases t with
    | node function calls =>
      rw [depth, Nat.succ_le_succ_iff]
      exact depthOfCalls_le_iff
  -- the calls below are a level deeper than the function at the root
  agree {n _ _} h := .map (.pair ((Function.agree n).under "function")
    ((h.list _).weaken.under "subInvocations")) _

/-- What matters in a tree is what matters at its root and then below it. -/
theorem step_hasParts {call : Layout Invocation} (h : HasParts lenient call parts) :
    HasParts lenient (step call) parts := by
  -- the function at the root and the list of calls are the two fields
  have hfields : HasParts lenient (step call) _ :=
    .map (.field rfl Function.hasParts (.under rfl (.list h _)))
  refine hfields.congr fun t => ?_
  cases t with
  | node function calls => rw [parts, partsOfCalls_eq]; rfl

/-- By levels, this holds of every tree of calls. -/
theorem hasParts : HasParts lenient layout parts :=
  .recursive recursion step_hasParts

end Invocation

/-! ## Authorizations -/

theorem AddressCredentials.hasParts : HasParts lenient layout fun _ => [] :=
  .map (.field rfl Address.hasParts (.field rfl .int64 (.field rfl .uint32
    (.under rfl (.list_nil Value.hasParts _)))))

/-- Nothing matters in credentials; those of the source account have nothing to write at all. -/
theorem Credentials.hasParts : HasParts lenient layout fun _ => [] := by
  refine .union (.under rfl .constant) fun k => ?_
  cases k with
  | sourceAccount => exact .unit
  | address => exact .under rfl AddressCredentials.hasParts

/-- What matters in the tree that is authorized. -/
def Authorization.parts (authorization : Authorization) : List Part :=
  authorization.root.parts

/-- What matters in an authorization is what is authorized. -/
theorem Authorization.hasParts : HasParts lenient layout parts :=
  .map (.field rfl Credentials.hasParts (.under rfl Invocation.hasParts))

/-- What matters in the function and in what is authorized for it. -/
def HostCall.parts (call : HostCall) : List Part :=
  call.function.parts ++ call.auth.flatMap Authorization.parts

theorem HostCall.hasParts : HasParts lenient layout parts :=
  .map (.field rfl HostFunction.hasParts (.under rfl (.list Authorization.hasParts _)))

end LedgerTx.Contract
