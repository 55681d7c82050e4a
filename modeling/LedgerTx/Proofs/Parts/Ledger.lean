import LedgerTx.Contract.Resources
import LedgerTx.Proofs.Parts.Contract

namespace LedgerTx

open Layout Listing

/-! # Parts of ledger keys and resources

Ledger keys let unknown kinds through on the wire, so all that holds them is lenient. -/

variable {lenient : Bool}

instance : Enumeration.Numbered BalanceIdKind := ⟨by intro k; cases k; rfl⟩

instance : Enumeration.Named BalanceIdKind := ⟨by intro k; cases k; rfl, by intro k; cases k; rfl⟩

instance : Enumeration.Numbered Durability := ⟨by intro k; cases k <;> rfl⟩

instance : Enumeration.Named Durability :=
  ⟨by intro k; cases k <;> rfl, by intro k; cases k <;> rfl⟩

instance : Enumeration.Numbered BodyKind := ⟨by intro k; cases k <;> rfl⟩

instance : Enumeration.Named BodyKind :=
  ⟨by intro k; cases k <;> rfl, by intro k; cases k <;> rfl⟩

instance : Enumeration.Numbered LedgerKeyKind := ⟨by intro k; cases k <;> rfl⟩

instance : Enumeration.Named LedgerKeyKind :=
  ⟨by intro k; cases k <;> rfl, by intro k; cases k <;> rfl⟩

instance : Enumeration.Numbered Extension := ⟨by intro k; cases k; rfl⟩

theorem BalanceId.hasParts : HasParts lenient layout fun _ => [] :=
  .map (.field rfl .constant (.under rfl (.fixed 32)))

/-! ## Settings -/

namespace ConfigSetting

/-- Every name is one word that begins with a letter and that no other setting has. -/
theorem names_spec : ∀ entry ∈ names, ofText? entry.2 = some entry.1 ∧ isWord entry.2.toList = true
    ∧ entry.2.toList.head? = some 'C' := by
  decide +kernel

/-- Settings without a name are known by their numbers, which are no names. -/
theorem text_cases (id : Int32) :
    (∃ entry ∈ names, entry.1 = id ∧ text id = entry.2)
      ∨ text id = String.ofList (Decimal.ofInt id.toInt) := by
  unfold text name?
  -- the name is found in the table or there is none
  cases hfound : names.find? fun entry => entry.1 == id with
  | none => exact Or.inr rfl
  | some entry =>
    have hid := List.find?_some hfound
    exact Or.inl ⟨entry, List.mem_of_find?_eq_some hfound, eq_of_beq hid, rfl⟩

/-- The number of a setting is read as that setting. -/
theorem ofText?_decimal (id : Int32) : ofText? (String.ofList (Decimal.ofInt id.toInt)) = some id := by
  have hnone : names.find? (fun entry => entry.2 == String.ofList (Decimal.ofInt id.toInt)) = none := by
    refine List.find?_eq_none.mpr fun entry hentry heq => ?_
    have hhead := (names_spec entry hentry).2.2
    rw [eq_of_beq heq, String.toList_ofList] at hhead
    -- a number begins with a sign or a digit, and a name with a letter
    unfold Decimal.ofInt at hhead
    split at hhead
    · exact absurd (Option.some.inj hhead) (by decide)
    · rcases Decimal.ofNat_eq_cons id.toInt.natAbs with ⟨c, rest, hcons, hdigit⟩
      rw [hcons] at hhead
      obtain rfl : c = 'C' := Option.some.inj hhead
      cases hdigit
  unfold ofText?
  rw [hnone]
  dsimp only
  rw [String.toList_ofList, Decimal.int32?_ofInt]

/-- Settings are read from their names or from their numbers. -/
theorem lineLaw : LineLaw .int32 layout.form (fun _ => True) fun _ => True := by
  unfold layout
  dsimp only
  refine .of_named (fun id => ?_) fun id => ?_
  · rcases text_cases id with ⟨entry, hentry, -, htext⟩ | htext
    · rw [htext]
      exact word_of_isWord (names_spec entry hentry).2.1
    · rw [htext, String.toList_ofList]
      exact word_ofInt _
  · rcases text_cases id with ⟨entry, hentry, rfl, htext⟩ | htext
    · rw [htext]
      exact (names_spec entry hentry).1
    · rw [htext]
      exact ofText?_decimal id

theorem hasParts : HasParts lenient layout fun _ => [] :=
  .of_lineLaw .int32 lineLaw fun _ => rfl

end ConfigSetting

/-! ## Keys -/

/-- Unknown kinds of durability pass on the wire only, so the layout is lenient. -/
theorem Durability.hasParts : HasParts true layout fun _ => [] :=
  .openConstant _ _

/-- Unknown kinds of bodies pass on the wire only, so the layout is lenient. -/
theorem BodyKind.hasParts : HasParts true layout fun _ => [] :=
  .openConstant _ _

/-- The code of the asset of a trust line. -/
def LedgerKey.parts : LedgerKey → List Part
  | .trustLine _ asset => TrustLine.parts (fun _ => []) asset
  | _ => []

/-- Only the key of a trust line holds an asset. -/
theorem LedgerKey.hasParts : HasParts true layout parts := by
  refine .union (.under rfl (.openConstant _ _)) fun k => ?_
  cases k with
  | account => exact .under rfl (.under rfl AccountId.hasParts)
  | trustLine => exact .under rfl (.field rfl AccountId.hasParts (.under rfl TrustLineAsset.hasParts))
  | offer => exact .under rfl (.field rfl AccountId.hasParts (.under rfl .int64))
  | data => exact .under rfl (.field rfl AccountId.hasParts (.under rfl (.text _)))
  | claimableBalance => exact .under rfl (.under rfl BalanceId.hasParts)
  | liquidityPool => exact .under rfl (.under rfl (.fixed 32))
  | contractData =>
    exact .under rfl (.field rfl Contract.Address.hasParts (.field rfl Contract.Value.hasParts
      (.field rfl Durability.hasParts (.under rfl BodyKind.hasParts))))
  | contractCode => exact .under rfl (.field rfl (.fixed 32) (.under rfl BodyKind.hasParts))
  | configSetting => exact .under rfl (.under rfl ConfigSetting.hasParts)

/-! ## Resources -/

theorem Extension.hasParts : HasParts lenient layout fun _ => [] :=
  .under rfl .version

/-- What matters in the keys of a footprint. -/
def Footprint.parts (footprint : Footprint) : List Part :=
  footprint.readOnly.flatMap LedgerKey.parts ++ footprint.readWrite.flatMap LedgerKey.parts

theorem Footprint.hasParts : HasParts true layout parts :=
  .map (.field rfl (.list LedgerKey.hasParts _) (.under rfl (.list LedgerKey.hasParts _)))

/-- The limits of the resources are numbers, which are read back. -/
theorem Resources.hasParts : HasParts true layout fun resources => resources.footprint.parts := by
  have hfields : HasParts true layout fun r => r.footprint.parts ++ ([] ++ ([] ++ ([] ++ []))) :=
    .map (.field rfl Footprint.hasParts (.field rfl .uint32 (.field rfl .uint32 (.field rfl .uint32
      (.under rfl .uint32)))))
  exact hfields.congr fun r => (List.append_nil _).symm

/-- What matters in the footprint. -/
def SorobanData.parts (data : SorobanData) : List Part :=
  data.resources.footprint.parts

/-- The extension and the fee do not matter. -/
theorem SorobanData.hasParts : HasParts true layout parts := by
  have hfields : HasParts true layout fun d => [] ++ (d.resources.footprint.parts ++ []) :=
    .map (.field rfl Extension.hasParts (.field rfl Resources.hasParts (.under rfl .int64)))
  exact hfields.congr fun d => (List.append_nil _).symm

end LedgerTx
