import LedgerTx.Proofs.Parts.Basic
import LedgerTx.Proofs.Strkey.Address

namespace LedgerTx

open Layout

/-! # Parts of accounts and assets -/

variable {lenient : Bool}

/-! ## Accounts -/

theorem AccountId.hasParts : HasParts lenient layout fun _ => [] :=
  .of_lineLaw codec_composed lineLaw fun _ => rfl

theorem Layout.accountKey_hasParts : HasParts lenient accountKey fun _ => [] :=
  .of_lineLaw (.fixed 32) (.key rfl) fun _ => rfl

theorem MuxedAccount.hasParts : HasParts lenient layout fun _ => [] :=
  .of_lineLaw codec_composed lineLaw fun account => by cases account <;> rfl

/-- Every signer that is read has what it is to sign. -/
theorem SignerKey.admits : layout.Admits (fun _ => True) HasPayload := by
  unfold layout Form.parsed Form.token
  refine .line fun {token after key} _ h => ?_
  have hstrkey := Except.mapError_eq_ok.mp h
  have hspellable := (ofStrkey_eq_ok.mp hstrkey).2
  cases key with
  | ed25519 | preAuthTx | hashX => exact ⟨rfl, trivial, trivial⟩
  | signedPayload bytes payload =>
    -- an address holds one byte of payload at least, and few at most
    obtain ⟨hleast, hmost⟩ := hspellable
    have hlength : payload.length ≤ Rules.maxCount := Nat.le_trans hmost (by decide)
    exact ⟨decide_eq_true hlength, trivial, List.length_pos_iff.mp hleast⟩

/-- A signer key is a part itself. -/
theorem SignerKey.hasParts : HasParts lenient layout fun key => [.signer key] := by
  refine Composed.congr (.line codec_composed lineLaw admits) (fun key => ?_) fun key => ?_
  · exact ⟨fun _ => trivial, fun _ => List.forall_mem_singleton.mpr trivial⟩
  · exact List.forall_mem_singleton

/-- The weight of a signer does not matter, but the key does. -/
theorem AccountSigner.hasParts : HasParts lenient layout fun signer => [.signer signer.key] :=
  .map (.field rfl SignerKey.hasParts (.under rfl .uint32))

theorem DecoratedSignature.hasParts : HasParts lenient layout fun _ => [] :=
  .map (.field rfl (.fixed 4) (.under rfl (.bytes maxLength)))

/-! ## Assets -/

/-- A code is a part itself. -/
theorem AssetCode.hasParts : HasParts lenient layout fun code => [.code code] := by
  refine Composed.congr (.line codec_composed lineLaw admits) (fun code => ?_) fun code => ?_
  · exact List.forall_mem_singleton
  · exact ⟨fun _ => trivial, fun _ => List.forall_mem_singleton.mpr trivial⟩

/-- The code of an asset that is no native one. -/
def Asset.parts : Asset → List Part
  | .native => []
  | .credit4 credit => [.code (.short credit.code)]
  | .credit12 credit => [.code (.long credit.code)]

/-- The parts of an asset are plain if its code is canonical. -/
theorem Asset.canonical_iff {asset : Asset} :
    (∀ part ∈ asset.parts, part.Plain) ↔ asset.Canonical := by
  cases asset with
  | native =>
    constructor
    · rintro - code ⟨⟩
    · rintro - part ⟨⟩
  | credit4 credit | credit12 credit =>
    refine List.forall_mem_singleton.trans ⟨fun h code hcode => ?_, fun h => h _ rfl⟩
    cases hcode
    exact h

theorem Asset.good_of_mem_parts {asset : Asset} : ∀ part ∈ asset.parts, part.Good := by
  cases asset with
  | native => exact fun part hpart => by cases hpart
  | credit4 credit | credit12 credit => exact List.forall_mem_singleton.mpr trivial

/-- The native asset is read back, and others if their codes are canonical. -/
theorem Asset.hasParts : HasParts lenient layout parts :=
  Composed.congr (.line codec_composed lineLaw admits) (fun _ => canonical_iff)
    fun _ => ⟨fun _ => trivial, fun _ => good_of_mem_parts⟩

/-- The code of the asset of a line, and what matters in a pool. -/
def TrustLine.parts {π : Type} (ofPool : π → List Part) : TrustLine π → List Part
  | .asset a => a.parts
  | .poolShare pool => ofPool pool

/-- The pool of a line is named by its hash, which is read back. -/
theorem TrustLineAsset.hasParts : HasParts lenient layout (TrustLine.parts fun _ => []) := by
  have wire : Codec.Composed lenient (TrustLine.codec (.fixed 32)) := TrustLine.codec_composed (.fixed 32)
  refine Composed.congr (.line wire lineLaw admits) (fun line => ?_) fun line => ?_
  · cases line with
    | asset a => exact Asset.canonical_iff
    | poolShare id => exact ⟨fun _ => trivial, fun _ part hpart => by cases hpart⟩
  · cases line with
    | asset a => exact ⟨fun _ => trivial, fun _ => Asset.good_of_mem_parts⟩
    | poolShare id => exact ⟨fun _ => trivial, fun _ part hpart => by cases hpart⟩

/-- The codes of the two assets of a pool. -/
def PoolParameters.parts (pool : PoolParameters) : List Part :=
  pool.assetA.parts ++ pool.assetB.parts

theorem PoolParameters.hasParts : HasParts lenient layout parts := by
  have hfields : HasParts lenient layout fun pool => [] ++ (pool.assetA.parts ++ (pool.assetB.parts ++ [])) :=
    .map (.field rfl .constant (.under rfl (.field rfl Asset.hasParts (.field rfl Asset.hasParts
      (.under rfl .int32)))))
  exact hfields.congr fun pool => by simp [parts]

/-- The next line tells whether an asset or a pool was written, so this is read as written. -/
theorem ChangeTrustAsset.hasParts : HasParts lenient layout (TrustLine.parts PoolParameters.parts) := by
  have hasset : HasParts false Asset.layout Asset.parts := Asset.hasParts
  have hmark : LineLaw .unit poolShareMark (fun _ => True) fun _ => True := by
    unfold poolShareMark
    exact .arms fun _ => rfl
  have hpool : HasParts false poolLayout fun v => PoolParameters.parts v.2 :=
    .pair (.under rfl (.of_lineLaw .unit hmark fun _ => rfl)) (.under rfl PoolParameters.hasParts)
  have hparameters : HasParts lenient PoolParameters.layout _ := PoolParameters.hasParts
  have hwire := TrustLine.codec_composed hparameters.wire
  have haligned := Composed.aligned hparameters
  -- an asset stands on the path itself, and a pool begins with its mark
  have hstart : poolLayout.form.StartsAt fun path => path.field "type" :=
    .pair (hmark.startsAt.under "type") _
  have htakes : ∀ path, Takes 1 (poolLayout.form.read path) := by
    intro path
    have hkind : Takes 1 ((poolShareMark.under "type").read path) := hmark.takes (path.field "type")
    exact hkind.bind fun kind =>
      (hparameters.read_takes (path.field "liquidityPool")).map fun pool => (kind, pool)
  -- the two can be told apart by where they start
  have heither : Composed lenient layout _ _ :=
    .either hwire (eitherWire PoolParameters.hasParts.wire) hasset.of_false hpool.of_false rfl
      Asset.lineLaw.startsAt hstart htakes
  refine heither.congr (fun line => ?_) fun line => ?_
  · cases line <;> exact Iff.rfl
  · cases line <;> exact Iff.rfl

theorem Price.hasParts : HasParts lenient layout fun _ => [] :=
  .map (.field rfl .int32 (.under rfl .int32))

end LedgerTx
