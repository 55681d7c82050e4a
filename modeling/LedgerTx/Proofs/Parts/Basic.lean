import LedgerTx.Operation.Claim
import LedgerTx.Proofs.Asset
import LedgerTx.Proofs.Layout.Recursive

namespace LedgerTx

open Listing

/-! # Parts that matter to listings

Most of what a transaction holds is read back from its listing whatever it is.  The exceptions are codes
of assets, conditions of claims and signer keys.  `Layout.HasParts` says of a layout which of these its
values hold, and that nothing else decides how their lines are read. -/

/-- A part of a value on which it depends whether its lines are read back. -/
inductive Part where
  | code (code : AssetCode)
  | predicate (predicate : Predicate)
  | signer (key : SignerKey)

namespace Part

/-- Parts of which the lines are read as nothing else. -/
def Plain : Part → Prop
  | .code c => c.Canonical
  | _ => True

/-- Parts of which the lines are read, if they are read as nothing else. -/
def Good : Part → Prop
  | .code _ => True
  | .predicate p => p.depth ≤ Predicate.maxLevels
  | .signer key => key.HasPayload

end Part

namespace Layout

/-- The layout is put together from those of single values, and the given parts of a value are all that
decides how its lines are read. -/
def HasParts {α : Type} (lenient : Bool) (layout : Layout α) (parts : α → List Part) : Prop :=
  Composed lenient layout (fun a => ∀ part ∈ parts a, part.Plain) fun a => ∀ part ∈ parts a, part.Good

namespace HasParts

variable {α β κ : Type} {lenient : Bool} {layout : Layout α} {other : Layout β} {parts : α → List Part}
  {otherParts : β → List Part}

/-! ## Ways of putting layouts together -/

theorem congr (h : HasParts lenient layout parts) {parts' : α → List Part}
    (hparts : ∀ a, parts' a = parts a) : HasParts lenient layout parts' := by
  obtain rfl : parts' = parts := funext hparts
  exact h

/-- What is laid out strictly is laid out leniently too. -/
theorem of_false (h : HasParts false layout parts) : HasParts lenient layout parts :=
  Composed.of_false h

/-- All wire forms come in groups of four bytes, whether they are lenient or not. -/
theorem aligned (h : HasParts true layout parts) : Codec.Aligned layout.wire :=
  Composed.aligned h

theorem under {name : String} (hname : isPathName name = true) (h : HasParts lenient layout parts) :
    HasParts lenient (layout.under name) parts :=
  Composed.under hname h

theorem map {view : Bijection β α} (h : HasParts lenient layout parts) :
    HasParts lenient (layout.map view) fun b => parts (view.forth b) :=
  Composed.map h

/-- Where nothing matters, every value is plain and good. -/
theorem of_forall (h : Composed lenient layout (fun _ => True) fun _ => True) :
    HasParts lenient layout fun _ => [] := by
  have hnone : ∀ {P : Part → Prop}, (∀ part ∈ [], P part) ↔ True :=
    ⟨fun _ => trivial, fun _ part hpart => absurd hpart List.not_mem_nil⟩
  exact h.congr (fun _ => hnone) fun _ => hnone

/-- Values of one line, of which any can be read. -/
theorem line {codec : Codec α} {form : Form α} [Codec.Aligned codec] (wire : Codec.Composed lenient codec)
    (h : LineLaw codec form (fun _ => True) fun _ => True)
    (hadmits : (Layout.mk codec form).Admits (fun _ => True) fun _ => True) :
    HasParts lenient ⟨codec, form⟩ fun _ => [] :=
  of_forall (.line wire h hadmits)

/-- Values of one line without counts. -/
theorem of_lineLaw {codec : Codec α} {form : Form α} [Codec.Aligned codec]
    (wire : Codec.Composed lenient codec) (h : LineLaw codec form (fun _ => True) fun _ => True)
    (hfits : ∀ v, codec.fits .loosest v = true) : HasParts lenient ⟨codec, form⟩ fun _ => [] :=
  line wire h (.of_fits h hfits)

theorem unit : HasParts lenient Layout.unit fun _ => [] :=
  of_forall .unit

theorem pair (h : HasParts lenient layout parts) (hother : HasParts lenient other otherParts) :
    HasParts lenient (.pair layout other) fun v => parts v.1 ++ otherParts v.2 :=
  (Composed.pair h hother).congr (fun _ => List.forall_mem_append) fun _ => List.forall_mem_append

theorem field {name : String} (hname : isPathName name = true) (h : HasParts lenient layout parts)
    (hother : HasParts lenient other otherParts) :
    HasParts lenient (.field name layout other) fun v => parts v.1 ++ otherParts v.2 :=
  (under hname h).pair hother

theorem list (h : HasParts lenient layout parts) (max : Nat) :
    HasParts lenient (.list max layout) fun vs => vs.flatMap parts :=
  (Composed.list max h).congr (fun _ => List.forall_mem_flatMap) fun _ => List.forall_mem_flatMap

/-- The parts of the value, if there is one. -/
theorem option (h : HasParts lenient layout parts) :
    HasParts lenient (.option layout) fun o => o.toList.flatMap parts := by
  have hoption : ∀ {P : Part → Prop} (o : Option α),
      (∀ part ∈ o.toList.flatMap parts, P part) ↔ ∀ v ∈ o, ∀ part ∈ parts v, P part := by
    intro P o
    -- there is one value at most, so all parts are its parts
    rw [List.forall_mem_flatMap]
    refine forall_congr' fun v => ?_
    rw [Option.mem_toList]
    exact Iff.rfl
  exact (Composed.option h).congr hoption hoption

/-- A union: the tag and then what the tag says, with the parts of the value that they make up. -/
theorem union {π : κ → Type} {view : Bijection α (Sigma π)} {tag : Layout κ}
    {payload : (k : κ) → Layout (π k)} (htag : HasParts lenient tag fun _ => [])
    (h : ∀ k, HasParts lenient (payload k) fun b => parts (view.back ⟨k, b⟩)) :
    HasParts lenient (.map view (.sigma tag payload)) parts := by
  have hnone : ∀ {P : Part → Prop} (k : κ), True ↔ ∀ part ∈ [], P part :=
    fun k => ⟨fun _ part hpart => absurd hpart List.not_mem_nil, fun _ => trivial⟩
  -- the tag holds no parts, so those of the payload are all
  exact Composed.union (Composed.congr htag hnone hnone) h

/-- A layout that comes back to itself, if one step adds nothing but what is said of a value. -/
theorem recursive {depth : α → Nat} {inside : α → List α} {step : Layout α → Layout α}
    (h : Recursion depth inside step)
    (hstep : ∀ {layout}, HasParts false layout parts → HasParts false (step layout) parts) :
    HasParts lenient (recursive depth step) parts :=
  Composed.recursive h hstep

/-! ## Values of which nothing matters -/

/-- In a list of values of which nothing matters, nothing does. -/
theorem list_nil (h : HasParts lenient layout fun _ => []) (max : Nat) :
    HasParts lenient (.list max layout) fun _ => [] :=
  (h.list max).congr fun _ => (List.flatMap_eq_nil_iff.mpr fun _ _ => rfl).symm

theorem option_nil (h : HasParts lenient layout fun _ => []) :
    HasParts lenient (.option layout) fun _ => [] :=
  h.option.congr fun _ => (List.flatMap_eq_nil_iff.mpr fun _ _ => rfl).symm

theorem uint32 : HasParts lenient Layout.uint32 fun _ => [] :=
  of_lineLaw .uint32 .uint32 fun _ => rfl

theorem uint64 : HasParts lenient Layout.uint64 fun _ => [] :=
  of_lineLaw .uint64 .uint64 fun _ => rfl

theorem int32 : HasParts lenient Layout.int32 fun _ => [] :=
  of_lineLaw .int32 .int32 fun _ => rfl

theorem int64 : HasParts lenient Layout.int64 fun _ => [] :=
  of_lineLaw .int64 .int64 fun _ => rfl

theorem bool : HasParts lenient Layout.bool fun _ => [] :=
  of_lineLaw .bool .bool fun _ => rfl

/-- Every amount is read back, whatever comment stands behind it. -/
theorem amount : HasParts lenient Layout.amount fun _ => [] :=
  of_lineLaw .int64 .amount fun _ => rfl

theorem time : HasParts lenient Layout.time fun _ => [] :=
  of_lineLaw .uint64 .time fun _ => rfl

theorem signedTime : HasParts lenient Layout.signedTime fun _ => [] :=
  of_lineLaw .int64 .signedTime fun _ => rfl

theorem fixed (n : Nat) [Codec.Aligned (.fixed n)] : HasParts lenient (Layout.fixed n) fun _ => [] :=
  of_lineLaw (.fixed n) (.fixedHex n) fun _ => rfl

theorem bytes (max : Nat) : HasParts lenient (Layout.bytes max) fun _ => [] :=
  line (.bytes max) .hex (.bytes max)

theorem text (max : Nat) : HasParts lenient (Layout.text max) fun _ => [] :=
  line (.string max) .text .string

theorem symbol (max : Nat) : HasParts lenient (Layout.symbol max) fun _ => [] :=
  line (.string max) .symbol .string

variable [Enumeration κ] [Enumeration.Numbered κ]

theorem version : HasParts lenient (Layout.version κ) fun _ => [] :=
  of_lineLaw (.constant κ) .version fun _ => rfl

theorem constant [Enumeration.Named κ] : HasParts lenient (Layout.constant κ) fun _ => [] :=
  of_lineLaw (.constant κ) .constant fun _ => rfl

/-- A set that later kinds may join lets unknown constants through. -/
theorem openConstant [Enumeration.Named κ] (title : String) (last : κ) :
    HasParts true (Layout.openConstant title last) fun _ => [] :=
  of_lineLaw (.openConstant title last rfl) .constant fun _ => rfl

/-- Constants that choose the arm of a union are read back, if each arm has one. -/
theorem arms [Enumeration.Named κ] {τ : Type} {title : String} {constantOf : τ → κ}
    {arm? : κ → Option τ} {refuse : String → LineError} (hsome : ∀ t, arm? (constantOf t) = some t)
    (hof : ∀ k t, arm? k = some t → constantOf t = k) :
    HasParts lenient (Layout.arms title constantOf arm? refuse) fun _ => [] :=
  of_lineLaw (.arms hsome hof) (.arms hsome) fun _ => rfl

end HasParts

end Layout

end LedgerTx
