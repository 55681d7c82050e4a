import LedgerTx.Transaction.Basic

namespace LedgerTx

/-! # Envelopes

An envelope is a transaction and its signatures.  A fee bump wraps a signed transaction of the current
form and has signatures of its own. -/

/-! ## Kinds of envelopes -/

/-- What signed or hashed data is about. -/
inductive EnvelopeKind where
  | legacy
  | consensus
  | transaction
  | peerAuth
  | consensusValue
  | feeBump
  | operationId
  | poolRevokeId
  | contractId
  | authorization
deriving DecidableEq

instance : Enumeration EnvelopeKind where
  title := "EnvelopeType"
  all := [.legacy, .consensus, .transaction, .peerAuth, .consensusValue, .feeBump, .operationId,
    .poolRevokeId, .contractId, .authorization]
  number
    | .legacy => 0
    | .consensus => 1
    | .transaction => 2
    | .peerAuth => 3
    | .consensusValue => 4
    | .feeBump => 5
    | .operationId => 6
    | .poolRevokeId => 7
    | .contractId => 8
    | .authorization => 9
  name
    | .legacy => "ENVELOPE_TYPE_TX_V0"
    | .consensus => "ENVELOPE_TYPE_SCP"
    | .transaction => "ENVELOPE_TYPE_TX"
    | .peerAuth => "ENVELOPE_TYPE_AUTH"
    | .consensusValue => "ENVELOPE_TYPE_SCPVALUE"
    | .feeBump => "ENVELOPE_TYPE_TX_FEE_BUMP"
    | .operationId => "ENVELOPE_TYPE_OP_ID"
    | .poolRevokeId => "ENVELOPE_TYPE_POOL_REVOKE_OP_ID"
    | .contractId => "ENVELOPE_TYPE_CONTRACT_ID"
    | .authorization => "ENVELOPE_TYPE_SOROBAN_AUTHORIZATION"

/-! ## Signed values -/

/-- Something that is signed, and its signatures in the order in which they were added. -/
structure Signed (τ : Type) where
  tx : τ
  signatures : List DecoratedSignature

namespace Signed

variable {τ : Type}

/-- The most signatures on one envelope. -/
def maxSignatures : Nat := 20

/-- Without signatures. -/
def unsigned (tx : τ) : Signed τ := ⟨tx, []⟩

/-- What is signed and then the signatures. -/
def layout (tx : Layout τ) : Layout (Signed τ) :=
  .map ⟨fun s => (s.tx, s.signatures), fun v => ⟨v.1, v.2⟩, fun _ => rfl, fun _ => rfl⟩ <|
    .field "tx" tx <|
    .under "signatures" (.list maxSignatures DecoratedSignature.layout)

end Signed

/-! ## Fee bumps -/

/-- An account that pays a higher fee for a transaction that is already signed. -/
structure FeeBump where
  feeSource : MuxedAccount
  fee : Int64
  inner : Signed Transaction
  ext : Extension

namespace FeeBump

/-- The kind of envelope inside a fee bump, which can be one only. -/
def innerKind : Layout Unit :=
  .arms "FeeBumpInnerTx" (fun _ => EnvelopeKind.transaction)
    (fun k => if k = .transaction then some () else none) .notBumpable

/-- The envelope inside a fee bump. -/
def innerLayout : Layout (Signed Transaction) :=
  .map ⟨fun s => ((), s), fun v => v.2, fun _ => rfl, fun _ => rfl⟩ <|
    .field "type" innerKind (Signed.layout Transaction.layout)

/-- The payer, the fee, and the envelope inside. -/
def layout : Layout FeeBump :=
  .map ⟨fun b => (b.feeSource, b.fee, b.inner, b.ext), fun v => ⟨v.1, v.2.1, v.2.2.1, v.2.2.2⟩,
    fun _ => rfl, fun _ => rfl⟩ <|
    .field "feeSource" MuxedAccount.layout <|
    .field "fee" .int64 <|
    .field "innerTx" innerLayout <|
    .under "ext" Extension.layout

end FeeBump

/-! ## Envelopes -/

/-- What is submitted to the network. -/
inductive Envelope where
  | legacy (signed : Signed LegacyTransaction)
  | transaction (signed : Signed Transaction)
  | feeBump (signed : Signed FeeBump)

namespace Envelope

/-- The arms of the union. -/
inductive Arm where
  | legacy
  | transaction
  | feeBump

/-- The kind of envelope in an arm. -/
def Arm.kind : Arm → EnvelopeKind
  | .legacy => .legacy
  | .transaction => .transaction
  | .feeBump => .feeBump

/-- The arm for a kind of envelope. -/
def Arm.ofKind? : EnvelopeKind → Option Arm
  | .legacy => some .legacy
  | .transaction => some .transaction
  | .feeBump => some .feeBump
  | _ => none

/-- What an arm holds. -/
def Arm.Payload : Arm → Type
  | .legacy => Signed LegacyTransaction
  | .transaction => Signed Transaction
  | .feeBump => Signed FeeBump

/-- An envelope as an arm and what the arm holds. -/
def view : Bijection Envelope (Sigma Arm.Payload) where
  forth
    | .legacy signed => ⟨.legacy, signed⟩
    | .transaction signed => ⟨.transaction, signed⟩
    | .feeBump signed => ⟨.feeBump, signed⟩
  back
    | ⟨.legacy, signed⟩ => .legacy signed
    | ⟨.transaction, signed⟩ => .transaction signed
    | ⟨.feeBump, signed⟩ => .feeBump signed
  back_forth e := by cases e <;> rfl
  forth_back := fun ⟨k, b⟩ => by cases k <;> rfl

/-- The kind of an envelope. -/
def kind (envelope : Envelope) : EnvelopeKind :=
  (view.forth envelope).1.kind

/-- The signatures on an envelope. -/
def signatures : Envelope → List DecoratedSignature
  | .legacy signed => signed.signatures
  | .transaction signed => signed.signatures
  | .feeBump signed => signed.signatures

/-- The kind of the envelope and what is signed; only a fee bump has a name of its own. -/
def layout : Layout Envelope :=
  .map view <| .sigma (.under "type" (.arms "TransactionEnvelope" Arm.kind Arm.ofKind? .notEnvelope))
    fun
      | .legacy => Signed.layout LegacyTransaction.layout
      | .transaction => Signed.layout Transaction.layout
      | .feeBump => .under "feeBump" (Signed.layout FeeBump.layout)

end Envelope

end LedgerTx
