import LedgerTx.Transaction.Envelope

namespace LedgerTx

/-! # What is hashed

Signatures are made of a hash that covers the network and the kind of what is signed, so that none of
them holds on another network or for anything else. -/

/-! ## Signature payloads -/

/-- A transaction of either kind without its signatures. -/
inductive Subject where
  | transaction (tx : Transaction)
  | feeBump (tx : FeeBump)

namespace Subject

/-- The arms of the union. -/
inductive Arm where
  | transaction
  | feeBump

/-- The kind of envelope in an arm. -/
def Arm.kind : Arm → EnvelopeKind
  | .transaction => .transaction
  | .feeBump => .feeBump

/-- The arm for a kind of envelope. -/
def Arm.ofKind? : EnvelopeKind → Option Arm
  | .transaction => some .transaction
  | .feeBump => some .feeBump
  | _ => none

/-- What an arm holds. -/
def Arm.Payload : Arm → Type
  | .transaction => Transaction
  | .feeBump => FeeBump

/-- A subject as an arm and what the arm holds. -/
def view : Bijection Subject (Sigma Arm.Payload) where
  forth
    | .transaction tx => ⟨.transaction, tx⟩
    | .feeBump tx => ⟨.feeBump, tx⟩
  back
    | ⟨.transaction, tx⟩ => .transaction tx
    | ⟨.feeBump, tx⟩ => .feeBump tx
  back_forth s := by cases s <;> rfl
  forth_back := fun ⟨k, b⟩ => by cases k <;> rfl

/-- A kind of envelope and then the transaction. -/
def codec : Codec Subject :=
  .map view <| .sigma (.arms "TaggedTransaction" Arm.kind Arm.ofKind?) fun
    | .transaction => Transaction.layout.wire
    | .feeBump => FeeBump.layout.wire

end Subject

/-- What a transaction's hash covers. -/
structure SignaturePayload where
  networkId : Bytes32
  subject : Subject

/-- The network and then the subject. -/
def SignaturePayload.codec : Codec SignaturePayload :=
  Codec.map ⟨fun p => (p.networkId, p.subject), fun v => ⟨v.1, v.2⟩, fun _ => rfl, fun _ => rfl⟩
    (.pair (.fixed 32) Subject.codec)

/-! ## Preimages of ids -/

/-- What the hash of an authorization covers. -/
structure AuthorizationPreimage where
  networkId : Bytes32
  nonce : Int64
  expirationLedger : UInt32
  invocation : Contract.Invocation

/-- The network, the nonce, the expiration and the calls. -/
def AuthorizationPreimage.codec : Codec AuthorizationPreimage :=
  .map ⟨fun p => (p.networkId, p.nonce, p.expirationLedger, p.invocation),
    fun v => ⟨v.1, v.2.1, v.2.2.1, v.2.2.2⟩, fun _ => rfl, fun _ => rfl⟩ <|
    .pair (.fixed 32) <| .pair .int64 <| .pair .uint32 Contract.Invocation.layout.wire

/-- What a contract's id is the hash of. -/
structure ContractIdPreimage where
  networkId : Bytes32
  source : Contract.IdSource

/-- The network and then the source. -/
def ContractIdPreimage.codec : Codec ContractIdPreimage :=
  .map ⟨fun p => (p.networkId, p.source), fun v => ⟨v.1, v.2⟩, fun _ => rfl, fun _ => rfl⟩ <|
    .pair (.fixed 32) Contract.IdSource.layout.wire

/-- What is hashed besides transactions. -/
inductive HashPreimage where
  | contractId (preimage : ContractIdPreimage)
  | authorization (preimage : AuthorizationPreimage)

namespace HashPreimage

/-- The arms of the union. -/
inductive Arm where
  | contractId
  | authorization

/-- The kind of envelope in an arm. -/
def Arm.kind : Arm → EnvelopeKind
  | .contractId => .contractId
  | .authorization => .authorization

/-- The arm for a kind of envelope. -/
def Arm.ofKind? : EnvelopeKind → Option Arm
  | .contractId => some .contractId
  | .authorization => some .authorization
  | _ => none

/-- What an arm holds. -/
def Arm.Payload : Arm → Type
  | .contractId => ContractIdPreimage
  | .authorization => AuthorizationPreimage

/-- A preimage as an arm and what the arm holds. -/
def view : Bijection HashPreimage (Sigma Arm.Payload) where
  forth
    | .contractId preimage => ⟨.contractId, preimage⟩
    | .authorization preimage => ⟨.authorization, preimage⟩
  back
    | ⟨.contractId, preimage⟩ => .contractId preimage
    | ⟨.authorization, preimage⟩ => .authorization preimage
  back_forth p := by cases p <;> rfl
  forth_back := fun ⟨k, b⟩ => by cases k <;> rfl

/-- A kind of envelope and then what is hashed. -/
def codec : Codec HashPreimage :=
  .map view <| .sigma (.arms "HashIdPreimage" Arm.kind Arm.ofKind?) fun
    | .contractId => ContractIdPreimage.codec
    | .authorization => AuthorizationPreimage.codec

end HashPreimage

end LedgerTx
