import LedgerTx.Layout.Scalar

namespace LedgerTx

/-! # Accounts and their signers

Accounts are public keys, which transactions may multiplex by a number.  In listings keys stand as
strkeys. -/

/-! ## Account ids -/

/-- The kinds of public keys. -/
inductive PublicKeyKind where
  | ed25519
deriving DecidableEq

instance : Enumeration PublicKeyKind where
  title := "PublicKeyType"
  all := [.ed25519]
  number | .ed25519 => 0
  name | .ed25519 => "PUBLIC_KEY_TYPE_ED25519"

/-- An account, by its public key. -/
structure AccountId where
  key : Bytes32
deriving DecidableEq

namespace AccountId

/-- The account of an address `G…`. -/
def ofAddress (text : String) : Except AddressError AccountId :=
  return ⟨← Strkey.decodeKey .accountId text⟩

/-- The address of an account. -/
def address (account : AccountId) : String :=
  Strkey.encode .accountId account.key.toList

/-- On the wire, a kind of key and the key. -/
def codec : Codec AccountId :=
  Codec.map
    ⟨fun a => (.ed25519, a.key), fun v => ⟨v.2⟩, fun _ => rfl, fun ⟨.ed25519, _⟩ => rfl⟩
    (.pair (.constant PublicKeyKind) (.fixed 32))

/-- Accounts on the wire and, by their addresses, in listings. -/
def layout : Layout AccountId :=
  ⟨codec, .parsed address fun text => ofAddress text⟩

end AccountId

/-- A bare key that stands in listings as the address of an account. -/
def Layout.accountKey : Layout Bytes32 :=
  ⟨.fixed 32, .parsed (fun key => Strkey.encode .accountId key.toList) fun text =>
    Strkey.decodeKey .accountId text⟩

/-! ## Multiplexed accounts -/

/-- The kinds of keys in unions of keys. -/
inductive KeyKind where
  | ed25519
  | preAuthTx
  | hashX
  | signedPayload
  | muxed
deriving DecidableEq

instance : Enumeration KeyKind where
  title := "CryptoKeyType"
  all := [.ed25519, .preAuthTx, .hashX, .signedPayload, .muxed]
  number
    | .ed25519 => 0
    | .preAuthTx => 1
    | .hashX => 2
    | .signedPayload => 3
    | .muxed => 0x100
  name
    | .ed25519 => "KEY_TYPE_ED25519"
    | .preAuthTx => "KEY_TYPE_PRE_AUTH_TX"
    | .hashX => "KEY_TYPE_HASH_X"
    | .signedPayload => "KEY_TYPE_ED25519_SIGNED_PAYLOAD"
    | .muxed => "KEY_TYPE_MUXED_ED25519"

/-- An account that acts or is paid, possibly one of many that share a key. -/
inductive MuxedAccount where
  | plain (key : Bytes32)
  | muxed (id : UInt64) (key : Bytes32)
deriving DecidableEq

namespace MuxedAccount

/-- The two arms of the union. -/
inductive Arm where
  | plain
  | muxed

/-- The kind of key that an arm has. -/
def Arm.kind : Arm → KeyKind
  | .plain => .ed25519
  | .muxed => .muxed

/-- The arm for a kind of key. -/
def Arm.ofKind? : KeyKind → Option Arm
  | .ed25519 => some .plain
  | .muxed => some .muxed
  | _ => none

/-- What an arm holds. -/
def Arm.Payload : Arm → Type
  | .plain => Bytes32
  | .muxed => UInt64 × Bytes32

/-- An account as an arm and what the arm holds. -/
def view : Bijection MuxedAccount (Sigma Arm.Payload) where
  forth
    | .plain key => ⟨.plain, key⟩
    | .muxed id key => ⟨.muxed, (id, key)⟩
  back
    | ⟨.plain, key⟩ => .plain key
    | ⟨.muxed, (id, key)⟩ => .muxed id key
  back_forth a := by cases a <;> rfl
  forth_back := fun ⟨k, b⟩ => by cases k <;> rfl

/-- On the wire, a kind of key, the number of a multiplexed account, and the key. -/
def codec : Codec MuxedAccount :=
  .map view <| .sigma (.arms "MuxedAccount" Arm.kind Arm.ofKind?) fun
    | .plain => .fixed 32
    | .muxed => .pair .uint64 (.fixed 32)

/-- The number at the end of a multiplexed address, eight bytes. -/
def idBytes (id : UInt64) : List UInt8 :=
  BigEndian.ofNat 8 id.toNat

/-- The address of an account: `G…`, or `M…` for a multiplexed one. -/
def address : MuxedAccount → String
  | .plain key => Strkey.encode .accountId key.toList
  | .muxed id key => Strkey.encode .muxedAccount (key.toList ++ idBytes id)

/-- The account of an address `G…` or `M…`. -/
def ofAddress (text : String) : Except AddressError MuxedAccount := do
  let (kind, payload) ← Strkey.decode text
  match kind with
  | .accountId => return .plain (.ofListPadded 32 payload)
  | .muxedAccount =>
    return .muxed (UInt64.ofNat (BigEndian.toNat (payload.drop 32))) (.ofListPadded 32 payload)
  | found => throw (.notAccount found)

/-- The key of an account. -/
def key : MuxedAccount → Bytes32
  | .plain key => key
  | .muxed _ key => key

/-- The account that several multiplexed ones share. -/
def accountId (account : MuxedAccount) : AccountId :=
  ⟨account.key⟩

/-- An account without a number. -/
def ofAccountId (account : AccountId) : MuxedAccount :=
  .plain account.key

/-- Accounts on the wire and, by their addresses, in listings. -/
def layout : Layout MuxedAccount :=
  ⟨codec, .parsed address fun text => ofAddress text⟩

end MuxedAccount

/-! ## Signer keys -/

/-- What may sign for an account besides its own key. -/
inductive SignerKey where
  | ed25519 (key : Bytes32)
  /-- The transaction of that hash needs no signature. -/
  | preAuthTx (hash : Bytes32)
  /-- Whoever shows the value of that hash signs. -/
  | hashX (hash : Bytes32)
  /-- A key that must sign a payload besides. -/
  | signedPayload (key : Bytes32) (payload : List UInt8)
deriving DecidableEq

namespace SignerKey

/-- The longest payload that a key signs besides. -/
def maxPayload : Nat := 64

/-- The arms of the union. -/
inductive Arm where
  | ed25519
  | preAuthTx
  | hashX
  | signedPayload

/-- The kind of key that an arm has. -/
def Arm.kind : Arm → KeyKind
  | .ed25519 => .ed25519
  | .preAuthTx => .preAuthTx
  | .hashX => .hashX
  | .signedPayload => .signedPayload

/-- The arm for a kind of key. -/
def Arm.ofKind? : KeyKind → Option Arm
  | .ed25519 => some .ed25519
  | .preAuthTx => some .preAuthTx
  | .hashX => some .hashX
  | .signedPayload => some .signedPayload
  | .muxed => none

/-- What an arm holds. -/
def Arm.Payload : Arm → Type
  | .signedPayload => Bytes32 × List UInt8
  | _ => Bytes32

/-- A signer key as an arm and what the arm holds. -/
def view : Bijection SignerKey (Sigma Arm.Payload) where
  forth
    | .ed25519 key => ⟨.ed25519, key⟩
    | .preAuthTx hash => ⟨.preAuthTx, hash⟩
    | .hashX hash => ⟨.hashX, hash⟩
    | .signedPayload key payload => ⟨.signedPayload, (key, payload)⟩
  back
    | ⟨.ed25519, key⟩ => .ed25519 key
    | ⟨.preAuthTx, hash⟩ => .preAuthTx hash
    | ⟨.hashX, hash⟩ => .hashX hash
    | ⟨.signedPayload, (key, payload)⟩ => .signedPayload key payload
  back_forth k := by cases k <;> rfl
  forth_back := fun ⟨k, b⟩ => by cases k <;> rfl

/-- A key and the payload that it signs. -/
def payloadCodec : Codec (Bytes32 × List UInt8) :=
  .pair (.fixed 32) (.bytes maxPayload)

/-- On the wire, a kind of key and the key or hash. -/
def codec : Codec SignerKey :=
  .map view <| .sigma (.arms "SignerKey" Arm.kind Arm.ofKind?) fun
    | .ed25519 => .fixed 32
    | .preAuthTx => .fixed 32
    | .hashX => .fixed 32
    | .signedPayload => payloadCodec

/-- The strkey of a signer: `G…`, `T…`, `X…` or `P…`. -/
def strkey : SignerKey → String
  | .ed25519 key => Strkey.encode .accountId key.toList
  | .preAuthTx hash => Strkey.encode .preAuthTx hash.toList
  | .hashX hash => Strkey.encode .sha256Hash hash.toList
  | .signedPayload key payload => Strkey.encode .signedPayload (payloadCodec.encode (key, payload))

/-- The signer of a strkey. -/
def ofStrkey (text : String) : Except ValueError SignerKey := do
  let (kind, payload) ← Strkey.decode text
  match kind with
  | .accountId => return .ed25519 (.ofListPadded 32 payload)
  | .preAuthTx => return .preAuthTx (.ofListPadded 32 payload)
  | .sha256Hash => return .hashX (.ofListPadded 32 payload)
  | .signedPayload =>
    -- the length is checked by the strkey, and the count in it here
    let (key, inner) ← payloadCodec.decodeWhole payload
    return .signedPayload key inner
  | found => throw (.address (.notSigner found))

/-- Signer keys on the wire and, by their strkeys, in listings. -/
def layout : Layout SignerKey :=
  ⟨codec, .parsed strkey ofStrkey⟩

end SignerKey

/-- A signer of an account and how much its signature weighs. -/
structure AccountSigner where
  key : SignerKey
  weight : UInt32

/-- The key and then the weight. -/
def AccountSigner.layout : Layout AccountSigner :=
  .map ⟨fun s => (s.key, s.weight), fun v => ⟨v.1, v.2⟩, fun _ => rfl, fun _ => rfl⟩ <|
    .field "key" SignerKey.layout <|
    .under "weight" .uint32

/-! ## Signatures -/

/-- A signature and the last bytes of the key that made it. -/
structure DecoratedSignature where
  hint : FixedBytes 4
  signature : List UInt8
deriving DecidableEq

namespace DecoratedSignature

/-- The longest signature. -/
def maxLength : Nat := 64

/-- The hint and then the signature. -/
def layout : Layout DecoratedSignature :=
  .map ⟨fun s => (s.hint, s.signature), fun v => ⟨v.1, v.2⟩, fun _ => rfl, fun _ => rfl⟩ <|
    .field "hint" (.fixed 4) <|
    .under "signature" (.bytes maxLength)

end DecoratedSignature

end LedgerTx
