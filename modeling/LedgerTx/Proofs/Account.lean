import LedgerTx.Account
import LedgerTx.Proofs.Layout.Scalar
import LedgerTx.Proofs.Strkey.Basic
import LedgerTx.Proofs.Wire.Aligned

namespace LedgerTx

open Listing

/-! # Accounts and signers on the wire and in listings

Keys stand in listings as strkeys, of which all but one kind are read back.  A signer that signs a payload
besides has a strkey that is read only if there is a payload. -/

instance : Enumeration.Numbered PublicKeyKind := ⟨by intro k; cases k; rfl⟩

instance : Enumeration.Numbered KeyKind := ⟨by intro k; cases k <;> rfl⟩

/-- A strkey is one word. -/
theorem Strkey.word_encode (kind : Kind) (payload : List UInt8) :
    Word (encode kind payload).toList :=
  word_of_alphanum (encode_ne_nil kind payload) fun _ hc => isAlphanum_of_mem_encode hc

/-- The first bytes of a padded string are those that were given. -/
theorem FixedBytes.ofListPadded_append {n : Nat} (bytes : FixedBytes n) (more : List UInt8) :
    ofListPadded n (bytes.toList ++ more) = bytes := by
  apply FixedBytes.ext
  unfold ofListPadded
  dsimp only
  rw [List.append_assoc]
  exact List.take_left' bytes.length_toList

/-- Bytes that fill their room need no filling up. -/
theorem FixedBytes.ofListPadded_toList {n : Nat} (bytes : FixedBytes n) :
    ofListPadded n bytes.toList = bytes := by
  have happend := ofListPadded_append bytes []
  rwa [List.append_nil] at happend

/-! ## Account ids -/

namespace AccountId

/-- An account id is written as a kind of key and the key. -/
theorem codec_composed {lenient : Bool} : Codec.Composed lenient codec :=
  .map (.pair (.constant PublicKeyKind) (.fixed 32))

instance : Codec.Aligned codec :=
  .map (.pair (.constant (κ := PublicKeyKind)) .fixed32) _

/-- An account id is read back from its strkey. -/
theorem ofAddress_address (account : AccountId) : ofAddress account.address = .ok account := by
  unfold ofAddress address
  rw [Strkey.decodeKey_encode rfl]
  rfl

/-- Every account id has a line that is read back, and any line that is read is that of an id. -/
theorem lineLaw : LineLaw codec layout.form (fun _ => True) (fun _ => True) := by
  unfold layout
  dsimp only
  refine .of_parsed (fun account => Strkey.word_encode _ _) fun account _ => .of_eq ?_
  rw [ofAddress_address]
  rfl

end AccountId

/-- A key is read back from a strkey of a kind that holds keys. -/
theorem LineLaw.key {kind : Strkey.Kind} (hkind : kind.allowsLength 32 = true) {codec : Codec Bytes32} :
    LineLaw codec
      (.parsed (fun key => Strkey.encode kind key.toList) fun text => Strkey.decodeKey kind text)
      (fun _ => True) (fun _ => True) := by
  refine .of_parsed (fun key => Strkey.word_encode _ _) fun key _ => .of_eq ?_
  rw [Strkey.decodeKey_encode hkind]
  rfl

/-! ## Multiplexed accounts -/

namespace MuxedAccount

/-- A multiplexed account is a kind, and then a key with an id or without. -/
theorem codec_composed {lenient : Bool} : Codec.Composed lenient codec := by
  refine .map (.sigma (.arms ?_ ?_) ?_)
  · intro arm
    cases arm <;> rfl
  · intro kind arm h
    cases kind <;> cases h <;> rfl
  · intro arm
    cases arm with
    | plain => exact .fixed 32
    | muxed => exact .pair .uint64 (.fixed 32)

instance : Codec.Aligned codec := by
  refine .map (.sigma .arms fun arm => ?_) _
  cases arm with
  | plain => exact .fixed32
  | muxed => exact .pair .uint64 .fixed32

/-- A multiplexed account is read back from its strkey, of either kind. -/
theorem ofAddress_address (account : MuxedAccount) : ofAddress account.address = .ok account := by
  -- one kind holds a key alone, the other one the key in front of the id
  cases account with
  | plain key =>
    have hread := Strkey.decode_encode .accountId key.toList
    rw [key.length_toList] at hread
    unfold ofAddress address
    rw [hread]
    exact congrArg (fun key => Except.ok (MuxedAccount.plain key)) key.ofListPadded_toList
  | muxed id key =>
    have hlength : (key.toList ++ idBytes id).length = 40 := by
      rw [List.length_append, key.length_toList]
      rfl
    have hread := Strkey.decode_encode .muxedAccount (key.toList ++ idBytes id)
    rw [hlength] at hread
    have hid : UInt64.ofNat (BigEndian.toNat (idBytes id)) = id := by
      unfold idBytes
      rw [BigEndian.toNat_ofNat_of_lt id.toNat_lt, UInt64.ofNat_toNat]
    unfold ofAddress address
    rw [hread]
    show Except.ok (MuxedAccount.muxed _ _) = _
    rw [List.drop_left' key.length_toList, hid, key.ofListPadded_append]

/-- Every multiplexed account is read back from its line. -/
theorem lineLaw : LineLaw codec layout.form (fun _ => True) (fun _ => True) := by
  unfold layout
  dsimp only
  refine .of_parsed (fun account => ?_) fun account _ => .of_eq ?_
  · cases account <;> exact Strkey.word_encode _ _
  · rw [ofAddress_address]
    rfl

end MuxedAccount

/-! ## Signers -/

namespace SignerKey

/-- The key comes first, and then the payload with its count. -/
theorem payloadCodec_composed {lenient : Bool} : Codec.Composed lenient payloadCodec :=
  .pair (.fixed 32) (.bytes maxPayload)

/-- A signer is a kind of key and what such a key holds. -/
theorem codec_composed {lenient : Bool} : Codec.Composed lenient codec := by
  refine .map (.sigma (.arms ?_ ?_) ?_)
  · intro arm
    cases arm <;> rfl
  · intro kind arm h
    cases kind <;> cases h <;> rfl
  · intro arm
    cases arm with
    | ed25519 | preAuthTx | hashX => exact .fixed 32
    | signedPayload => exact payloadCodec_composed

instance : Codec.Aligned codec := by
  refine .map (.sigma .arms fun arm => ?_) _
  cases arm with
  | ed25519 | preAuthTx | hashX => exact .fixed32
  | signedPayload => exact .pair .fixed32 (.bytes maxPayload)

/-- Whether there is something to sign, where something must be. -/
def HasPayload : SignerKey → Prop
  | .signedPayload _ payload => payload ≠ []
  | _ => True

/-- The length of a key and a payload, which is filled up to whole words. -/
theorem length_payloadCodec_encode (key : Bytes32) (payload : List UInt8) :
    (payloadCodec.encode (key, payload)).length
      = 36 + payload.length + Codec.padding payload.length := by
  have hcount : ((Codec.count "opaque" maxPayload).encode payload.length).length = 4 :=
    BigEndian.length_ofNat 4 _
  show (key.toList ++ ((Codec.count "opaque" maxPayload).encode payload.length ++ payload
    ++ List.replicate (Codec.padding payload.length) 0)).length = _
  rw [List.length_append, List.length_append, List.length_append, List.length_replicate,
    key.length_toList, hcount]
  omega

/-- Strkeys hold payloads of 1 to 64 bytes. -/
theorem allowsLength_iff (key : Bytes32) {payload : List UInt8} (h : payload.length ≤ maxPayload) :
    Strkey.Kind.signedPayload.allowsLength (payloadCodec.encode (key, payload)).length = true
      ↔ payload ≠ [] := by
  have hmax : payload.length ≤ 64 := h
  rw [length_payloadCodec_encode, ← List.length_pos_iff]
  unfold Strkey.Kind.allowsLength Codec.padding
  -- whole words, of which an empty payload takes none
  simp only [Bool.and_eq_true, decide_eq_true_eq, beq_iff_eq]
  omega

/-- A signer is read back from its strkey exactly if it has something to sign, where it must. -/
theorem ofStrkey_strkey {key : SignerKey} (hfits : codec.fits .standard key = true) :
    Settles key.HasPayload (ofStrkey key.strkey) key := by
  have hkey : ∀ kind, kind.allowsLength 32 = true → ∀ bytes : Bytes32,
      Strkey.decode (Strkey.encode kind bytes.toList) = .ok (kind, bytes.toList) := by
    intro kind hkind bytes
    have hread := Strkey.decode_encode kind bytes.toList
    rwa [bytes.length_toList, if_pos hkind] at hread
  -- the three kinds that hold a key alone are read back without a condition
  cases key with
  | ed25519 bytes =>
    refine .of_eq ?_
    unfold ofStrkey strkey
    rw [hkey _ rfl]
    exact congrArg (fun bytes => Except.ok (SignerKey.ed25519 bytes)) bytes.ofListPadded_toList
  | preAuthTx bytes =>
    refine .of_eq ?_
    unfold ofStrkey strkey
    rw [hkey _ rfl]
    exact congrArg (fun bytes => Except.ok (SignerKey.preAuthTx bytes)) bytes.ofListPadded_toList
  | hashX bytes =>
    refine .of_eq ?_
    unfold ofStrkey strkey
    rw [hkey _ rfl]
    exact congrArg (fun bytes => Except.ok (SignerKey.hashX bytes)) bytes.ofListPadded_toList
  | signedPayload bytes payload =>
    have hpayload : payloadCodec.fits .standard (bytes, payload) = true := hfits
    have hlimit : payload.length ≤ min maxPayload Rules.maxCount := of_decide_eq_true hpayload
    have hmax := Nat.le_trans hlimit (Nat.min_le_left ..)
    have hallows := allowsLength_iff bytes hmax
    have hread := Strkey.decode_encode .signedPayload (payloadCodec.encode (bytes, payload))
    have hcodec : Codec.Composed false payloadCodec := payloadCodec_composed
    have hwhole := hcodec.decodeWhole_encode hpayload
    -- a strkey without a payload is too short for its kind
    constructor
    · intro hne
      rw [if_pos (hallows.mpr hne)] at hread
      unfold ofStrkey strkey
      rw [hread]
      refine Except.bind_eq_ok.mpr ⟨_, rfl, Except.bind_eq_ok.mpr ⟨(bytes, payload), ?_, rfl⟩⟩
      rw [hwhole]
      rfl
    · intro hempty
      rw [if_neg fun hyes => hempty (hallows.mp hyes)] at hread
      unfold ofStrkey strkey
      rw [hread]
      exact ⟨_, rfl⟩

theorem lineLaw : LineLaw codec layout.form (fun _ => True) HasPayload := by
  unfold layout
  dsimp only
  refine .of_parsed (fun key => ?_) fun key hfits => ofStrkey_strkey hfits
  cases key <;> exact Strkey.word_encode _ _

end SignerKey

end LedgerTx
