import LedgerTx.Proofs.Account
import LedgerTx.Proofs.Bytes.Slice
import LedgerTx.Proofs.Strkey.Canonical

namespace LedgerTx

/-! # Addresses and the texts that are accepted for them

Accounts and signers are read from the very texts that are written for them and from no others, and no
reading takes a slice out of bounds. -/

/-- A strkey of 32 bytes is that of the key that is copied from it. -/
theorem Strkey.eq_encode_key {text : String} {kind : Kind} {payload : List UInt8}
    (htext : text = encode kind payload) (h : payload.length = 32) :
    text = encode kind (FixedBytes.ofListPadded 32 payload).toList := by
  rw [FixedBytes.toList_ofListPadded_length h, htext]

/-! ## Accounts -/

namespace MuxedAccount

/-- Eight bytes are those of the number that they spell. -/
theorem idBytes_ofNat_toNat {bytes : List UInt8} (h : bytes.length = 8) :
    idBytes (UInt64.ofNat (BigEndian.toNat bytes)) = bytes := by
  have hlt := BigEndian.toNat_lt bytes
  rw [h] at hlt
  have hid : (UInt64.ofNat (BigEndian.toNat bytes)).toNat = BigEndian.toNat bytes :=
    UInt64.toNat_ofNat_of_lt' hlt
  have hread := BigEndian.ofNat_toNat bytes
  rw [h] at hread
  unfold idBytes
  rw [hid, hread]

/-- A text is read as an account if it is the account's address. -/
theorem ofAddress_eq_ok {text : String} {account : MuxedAccount} :
    ofAddress text = .ok account ↔ text = account.address := by
  constructor
  · intro h
    unfold ofAddress at h
    obtain ⟨⟨kind, payload⟩, hread, h⟩ := Except.bind_eq_ok.mp h
    obtain ⟨hlength, htext⟩ := Strkey.decode_eq_ok.mp hread
    cases kind with
    | accountId =>
      cases h
      exact Strkey.eq_encode_key htext hlength
    | muxedAccount =>
      have hfull : payload.length = 40 := hlength
      have hroom : 32 ≤ payload.length := by omega
      have hkey := FixedBytes.toList_ofListPadded hroom
      -- eight bytes are left behind the key
      have hid : (payload.drop 32).length = 8 := by
        rw [List.length_drop]
        omega
      cases h
      show text = Strkey.encode .muxedAccount
        ((FixedBytes.ofListPadded 32 payload).toList ++ idBytes _)
      rw [hkey, idBytes_ofNat_toNat hid, List.take_append_drop, htext]
    | secretSeed | preAuthTx | sha256Hash | signedPayload | contract => cases h
  · rintro rfl
    exact ofAddress_address account

end MuxedAccount

/-! ## Signers -/

namespace SignerKey

/-- Whether what is to be signed has a length that strkeys have room for. -/
def Spellable : SignerKey → Prop
  | .signedPayload _ payload => 1 ≤ payload.length ∧ payload.length ≤ 64
  | _ => True

/-- The strkey of a spellable signer is read back. -/
theorem ofStrkey_strkey_of_spellable {key : SignerKey} (h : key.Spellable) :
    ofStrkey key.strkey = .ok key := by
  have hread : ∀ signer : SignerKey, codec.fits .standard signer = true → signer.HasPayload →
      ofStrkey signer.strkey = .ok signer :=
    fun _ hfits hpayload => (ofStrkey_strkey hfits).eq_ok hpayload
  cases key with
  | ed25519 bytes => exact hread (.ed25519 bytes) rfl trivial
  | preAuthTx hash => exact hread (.preAuthTx hash) rfl trivial
  | hashX hash => exact hread (.hashX hash) rfl trivial
  | signedPayload bytes payload =>
    have hleast : 1 ≤ payload.length := h.1
    have hmost : payload.length ≤ 64 := h.2
    have hlimit : payload.length ≤ min maxPayload Rules.maxCount :=
      Nat.le_min.mpr ⟨hmost, Nat.le_trans hmost (by decide)⟩
    have hfits : codec.fits .standard (.signedPayload bytes payload) = true :=
      decide_eq_true hlimit
    exact hread _ hfits (List.length_pos_iff.mp hleast)

/-- What a strkey holds for a signer that signs a payload is written again as it was read, and what is to
be signed has a length that fits. -/
theorem spellable_of_decodeWhole {bytes : List UInt8} {key : Bytes32} {payload : List UInt8}
    (hlength : 40 ≤ bytes.length) (hread : payloadCodec.decodeWhole bytes = .ok (key, payload)) :
    payloadCodec.encode (key, payload) = bytes ∧ (signedPayload key payload).Spellable := by
  have hcodec : Codec.Composed false payloadCodec := payloadCodec_composed
  have hbytes := hcodec.encode_eq hread
  have hfits := (hcodec.fits_and_length (Decoder.whole_eq_ok.mp hread)).1
  have hlimit : payload.length ≤ min maxPayload Rules.maxCount := of_decide_eq_true hfits
  -- the count was checked when it was read
  have hmost : payload.length ≤ 64 := Nat.le_trans hlimit (Nat.min_le_left ..)
  -- a key and the count of an empty payload are too short for a strkey
  have hwhole := length_payloadCodec_encode key payload
  have hleast : 1 ≤ payload.length := by
    rw [hbytes] at hwhole
    unfold Codec.padding at hwhole
    omega
  exact ⟨hbytes, hleast, hmost⟩

/-- A text is read as a signer if it is the signer's strkey, which must have room for what is to be
signed. -/
theorem ofStrkey_eq_ok {text : String} {key : SignerKey} :
    ofStrkey text = .ok key ↔ text = key.strkey ∧ key.Spellable := by
  constructor
  · intro h
    unfold ofStrkey at h
    obtain ⟨⟨kind, payload⟩, hread, h⟩ := Except.bind_eq_ok.mp h
    obtain ⟨hlength, htext⟩ := Strkey.decode_eq_ok.mp (Except.mapError_eq_ok.mp hread)
    cases kind with
    | accountId =>
      cases h
      exact ⟨Strkey.eq_encode_key htext hlength, trivial⟩
    | preAuthTx =>
      cases h
      exact ⟨Strkey.eq_encode_key htext hlength, trivial⟩
    | sha256Hash =>
      cases h
      exact ⟨Strkey.eq_encode_key htext hlength, trivial⟩
    | signedPayload =>
      have hleast : 40 ≤ payload.length := hlength.1
      obtain ⟨⟨bytes, inner⟩, hinner, h⟩ := Except.bind_eq_ok.mp h
      obtain ⟨hbytes, hspellable⟩ :=
        spellable_of_decodeWhole hleast (Except.mapError_eq_ok.mp hinner)
      cases h
      refine ⟨?_, hspellable⟩
      show text = Strkey.encode .signedPayload (payloadCodec.encode (bytes, inner))
      rw [hbytes, htext]
    | muxedAccount | secretSeed | contract => cases h
  · rintro ⟨rfl, hspellable⟩
    exact ofStrkey_strkey_of_spellable hspellable

end SignerKey

/-! ## Bounds -/

open Guarded

/-- Reads a strkey by slices of its data. -/
def Strkey.decodeGuarded (text : String) : Guarded AddressError (Kind × List UInt8) := do
  let data ← result ((Base32.decode text.toList).mapError .badCharacter)
  if Base32.encode data ≠ text.toList then throw .notCanonical
  if data.length < 3 then throw .tooShort
  let split ← minus data.length 2
  let body ← slice data 0 split
  let checksum ← slice data split data.length
  if checksum ≠ Checksum.bytesOf body then throw .badChecksum
  let version ← byteAt body 0
  match Kind.ofVersion? version with
  | none => throw (.unknownVersion version)
  | some kind =>
    let payload ← slice body 1 body.length
    if kind.allowsLength payload.length then return (kind, payload)
    else throw (.badLength payload.length kind)

/-- Reads an account by slices of the payload. -/
def MuxedAccount.ofAddressGuarded (text : String) : Guarded AddressError MuxedAccount := do
  let (kind, payload) ← Strkey.decodeGuarded text
  match kind with
  | .accountId =>
    let key ← copy 32 payload
    return .plain key
  | .muxedAccount =>
    let key ← copySlice 32 payload 0
    let id ← copySlice 8 payload 32
    return .muxed (UInt64.ofNat (BigEndian.toNat id.toList)) key
  | found => throw (.notAccount found)

/-- Reads a signer by slices of the payload; the key is copied before the kind is looked at. -/
def SignerKey.ofStrkeyGuarded (text : String) : Guarded ValueError SignerKey := do
  let (kind, payload) ← ExceptT.adapt .address (Strkey.decodeGuarded text)
  let key ← copySlice 32 payload 0
  match kind with
  | .accountId => return .ed25519 key
  | .preAuthTx => return .preAuthTx key
  | .sha256Hash => return .hashX key
  | .signedPayload =>
    let inner ← slice payload 32 payload.length
    let signed ← ExceptT.adapt .decode (Cursor.whole (·.counted maxPayload) inner)
    return .signedPayload key signed
  | found => throw (.address (.notSigner found))

/-- No slice of the data is out of bounds, so the readings agree. -/
theorem Strkey.decodeGuarded_eq (text : String) : decodeGuarded text = result (decode text) := by
  unfold decodeGuarded decode
  refine result_bind fun data _ => ?_
  by_cases hcanonical : Base32.encode data ≠ text.toList
  · rw [if_pos hcanonical, if_pos hcanonical]
    rfl
  rw [if_neg hcanonical, if_neg hcanonical]
  by_cases hshort : data.length < 3
  · rw [if_pos hshort, if_pos hshort]
    rfl
  -- data of three bytes has a checksum to split off
  have hsplit : 2 ≤ data.length := by omega
  have hless : data.length - 2 ≤ data.length := Nat.sub_le _ _
  rw [if_neg hshort, if_neg hshort, minus_eq hsplit]
  dsimp only [result_ok_bind]
  rw [slice_eq (Nat.zero_le _) hless, List.drop_zero, slice_to_length hless]
  dsimp only [result_ok_bind]
  by_cases hsum : data.drop (data.length - 2) ≠ Checksum.bytesOf (data.take (data.length - 2))
  · rw [if_pos hsum, if_pos hsum]
    rfl
  rw [if_neg hsum, if_neg hsum]
  -- before the checksum there is at least the version
  cases hbody : data.take (data.length - 2) with
  | nil =>
    have hlength := congrArg List.length hbody
    rw [List.length_take, List.length_nil] at hlength
    omega
  | cons version payload =>
    have hversion : (byteAt (version :: payload) 0 : Guarded AddressError _)
        = result (.ok version) := rfl
    have hpayload : (slice (version :: payload) 1 (version :: payload).length
        : Guarded AddressError _) = result (.ok payload) := slice_to_length (Nat.le_add_left 1 _)
    rw [hversion]
    dsimp only [result_ok_bind]
    cases Kind.ofVersion? version with
    | none => rfl
    | some kind =>
      dsimp only
      rw [hpayload]
      dsimp only [result_ok_bind]
      by_cases hallows : kind.allowsLength payload.length = true
      · rw [if_pos hallows, if_pos hallows]
        rfl
      · rw [if_neg hallows, if_neg hallows]
        rfl

/-- The kind says how long the payload is, so nor is any slice of an account's. -/
theorem MuxedAccount.ofAddressGuarded_eq (text : String) :
    ofAddressGuarded text = result (ofAddress text) := by
  unfold ofAddressGuarded ofAddress
  rw [Strkey.decodeGuarded_eq]
  refine result_bind fun (kind, payload) hread => ?_
  have hlength := (Strkey.decode_eq_ok.mp hread).1
  cases kind with
  | accountId =>
    have hfull : payload.length = 32 := hlength
    dsimp only
    rw [copy_eq_ofListPadded hfull]
    rfl
  | muxedAccount =>
    have hfull : payload.length = 40 := hlength
    -- behind the key are the eight bytes of the number
    have hid : (payload.drop 32).length = 8 := by
      rw [List.length_drop]
      omega
    dsimp only
    rw [copySlice_eq (by omega), copySlice_eq (by omega)]
    dsimp only [result_ok_bind]
    rw [List.drop_zero, FixedBytes.toList_ofListPadded_length hid]
    rfl
  | secretSeed | preAuthTx | sha256Hash | signedPayload | contract => rfl

/-- Behind the key stands what the key signs. -/
theorem SignerKey.payloadCodec_decodeWhole {bytes : List UInt8} (h : 32 ≤ bytes.length) :
    payloadCodec.decodeWhole bytes
      = (Decoder.whole ((Codec.bytes maxPayload).decode .standard) (bytes.drop 32)).map
          fun signed => (.ofListPadded 32 bytes, signed) := by
  have hkey : bytes = (FixedBytes.ofListPadded 32 bytes).toList ++ bytes.drop 32 := by
    rw [FixedBytes.toList_ofListPadded h, List.take_append_drop]
  have hfixed : (Codec.fixed 32).decode .standard bytes
      = .ok (.ofListPadded 32 bytes, bytes.drop 32) := Decoder.fixed_eq_ok.mpr hkey
  have hpair : payloadCodec.decode .standard bytes
      = (Codec.bytes maxPayload).decode .standard (bytes.drop 32) >>=
          fun read => .ok ((.ofListPadded 32 bytes, read.1), read.2) := by
    show ((Codec.fixed 32).decode .standard bytes >>= _) = _
    rw [hfixed]
    rfl
  unfold Codec.decodeWhole Decoder.whole
  rw [hpair]
  cases (Codec.bytes maxPayload).decode .standard (bytes.drop 32) with
  | error failure => rfl
  | ok read =>
    show (Decoder.finish read.2 >>= _) = Except.map _ (Decoder.finish read.2 >>= _)
    cases Decoder.finish read.2 with
    | error cause => rfl
    | ok done => rfl

/-- No slice of a signer's payload is out of bounds. -/
theorem SignerKey.ofStrkeyGuarded_eq (text : String) :
    ofStrkeyGuarded text = result (ofStrkey text) := by
  unfold ofStrkeyGuarded ofStrkey
  rw [Strkey.decodeGuarded_eq]
  show result ((Strkey.decode text).mapError ValueError.address) >>= _ = _
  refine result_bind fun (kind, payload) hread => ?_
  have hlength := (Strkey.decode_eq_ok.mp (Except.mapError_eq_ok.mp hread)).1
  -- every kind of strkey has the 32 bytes that are copied
  have hroom : 32 ≤ payload.length := by
    cases kind with
    | muxedAccount | signedPayload | accountId | secretSeed | preAuthTx | sha256Hash | contract =>
      unfold Strkey.Kind.HoldsLength at hlength
      dsimp only at hlength
      omega
  dsimp only
  rw [copySlice_eq (by omega), List.drop_zero]
  dsimp only [result_ok_bind]
  cases kind with
  | signedPayload =>
    have hmax : maxPayload ≤ Rules.maxCount := by decide
    dsimp only
    rw [slice_to_length hroom]
    dsimp only [result_ok_bind]
    rw [Cursor.whole_eq fun cursor hbounds => Cursor.agrees_counted hbounds hmax,
      payloadCodec_decodeWhole hroom]
    cases Decoder.whole ((Codec.bytes maxPayload).decode .standard) (payload.drop 32) with
    | error cause => rfl
    | ok signed => rfl
  | muxedAccount | accountId | secretSeed | preAuthTx | sha256Hash | contract => rfl

/-- Addresses and strkeys agree with the accounts and signers that they stand for: a text is read as an
account exactly if it is written for it, likewise for a signer if strkeys have room for what it signs,
and on no text does a reading slice or copy out of bounds. -/
theorem addresses_agree :
    (∀ text account, MuxedAccount.ofAddress text = .ok account ↔ text = account.address) ∧
      (∀ key, SignerKey.ofStrkey key.strkey = .ok key ↔ key.Spellable) ∧
      (∀ text key, SignerKey.ofStrkey text = .ok key ↔ text = key.strkey ∧ key.Spellable) ∧
      (∀ text, MuxedAccount.ofAddressGuarded text = result (MuxedAccount.ofAddress text)) ∧
      ∀ text, SignerKey.ofStrkeyGuarded text = result (SignerKey.ofStrkey text) := by
  refine ⟨fun _ _ => MuxedAccount.ofAddress_eq_ok, fun key => ?_, fun _ _ => SignerKey.ofStrkey_eq_ok,
    MuxedAccount.ofAddressGuarded_eq, SignerKey.ofStrkeyGuarded_eq⟩
  rw [SignerKey.ofStrkey_eq_ok]
  constructor
  · rintro ⟨-, hspellable⟩
    exact hspellable
  · intro hspellable
    exact ⟨rfl, hspellable⟩

end LedgerTx
