import LedgerTx.Proofs.Strkey.Basic
import LedgerTx.Proofs.Wire.Decoder

namespace LedgerTx.Strkey

/-! # Strkeys and what they hold

A strkey is accepted only if writing what was read gives the same text, so each pair of a kind and a
payload that the kind can hold has one strkey, and every accepted text is one of these. -/

/-! ## Kinds -/

/-- A kind is found by its version. -/
theorem Kind.version_of_ofVersion? {b : UInt8} {kind : Kind} (h : ofVersion? b = some kind) :
    kind.version = b := by
  have hfound := List.find?_some h
  exact beq_iff_eq.mp hfound

/-- The lengths of the payloads of a kind. -/
def Kind.HoldsLength (kind : Kind) (length : Nat) : Prop :=
  match kind with
  | .muxedAccount => length = 40
  | .signedPayload => 40 ≤ length ∧ length ≤ 100 ∧ 4 ∣ length
  | .accountId | .secretSeed | .preAuthTx | .sha256Hash | .contract => length = 32

/-- The lengths that are allowed are those that the kind can hold. -/
theorem Kind.allowsLength_iff_holdsLength {kind : Kind} {length : Nat} :
    kind.allowsLength length = true ↔ kind.HoldsLength length := by
  cases kind with
  | signedPayload =>
    unfold allowsLength HoldsLength
    simp only [Bool.and_eq_true, decide_eq_true_eq, beq_iff_eq, Nat.dvd_iff_mod_eq_zero, and_assoc]
  | accountId | muxedAccount | secretSeed | preAuthTx | sha256Hash | contract =>
    exact beq_iff_eq

/-! ## Texts that are accepted -/

/-- What an accepted text spells: the version, the payload and their checksum, as they are written. -/
theorem body_of_decode {text : String} {kind : Kind} {payload : List UInt8}
    (h : decode text = .ok (kind, payload)) :
    kind.allowsLength payload.length = true ∧
      Base32.encode (kind.version :: payload ++ Checksum.bytesOf (kind.version :: payload))
        = text.toList := by
  unfold decode at h
  obtain ⟨data, -, h⟩ := Except.bind_eq_ok.mp h
  -- each check that could refuse has passed
  obtain ⟨hcanonical, h⟩ := Except.guard_bind_eq_ok.mp h
  obtain ⟨-, h⟩ := Except.guard_bind_eq_ok.mp h
  obtain ⟨hsum, h⟩ := Except.guard_bind_eq_ok.mp h
  have hcanonical := not_not.mp hcanonical
  have hsum := not_not.mp hsum
  have hdata : data.take (data.length - 2)
      ++ Checksum.bytesOf (data.take (data.length - 2)) = data := by
    rw [← hsum]
    exact List.take_append_drop _ data
  -- what stands before the checksum is a version and the payload
  cases hbody : data.take (data.length - 2) with
  | nil =>
    rw [hbody] at h
    cases h
  | cons version rest =>
    rw [hbody] at h hdata
    dsimp only at h
    cases hkind : Kind.ofVersion? version with
    | none =>
      rw [hkind] at h
      cases h
    | some found =>
      rw [hkind] at h
      dsimp only at h
      by_cases hallows : found.allowsLength rest.length = true
      · rw [if_pos hallows] at h
        cases h
        rw [Kind.version_of_ofVersion? hkind, hdata]
        exact ⟨hallows, hcanonical⟩
      · rw [if_neg hallows] at h
        cases h

/-- An accepted text is what writing its kind and payload gives. -/
theorem encode_of_decode {text : String} {kind : Kind} {payload : List UInt8}
    (h : decode text = .ok (kind, payload)) : encode kind payload = text := by
  obtain ⟨-, htext⟩ := body_of_decode h
  unfold encode
  dsimp only
  rw [htext, String.ofList_toList]

/-- The texts that are accepted are those that are written for payloads of the right length. -/
theorem decode_eq_ok {text : String} {kind : Kind} {payload : List UInt8} :
    decode text = .ok (kind, payload)
      ↔ kind.HoldsLength payload.length ∧ text = encode kind payload := by
  rw [← Kind.allowsLength_iff_holdsLength]
  constructor
  · intro h
    obtain ⟨hallows, -⟩ := body_of_decode h
    exact ⟨hallows, (encode_of_decode h).symm⟩
  · rintro ⟨hallows, rfl⟩
    rw [decode_encode, if_pos hallows]

/-- What was written can be told from the text, also for payloads that no reader accepts. -/
theorem encode_inj {kind other : Kind} {payload bytes : List UInt8} :
    encode kind payload = encode other bytes ↔ kind = other ∧ payload = bytes := by
  constructor
  · intro h
    have hbody : kind.version :: payload ++ Checksum.bytesOf (kind.version :: payload)
        = other.version :: bytes ++ Checksum.bytesOf (other.version :: bytes) := by
      have htext := congrArg (fun text : String => Base32.decode text.toList) h
      unfold encode at htext
      dsimp only at htext
      rw [String.toList_ofList, String.toList_ofList, Base32.decode_encode,
        Base32.decode_encode] at htext
      exact Except.ok.inj htext
    -- both checksums are two bytes
    have hsplit := List.append_inj' hbody rfl
    obtain ⟨hversion, hpayload⟩ := List.cons.inj hsplit.1
    have hkind := congrArg Kind.ofVersion? hversion
    rw [Kind.ofVersion?_version, Kind.ofVersion?_version] at hkind
    exact ⟨Option.some.inj hkind, hpayload⟩
  · rintro ⟨rfl, rfl⟩
    rfl

/-! ## Texts of one kind -/

/-- Of one kind, the texts that are accepted are those that are written for it. -/
theorem decodeAs_eq_ok {kind : Kind} {text : String} {payload : List UInt8} :
    decodeAs kind text = .ok payload
      ↔ kind.HoldsLength payload.length ∧ text = encode kind payload := by
  rw [← decode_eq_ok]
  unfold decodeAs
  constructor
  · intro h
    obtain ⟨⟨found, bytes⟩, hdecode, h⟩ := Except.bind_eq_ok.mp h
    dsimp only at h
    by_cases hkind : found = kind
    · rw [if_pos hkind] at h
      cases h
      rw [hdecode, hkind]
    · rw [if_neg hkind] at h
      cases h
  · intro h
    refine Except.bind_eq_ok.mpr ⟨(kind, payload), h, ?_⟩
    exact if_pos rfl

/-- Of one kind, keys are accepted if it holds 32 bytes. -/
theorem decodeKey_eq_ok {kind : Kind} {text : String} {key : Bytes32} :
    decodeKey kind text = .ok key ↔ kind.HoldsLength 32 ∧ text = encode kind key.toList := by
  have hpayload : decodeAs kind text = .ok key.toList
      ↔ kind.HoldsLength key.toList.length ∧ text = encode kind key.toList := decodeAs_eq_ok
  rw [key.length_toList] at hpayload
  rw [← hpayload]
  unfold decodeKey
  constructor
  · intro h
    obtain ⟨payload, hread, h⟩ := Except.bind_eq_ok.mp h
    -- only 32 bytes are a key
    by_cases hlength : payload.length = 32
    · have hkey : FixedBytes.ofList? payload = some (⟨payload, hlength⟩ : Bytes32) := dif_pos hlength
      rw [hkey] at h
      cases h
      exact hread
    · have hkey : FixedBytes.ofList? payload = (none : Option Bytes32) := dif_neg hlength
      rw [hkey] at h
      cases h
  · intro h
    refine Except.bind_eq_ok.mpr ⟨key.toList, h, ?_⟩
    rw [FixedBytes.ofList?_toList]
    rfl

/-- A text is the address of an account if it is written for a key. -/
theorem isAccountId_iff {text : String} :
    isAccountId text = true ↔ ∃ key : Bytes32, text = encode .accountId key.toList := by
  unfold isAccountId
  constructor
  · intro h
    cases hread : decodeAs .accountId text with
    | error e =>
      rw [hread] at h
      cases h
    | ok payload =>
      obtain ⟨hlength, htext⟩ := decodeAs_eq_ok.mp hread
      exact ⟨⟨payload, hlength⟩, htext⟩
  · rintro ⟨key, htext⟩
    have hlength : Kind.accountId.HoldsLength key.toList.length := key.length_toList
    rw [decodeAs_eq_ok.mpr ⟨hlength, htext⟩]

/-- Strkeys and the payloads of the right lengths are in bijection: a text is accepted exactly if it is
the one that is written for what it is read as.  This holds for each way of reading. -/
theorem spelled_once :
    (∀ text kind payload, decode text = .ok (kind, payload)
        ↔ kind.HoldsLength payload.length ∧ text = encode kind payload) ∧
      (∀ kind payload, (∃! text, decode text = .ok (kind, payload))
        ↔ kind.HoldsLength payload.length) ∧
      (Function.Injective fun written : Kind × List UInt8 => encode written.1 written.2) ∧
      (∀ kind text payload, decodeAs kind text = .ok payload
        ↔ kind.HoldsLength payload.length ∧ text = encode kind payload) ∧
      (∀ kind text key, decodeKey kind text = .ok key
        ↔ kind.HoldsLength 32 ∧ text = encode kind key.toList) ∧
      ∀ text, isAccountId text = true ↔ ∃ key : Bytes32, text = encode .accountId key.toList := by
  refine ⟨fun _ _ _ => decode_eq_ok, ?_, ?_, fun _ _ _ => decodeAs_eq_ok,
    fun _ _ _ => decodeKey_eq_ok, fun _ => isAccountId_iff⟩
  · intro kind payload
    constructor
    -- what is read has a length that the kind holds
    · rintro ⟨text, hread, -⟩
      exact (decode_eq_ok.mp hread).1
    · intro hlength
      refine ⟨encode kind payload, decode_eq_ok.mpr ⟨hlength, rfl⟩, ?_⟩
      intro text hread
      exact (encode_of_decode hread).symm
  · rintro ⟨kind, payload⟩ ⟨other, bytes⟩ h
    obtain ⟨hkind, hbytes⟩ := encode_inj.mp h
    exact Prod.ext hkind hbytes

end LedgerTx.Strkey
