import LedgerTx.Strkey.Basic
import LedgerTx.Proofs.Strkey.Base32

namespace LedgerTx.Strkey

/-! # Reading strkeys that were written -/

theorem Kind.ofVersion?_version (kind : Kind) : ofVersion? kind.version = some kind := by
  cases kind <;> rfl

/-- A strkey is letters and digits. -/
theorem isAlphanum_of_mem_encode {kind : Kind} {payload : List UInt8} {c : Char}
    (h : c ∈ (encode kind payload).toList) : c.isAlphanum = true := by
  unfold encode at h
  rw [String.toList_ofList] at h
  exact Base32.isAlphanum_of_mem_encode h

/-- The first letter of a strkey says its kind. -/
theorem encode_ne_nil (kind : Kind) (payload : List UInt8) : (encode kind payload).toList ≠ [] := by
  unfold encode
  rw [String.toList_ofList, Base32.encode_eq]
  cases kind <;> exact List.cons_ne_nil _ _

/-- A strkey is read back if its kind allows payloads of that length. -/
theorem decode_encode (kind : Kind) (payload : List UInt8) :
    decode (encode kind payload)
      = if kind.allowsLength payload.length then .ok (kind, payload)
        else .error (.badLength payload.length kind) := by
  have hlength : (kind.version :: payload ++ Checksum.bytesOf (kind.version :: payload)).length
      = (kind.version :: payload).length + 2 := List.length_append
  have hlong : ¬(kind.version :: payload).length + 2 < 3 := by
    rw [List.length_cons]
    omega
  have htake : (kind.version :: payload ++ Checksum.bytesOf (kind.version :: payload)).take
      (kind.version :: payload).length = kind.version :: payload := List.take_left
  have hdrop : (kind.version :: payload ++ Checksum.bytesOf (kind.version :: payload)).drop
      (kind.version :: payload).length = Checksum.bytesOf (kind.version :: payload) := List.drop_left
  have hdata : (Base32.decode (Base32.encode
      (kind.version :: payload ++ Checksum.bytesOf (kind.version :: payload)))).mapError
        AddressError.badCharacter = .ok _ :=
    congrArg (Except.mapError _) (Base32.decode_encode _)
  -- the two last bytes are the checksum of those before them, and the first says the kind
  unfold decode encode
  dsimp only
  rw [String.toList_ofList, hdata]
  simp only [bind, Except.bind, pure, Except.pure, ne_eq, not_true_eq_false,
    if_false, hlength, if_neg hlong, Nat.add_sub_cancel, htake, hdrop, Kind.ofVersion?_version]
  rfl

/-- A key is read back from its strkey. -/
theorem decodeKey_encode {kind : Kind} (hkind : kind.allowsLength 32 = true) (key : Bytes32) :
    decodeKey kind (encode kind key.toList) = .ok key := by
  have hread := decode_encode kind key.toList
  rw [key.length_toList, if_pos hkind] at hread
  unfold decodeKey decodeAs
  rw [hread]
  simp only [bind, Except.bind, if_pos, pure, Except.pure, FixedBytes.ofList?_toList]

end LedgerTx.Strkey
