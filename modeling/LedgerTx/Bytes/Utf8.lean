namespace LedgerTx.Utf8

/-! # UTF-8

Text as bytes, strict reading with the place of the first fault, and lossy reading. -/

/-- Why bytes are not UTF-8; the index counts bytes. -/
inductive Fault where
  /-- A sequence of `width` bytes can not be completed to a character. -/
  | malformed (width index : Nat)
  /-- The input ends inside a character. -/
  | truncated (index : Nat)
deriving DecidableEq

/-- What a fault is called in messages. -/
def Fault.message : Fault → String
  | .malformed width index => s!"invalid utf-8 sequence of {width} bytes from index {index}"
  | .truncated index => s!"incomplete utf-8 byte sequence from index {index}"

/-- What stands at the front of a byte string. -/
inductive Piece where
  /-- A whole character of `width` bytes. -/
  | scalar (char : Char) (width : Nat)
  /-- The longest start of a character, `width` bytes, that the next byte does not continue. -/
  | malformed (width : Nat)
  /-- The start of a character that the input's end cuts off. -/
  | truncated

/-- How many bytes follow a lead byte, and the range that the first of them must be in. -/
def trailRange? (lead : UInt8) : Option (Nat × UInt8 × UInt8) :=
  -- the ranges leave out overlong forms, surrogates and numbers above 0x10FFFF
  if 0xC2 ≤ lead ∧ lead ≤ 0xDF then some (1, 0x80, 0xBF)
  else if lead = 0xE0 then some (2, 0xA0, 0xBF)
  else if lead = 0xED then some (2, 0x80, 0x9F)
  else if 0xE1 ≤ lead ∧ lead ≤ 0xEF then some (2, 0x80, 0xBF)
  else if lead = 0xF0 then some (3, 0x90, 0xBF)
  else if 0xF1 ≤ lead ∧ lead ≤ 0xF3 then some (3, 0x80, 0xBF)
  else if lead = 0xF4 then some (3, 0x80, 0x8F)
  else none

/-- Reads `missing` more bytes of a character, the first of which must be in the given range;
`width` bytes are read already and carry the bits `acc`. -/
def continuePiece : (missing : Nat) → (low high : UInt8) → (width acc : Nat) → List UInt8 → Piece
  | 0, _, _, width, acc, _ => .scalar (Char.ofNat acc) width
  | _ + 1, _, _, _, _, [] => .truncated
  | missing + 1, low, high, width, acc, b :: rest =>
    if low ≤ b ∧ b ≤ high then
      continuePiece missing 0x80 0xBF (width + 1) (acc * 64 + b.toNat % 64) rest
    else
      .malformed width

/-- The piece that begins with the byte `lead`. -/
def piece (lead : UInt8) (rest : List UInt8) : Piece :=
  if lead < 0x80 then
    .scalar (Char.ofNat lead.toNat) 1
  else
    match trailRange? lead with
    | none => .malformed 1
    | some (missing, low, high) =>
      -- the lead byte holds as many bits as its length marker leaves
      continuePiece missing low high 1 (lead.toNat % (64 >>> missing)) rest

/-- The first fault at or after `index`, where `bytes` begins. -/
def firstFault? (index : Nat) : List UInt8 → Option Fault
  | [] => none
  | b :: rest =>
    match piece b rest with
    | .scalar _ width => firstFault? (index + width) (rest.drop (width - 1))
    | .malformed width => some (.malformed width index)
    | .truncated => some (.truncated index)
termination_by bytes => bytes.length
decreasing_by simp only [List.length_drop, List.length_cons]; omega

/-- The bytes of a text. -/
def encode (text : String) : List UInt8 :=
  text.toByteArray.data.toList

/-- The text that the bytes spell. -/
def decode (bytes : List UInt8) : Except Fault String :=
  match String.fromUTF8? ⟨bytes.toArray⟩ with
  | some text => .ok text
  | none => .error ((firstFault? 0 bytes).getD (.truncated 0))

/-- The text that the bytes spell, with U+FFFD for each piece that is no character. -/
def decodeLossy : List UInt8 → List Char
  | [] => []
  | b :: rest =>
    match piece b rest with
    | .scalar char width => char :: decodeLossy (rest.drop (width - 1))
    | .malformed width => '\uFFFD' :: decodeLossy (rest.drop (width - 1))
    | .truncated => ['\uFFFD']
termination_by bytes => bytes.length
decreasing_by all_goals simp only [List.length_drop, List.length_cons]; omega

/-- The bytes of a text read back as that text. -/
@[simp]
theorem decode_encode (text : String) : decode (encode text) = .ok text := by
  simp [decode, encode, String.fromUTF8?, text.isValidUTF8, String.fromUTF8]

/-- Only the bytes of a text are read as that text. -/
theorem encode_of_decode {bytes : List UInt8} {text : String} (h : decode bytes = .ok text) :
    encode text = bytes := by
  unfold decode at h
  split at h
  next t ht =>
    cases h
    rw [String.fromUTF8?] at ht
    split at ht
    · cases ht; simp [encode, String.fromUTF8]
    · cases ht
  next => cases h

end LedgerTx.Utf8
