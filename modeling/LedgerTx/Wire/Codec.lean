import LedgerTx.Bijection
import LedgerTx.Bytes.BigEndian
import LedgerTx.Enumeration
import LedgerTx.Wire.Decoder

namespace LedgerTx

/-! # Wire codecs

A codec is how values of one type stand on the wire: a sequence of four-byte groups, integers big-endian,
counted data filled up with zeros, a flag before an optional value, a number before the payload of a
union.  Codecs of compound types are put together from those of their parts, so that each law of codecs
is proved once for every way of putting them together.

Encoding is total and checks no limit.  `fits` says which values keep the limits that decoding sets. -/

/-- How strictly bytes are read. -/
structure Rules where
  /-- Refuses ledger keys of unknown kinds, which are otherwise read as the last kind known. -/
  knownKindsOnly : Bool
  /-- Holds counted fields to their declared limits, not only to what a count can say. -/
  limited : Bool

namespace Rules

/-- How envelopes are read: declared limits hold, and ledger keys of later kinds are let through. -/
def standard : Rules := ⟨false, true⟩

/-- Declared limits hold, and every kind must be known. -/
def strict : Rules := ⟨true, true⟩

/-- Every kind must be known, and a counted field may be as long as its count can say. -/
def unlimited : Rules := ⟨true, false⟩

/-- The largest number that a count of four bytes can say. -/
def maxCount : Nat := UInt32.size - 1

/-- The length that a field with a declared maximum may have. -/
def limit (rules : Rules) (max : Nat) : Nat :=
  if rules.limited then min max maxCount else maxCount

end Rules

/-- How values of a type stand on the wire. -/
structure Codec (α : Type) where
  encode : α → List UInt8
  decode : Rules → Decoder α
  /-- Whether every count in the value is within its limit. -/
  fits : Rules → α → Bool

namespace Codec

variable {α β κ : Type}

/-- Reads a value that takes up the whole input, by the standard rules. -/
def decodeWhole (codec : Codec α) (bytes : List UInt8) : Except DecodeError α :=
  Decoder.whole (codec.decode .standard) bytes

/-! ## Words -/

/-- An unsigned number of 32 bits. -/
def uint32 : Codec UInt32 where
  encode v := BigEndian.ofNat 4 v.toNat
  decode _ bytes := do
    let (word, bytes) ← Decoder.take 4 bytes
    return (UInt32.ofNat (BigEndian.toNat word), bytes)
  fits _ _ := true

/-- An unsigned number of 64 bits. -/
def uint64 : Codec UInt64 where
  encode v := BigEndian.ofNat 8 v.toNat
  decode _ bytes := do
    let (word, bytes) ← Decoder.take 8 bytes
    return (UInt64.ofNat (BigEndian.toNat word), bytes)
  fits _ _ := true

/-- Values of one type on the wire as those of another. -/
def map (view : Bijection α β) (codec : Codec β) : Codec α where
  encode a := codec.encode (view.forth a)
  decode rules bytes := do
    let (b, bytes) ← codec.decode rules bytes
    return (view.back b, bytes)
  fits rules a := codec.fits rules (view.forth a)

/-- A signed number of 32 bits, in two's complement. -/
def int32 : Codec Int32 :=
  uint32.map ⟨Int32.toUInt32, UInt32.toInt32, fun _ => rfl, fun _ => rfl⟩

/-- A signed number of 64 bits, in two's complement. -/
def int64 : Codec Int64 :=
  uint64.map ⟨Int64.toUInt64, UInt64.toInt64, fun _ => rfl, fun _ => rfl⟩

/-- A word that must be 0 or 1; any other is refused as `fault` says. -/
def flag (fault : UInt32 → DecodeError) : Codec Bool where
  encode b := uint32.encode (if b then 1 else 0)
  decode rules bytes := do
    let (word, bytes) ← uint32.decode rules bytes
    if word = 0 then return (false, bytes)
    else if word = 1 then return (true, bytes)
    else Decoder.fail (fault word) bytes
  fits _ _ := true

/-- A truth value. -/
def bool : Codec Bool :=
  flag .invalidBoolean

/-! ## Bytes and text -/

/-- A byte string of a fixed size, which is a multiple of four. -/
def fixed (n : Nat) : Codec (FixedBytes n) where
  encode v := v.toList
  decode _ := Decoder.fixed n
  fits _ _ := true

/-- How many zeros fill `length` bytes up to a multiple of four. -/
def padding (length : Nat) : Nat :=
  (4 - length % 4) % 4

/-- A count, which must be within the limit of what is counted. -/
def count (what : String) (max : Nat) : Codec Nat where
  -- from `2 ^ 32` on the number wraps around; `fits` leaves such counts out
  encode n := uint32.encode (UInt32.ofNat n)
  decode rules bytes := do
    let (word, bytes) ← uint32.decode rules bytes
    if word.toNat ≤ rules.limit max then return (word.toNat, bytes)
    else Decoder.fail (.lengthExceeded what max word.toNat) bytes
  fits rules n := n ≤ rules.limit max

/-- A byte string of at most `max` bytes: a count, the bytes, zeros up to a multiple of four. -/
def bytes (max : Nat) : Codec (List UInt8) where
  encode v := (count "opaque" max).encode v.length ++ v ++ List.replicate (padding v.length) 0
  decode rules bytes := do
    let (length, bytes) ← (count "opaque" max).decode rules bytes
    let (v, bytes) ← Decoder.take length bytes
    let (zeros, bytes) ← Decoder.take (padding length) bytes
    -- padding is checked, not skipped
    if zeros.all (· == 0) then return (v, bytes) else Decoder.fail .nonZeroPadding bytes
  fits rules v := (count "opaque" max).fits rules v.length

/-- A text of at most `max` bytes in UTF-8. -/
def string (max : Nat) : Codec String where
  encode s := (bytes max).encode (Utf8.encode s)
  decode rules input := do
    let (v, rest) ← (bytes max).decode rules input
    match Utf8.decode v with
    | .ok s => return (s, rest)
    | .error fault => Decoder.fail (.invalidUtf8 fault) rest
  fits rules s := (bytes max).fits rules (Utf8.encode s)

/-! ## Compound types -/

/-- Nothing. -/
def unit : Codec Unit where
  encode _ := []
  decode _ bytes := .ok ((), bytes)
  fits _ _ := true

/-- One value after another. -/
def pair (first : Codec α) (second : Codec β) : Codec (α × β) where
  encode v := first.encode v.1 ++ second.encode v.2
  decode rules bytes := do
    let (a, bytes) ← first.decode rules bytes
    let (b, bytes) ← second.decode rules bytes
    return ((a, b), bytes)
  fits rules v := first.fits rules v.1 && second.fits rules v.2

/-- A tag and then a payload of the type that the tag says. -/
def sigma {β : κ → Type} (tag : Codec κ) (payload : (k : κ) → Codec (β k)) : Codec (Sigma β) where
  encode v := tag.encode v.1 ++ (payload v.1).encode v.2
  decode rules bytes := do
    let (k, bytes) ← tag.decode rules bytes
    let (b, bytes) ← (payload k).decode rules bytes
    return (⟨k, b⟩, bytes)
  fits rules v := tag.fits rules v.1 && (payload v.1).fits rules v.2

/-- A constant of a closed set, by its number. -/
def constant (κ : Type) [Enumeration κ] : Codec κ where
  encode k := int32.encode (Enumeration.number k)
  decode rules bytes := do
    let (n, bytes) ← int32.decode rules bytes
    match Enumeration.ofNumber? n with
    | some k => return (k, bytes)
    | none => Decoder.fail (.unknownDiscriminant (Enumeration.title κ) n) bytes
  fits _ _ := true

/-- A constant of a set that later kinds may join: by the standard rules, every unknown number is read
as `last`, and other rules refuse it under the name `title`. -/
def openConstant {κ : Type} [Enumeration κ] (title : String) (last : κ) : Codec κ where
  encode k := int32.encode (Enumeration.number k)
  decode rules bytes := do
    let (n, bytes) ← int32.decode rules bytes
    match Enumeration.ofNumber? n with
    | some k => return (k, bytes)
    | none =>
      -- the number itself is lost: what is written again is that of `last`
      if rules.knownKindsOnly then Decoder.fail (.unknownDiscriminant title n) bytes
      else return (last, bytes)
  fits _ _ := true

/-- Those constants of a closed set that a union has arms for; `arm?` names the arm of a constant. -/
def arms {κ τ : Type} [Enumeration κ] (title : String) (constantOf : τ → κ) (arm? : κ → Option τ) :
    Codec τ where
  encode t := (constant κ).encode (constantOf t)
  decode rules bytes := do
    let (k, bytes) ← (constant κ).decode rules bytes
    match arm? k with
    | some t => return (t, bytes)
    | none => Decoder.fail (.unknownDiscriminant title (Enumeration.number k)) bytes
  fits _ _ := true

/-- At most `max` values, after their count. -/
def list (max : Nat) (item : Codec α) : Codec (List α) where
  encode v := (count "array" max).encode v.length ++ v.flatMap item.encode
  decode rules bytes := do
    let (n, bytes) ← (count "array" max).decode rules bytes
    -- reading stops at the first element that is missing, whatever the count says
    Decoder.repeated (item.decode rules) n bytes
  fits rules v := (count "array" max).fits rules v.length && v.all (item.fits rules)

/-- A flag that says whether a value follows, and the value. -/
def option (item : Codec α) : Codec (Option α) where
  encode
    | none => (flag .invalidPresence).encode false
    | some a => (flag .invalidPresence).encode true ++ item.encode a
  decode rules bytes := do
    let (present, bytes) ← (flag .invalidPresence).decode rules bytes
    if present then
      let (a, bytes) ← item.decode rules bytes
      return (some a, bytes)
    else
      return (none, bytes)
  fits rules v := v.all (item.fits rules)

/-! ## Parts of recursive types -/

/-- The codec of no values. -/
def empty : Codec α where
  encode _ := []
  decode _ bytes := Decoder.fail (.tooShort 4 bytes.length) bytes
  fits _ _ := false

/-- A codec that is put together when it is first used. -/
def delay (codec : Unit → Codec α) : Codec α where
  encode v := (codec ()).encode v
  decode rules bytes := (codec ()).decode rules bytes
  fits rules v := (codec ()).fits rules v

end Codec

end LedgerTx
