import LedgerTx.Amount
import LedgerTx.Calendar
import LedgerTx.Layout.Basic

namespace LedgerTx

/-! # Layouts of single values

Numbers stand in listings in decimal, bytes in hexadecimal, text in double quotes. -/

/-- A comment in brackets after a token. -/
def withComment (token comment : List Char) : List Char :=
  token ++ ' ' :: '(' :: comment ++ [')']

namespace Form

/-- Bytes in hexadecimal; two double quotes stand for none. -/
def hex : Form (List UInt8) :=
  token (fun bytes => if bytes.isEmpty then ['"', '"'] else Hex.encode bytes) fun token =>
    if token = ['"', '"'] then .ok [] else (Hex.decode token).mapError .notHex

/-- Exactly `n` bytes in hexadecimal. -/
def fixedHex (n : Nat) : Form (FixedBytes n) :=
  token (fun bytes => if bytes.toList.isEmpty then ['"', '"'] else Hex.encode bytes.toList)
    fun token => do
      let bytes ← if token = ['"', '"'] then .ok [] else (Hex.decode token).mapError .notHex
      match FixedBytes.ofList? bytes with
      | some fixed => return fixed
      | none => throw (.wrongSize n bytes.length)

/-- Reads a text: a token in double quotes, or a bare one that only a comment may follow. -/
def parseText (token after : List Char) : Except LineError String :=
  if token.head? = some '"' then
    match Quoted.decode token with
    | some text => .ok (String.ofList text)
    | none => .error .notString
  else
    match Blank.trimLeft after with
    | [] | '(' :: _ => .ok (String.ofList token)
    | _ => .error .trailingText

/-- A text in double quotes. -/
def text : Form String :=
  line (fun s => .ok (Quoted.encode s.toList)) parseText

/-- Whether a text is a plain identifier: letters, digits and underscores, at least one. -/
def isPlain (text : List Char) : Bool :=
  !text.isEmpty && text.all fun c => c.isAlphanum || c == '_'

/-- A symbol: bare when it is a plain identifier, else in double quotes. -/
def symbol : Form String :=
  line (fun s => .ok (if isPlain s.toList then s.toList else Quoted.encode s.toList)) parseText

end Form

namespace Layout

/-- The largest number of elements that a count can say; the limit of fields without one. -/
def unbounded : Nat := Rules.maxCount

/-- An unsigned number of 32 bits. -/
def uint32 : Layout UInt32 :=
  ⟨.uint32, .number (fun v => Decimal.ofNat v.toNat) Decimal.uint32?⟩

/-- An unsigned number of 64 bits. -/
def uint64 : Layout UInt64 :=
  ⟨.uint64, .number (fun v => Decimal.ofNat v.toNat) Decimal.uint64?⟩

/-- A signed number of 32 bits. -/
def int32 : Layout Int32 :=
  ⟨.int32, .number (fun v => Decimal.ofInt v.toInt) Decimal.int32?⟩

/-- A signed number of 64 bits. -/
def int64 : Layout Int64 :=
  ⟨.int64, .number (fun v => Decimal.ofInt v.toInt) Decimal.int64?⟩

/-- A truth value. -/
def bool : Layout Bool :=
  ⟨.bool, .bool⟩

/-- An amount of stroops, with the amount in units as a comment. -/
def amount : Layout Int64 :=
  ⟨.int64, .number (fun v => withComment (Decimal.ofInt v.toInt) (Amount.comment v)) Decimal.int64?⟩

/-- Seconds since 1970, with the point in time as a comment. -/
def secondsText (digits : List Char) (seconds : Nat) : List Char :=
  match Calendar.timestamp? seconds with
  | some time => withComment digits time
  | none => digits

/-- A point in time. -/
def time : Layout UInt64 :=
  ⟨.uint64, .number (fun v => secondsText (Decimal.ofNat v.toNat) v.toNat) Decimal.uint64?⟩

/-- A point in time as a signed number, with a comment unless it is negative. -/
def signedTime : Layout Int64 :=
  ⟨.int64, .number (fun v => secondsText (Decimal.ofInt v.toInt) v.toInt.toNat) Decimal.int64?⟩

/-- Exactly `n` bytes. -/
def fixed (n : Nat) : Layout (FixedBytes n) :=
  ⟨.fixed n, .fixedHex n⟩

/-- At most `max` bytes. -/
def bytes (max : Nat) : Layout (List UInt8) :=
  ⟨.bytes max, .hex⟩

/-- A text of at most `max` bytes. -/
def text (max : Nat) : Layout String :=
  ⟨.string max, .text⟩

/-- A symbol of at most `max` bytes. -/
def symbol (max : Nat) : Layout String :=
  ⟨.string max, .symbol⟩

/-- A version number, of which the given constants exist. -/
def version (κ : Type) [Enumeration κ] : Layout κ :=
  ⟨.constant κ, .line (fun k => .ok (Decimal.ofInt (Enumeration.number k).toInt)) fun token _ =>
    match Decimal.int32? token with
    | none => .error (.notNumber (String.ofList token))
    | some n =>
      match Enumeration.ofNumber? n with
      | some k => .ok k
      | none => .error (.unknownVersion n)⟩

end Layout

end LedgerTx
