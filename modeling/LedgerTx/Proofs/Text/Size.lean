import LedgerTx.Bytes.Hex
import LedgerTx.Proofs.Text.Quoted
import LedgerTx.Proofs.Wire.Decoder

namespace LedgerTx

/-! # Sizes of texts

What a token stands for takes no more bytes than the token. -/

namespace Utf8

/-- How many bytes a text takes. -/
def size (text : List Char) : Nat :=
  (encode (String.ofList text)).length

theorem size_nil : size [] = 0 := by
  unfold size
  rw [encode_ofList]
  rfl

theorem size_cons (c : Char) (text : List Char) : size (c :: text) = c.utf8Size + size text := by
  unfold size
  rw [encode_ofList, encode_ofList, List.flatMap_cons, List.length_append, String.length_utf8EncodeChar]

/-- Leaving characters out makes no text longer. -/
theorem size_le_of_sublist {text whole : List Char} (h : text.Sublist whole) : size text ≤ size whole := by
  induction h with
  | slnil => exact Nat.le_refl _
  | cons c _ ih =>
    rw [size_cons]
    omega
  | cons_cons c _ ih =>
    rw [size_cons, size_cons]
    omega

end Utf8

namespace Quoted

open Utf8

/-- A letter after a backslash stands for a character that is no wider than both. -/
theorem utf8Size_le_of_simpleEscape {letter c : Char} (h : simpleEscape? letter = some c) :
    c.utf8Size ≤ 1 + letter.utf8Size := by
  have hpos := letter.utf8Size_pos
  unfold simpleEscape? at h
  split at h
  · cases h
    omega
  · -- the other letters stand for control characters, of one byte each
    have hone : c.utf8Size = 1 := by
      repeat
        split at h
        · cases h
          rfl
      cases h
    omega

/-- An escape with four digits takes six bytes at least. -/
theorem size_unit_le (a b c d : Char) (rest : List Char) :
    6 + size rest ≤ size ('\\' :: 'u' :: a :: b :: c :: d :: rest) := by
  have hpos := Char.utf8Size_pos
  have hbackslash := hpos '\\'
  have hletter := hpos 'u'
  have ha := hpos a
  have hb := hpos b
  have hc := hpos c
  have hd := hpos d
  simp only [size_cons]
  omega

/-- Every escape is as long as the character that it stands for. -/
theorem size_le_of_decodeBody {body text : List Char} (h : decodeBody body = some text) :
    size text ≤ size body := by
  have hwide := Char.utf8Size_le_four
  -- one case for each way of reading on
  fun_induction decodeBody body generalizing text with
  | case1 | case3 | case7 => cases h
  | case2 rest =>
    cases h
    rw [size_nil]
    omega
  | case4 a b c d e f g k rest ihpair ihsecond =>
    have hfirst := size_unit_le a b c d ('\\' :: 'u' :: e :: f :: g :: k :: rest)
    have hsecond := size_unit_le e f g k rest
    obtain ⟨high, -, h⟩ := Option.bind_eq_some_iff.mp h
    split at h
    · -- two escapes for one character
      obtain ⟨low, -, h⟩ := Option.bind_eq_some_iff.mp h
      split at h
      · obtain ⟨tail, htail, h⟩ := Option.bind_eq_some_iff.mp h
        cases h
        have hrest := ihpair htail
        have hchar := hwide (Char.ofNat (0x10000 + (high - 0xD800) * 0x400 + (low - 0xDC00)))
        rw [size_cons]
        omega
      · cases h
    · split at h
      · cases h
      · obtain ⟨tail, htail, h⟩ := Option.bind_eq_some_iff.mp h
        cases h
        have hrest := ihsecond htail
        have hchar := hwide (Char.ofNat high)
        rw [size_cons]
        omega
  | case5 a b c d rest hnext ih =>
    have hescape := size_unit_le a b c d rest
    obtain ⟨code, -, h⟩ := Option.bind_eq_some_iff.mp h
    split at h
    · cases h
    · obtain ⟨tail, htail, h⟩ := Option.bind_eq_some_iff.mp h
      cases h
      have hrest := ih htail
      have hchar := hwide (Char.ofNat code)
      rw [size_cons]
      omega
  | case6 letter rest hpair hunit ih =>
    obtain ⟨c, hc, h⟩ := Option.bind_eq_some_iff.mp h
    obtain ⟨tail, htail, h⟩ := Option.bind_eq_some_iff.mp h
    cases h
    have hrest := ih htail
    have hchar := utf8Size_le_of_simpleEscape hc
    have hbackslash := Char.utf8Size_pos '\\'
    rw [size_cons, size_cons, size_cons]
    omega
  | case8 c rest hquote hpair hunit hletter hordinary ih =>
    obtain ⟨tail, htail, h⟩ := Option.bind_eq_some_iff.mp h
    cases h
    have hrest := ih htail
    rw [size_cons, size_cons]
    omega

/-- What a quoted text stands for takes no more bytes than it. -/
theorem size_le_of_decode {token text : List Char} (h : decode token = some text) :
    size text ≤ size token := by
  unfold decode at h
  split at h
  · rename_i body
    have hbody := size_le_of_decodeBody h
    rw [size_cons]
    omega
  · cases h

end Quoted

namespace Hex

open Utf8

/-- Two digits make a byte. -/
theorem length_le_of_decodePairs {digits bytes : List UInt8} {index : Nat}
    (h : decodePairs index digits = .ok bytes) : bytes.length ≤ digits.length := by
  fun_induction decodePairs index digits generalizing bytes with
  | case1 index high low rest ih =>
    obtain ⟨first, -, h⟩ := Except.bind_eq_ok.mp h
    obtain ⟨second, -, h⟩ := Except.bind_eq_ok.mp h
    obtain ⟨others, hothers, h⟩ := Except.bind_eq_ok.mp h
    cases h
    have hrest := ih hothers
    simp only [List.length_cons]
    omega
  | case2 =>
    cases h
    exact Nat.zero_le _

/-- What digits stand for takes no more bytes than they. -/
theorem length_le_of_decode {text : List Char} {bytes : List UInt8} (h : decode text = .ok bytes) :
    bytes.length ≤ size text := by
  unfold decode at h
  dsimp only at h
  split at h
  · cases h
  · exact length_le_of_decodePairs h

end Hex

end LedgerTx
