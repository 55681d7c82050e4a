import LedgerTx.Layout.Basic
import LedgerTx.Proofs.Listing.RoundTrip

namespace LedgerTx

open Listing

/-! # Values of one line

What a value of one line must keep, so that whole layouts keep it.  Plain values have sound lines; of
these, exactly the good ones are read again, and the others are refused.  Whatever is read from the line
of a value that is not plain, its bytes are not those of the value. -/

/-- The bytes of `b` are never read as `a`, whatever follows them. -/
def Codec.Diverges {α : Type} (codec : Codec α) (b a : α) : Prop :=
  ∀ tail rest, codec.decode .standard (codec.encode b ++ tail) ≠ .ok (a, rest)

/-- The law of values of one line. -/
structure LineLaw {α : Type} (codec : Codec α) (form : Form α) (plain good : α → Prop) : Prop where
  exists_parse : ∃ print parse, form = .line print parse
    ∧ (∀ a, codec.fits .standard a = true → plain a → PrintParse print parse (good a) a)
    ∧ ∀ a value token after b, codec.fits .standard a = true → ¬plain a → print a = .ok value →
      parse token after = .ok b → codec.Diverges b a

namespace LineLaw

variable {α : Type} {codec : Codec α} {print : α → Except LineError (List Char)}
  {parse : List Char → List Char → Except LineError α} {good : α → Prop}

/-- The line stands at the path itself. -/
theorem path_eq_of_write {form : Form α} {plain : α → Prop} (h : LineLaw codec form plain good)
    {path : Path} {a : α} {lines : List Line} (hwrite : form.write path a = .ok lines) :
    ∀ line ∈ lines, line.path = path := by
  rcases h.exists_parse with ⟨print, parse, rfl, -⟩
  obtain ⟨value, -, rfl⟩ := write_line_eq_ok.mp hwrite
  intro line hline
  rw [List.mem_singleton.mp hline]

/-- Where all values are plain. -/
theorem of_printParse
    (h : ∀ a, codec.fits .standard a = true → PrintParse print parse (good a) a) :
    LineLaw codec (.line print parse) (fun _ => True) good where
  exists_parse := by
    refine ⟨print, parse, rfl, fun a hfits _ => h a hfits, ?_⟩
    intro a value token after b _ hplain
    exact absurd trivial hplain

/-- A token that is read whatever follows it. -/
theorem of_token {print : α → List Char} {parse : List Char → Except LineError α}
    (hsound : ∀ a, Sound (print a))
    (hparse : ∀ a, codec.fits .standard a = true →
      Settles (good a) (parse (splitToken (print a)).1) a) :
    LineLaw codec (.token print parse) (fun _ => True) good :=
  of_printParse fun a hfits => ⟨print a, rfl, hsound a, fun _ _ => hparse a hfits⟩

/-- A word that is read back. -/
theorem of_word {print : α → List Char} {parse : List Char → Except LineError α}
    (hword : ∀ a, Word (print a))
    (hparse : ∀ a, codec.fits .standard a = true → Settles (good a) (parse (print a)) a) :
    LineLaw codec (.token print parse) (fun _ => True) good := by
  refine of_token (fun a => (hword a).sound) fun a hfits => ?_
  rw [(hword a).splitToken_eq]
  exact hparse a hfits

/-- A number that is read back. -/
theorem of_number {print : α → List Char} {parse? : List Char → Option α}
    (hsound : ∀ a, Sound (print a)) (hparse : ∀ a, parse? (splitToken (print a)).1 = some a) :
    LineLaw codec (.number print parse?) (fun _ => True) (fun _ => True) := by
  refine of_token hsound fun a _ => .of_eq ?_
  rw [hparse]

/-- A name that is read back. -/
theorem of_named {print : α → String} {parse? : String → Option α}
    (hword : ∀ a, Word (print a).toList) (hparse : ∀ a, parse? (print a) = some a) :
    LineLaw codec (.named print parse?) (fun _ => True) (fun _ => True) := by
  refine of_word hword fun a _ => .of_eq ?_
  rw [String.ofList_toList, hparse]

/-- A text of its own that is read back. -/
theorem of_parsed {print : α → String} {parse : String → Except ValueError α}
    (hword : ∀ a, Word (print a).toList)
    (hparse : ∀ a, codec.fits .standard a = true → Settles (good a) (parse (print a)) a) :
    LineLaw codec (.parsed print parse) (fun _ => True) good := by
  refine of_word hword fun a hfits => ?_
  rw [String.ofList_toList]
  constructor
  · intro hgood
    rw [(hparse a hfits).eq_ok hgood]
    rfl
  · intro hbad
    rcases (hparse a hfits).eq_error hbad with ⟨e, he⟩
    rw [he]
    exact ⟨_, rfl⟩

end LineLaw

end LedgerTx
