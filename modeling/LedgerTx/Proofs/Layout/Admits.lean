import LedgerTx.Proofs.Layout.Either
import LedgerTx.Proofs.Layout.Levels
import LedgerTx.Proofs.Listing.Short

namespace LedgerTx

open Listing

/-! # What a listing can give

A listing need not have been written: numbers may have leading zeros, bytes large digits, names quotes.
`Layout.Admits` says that whatever is read from a listing is plain and good all the same, so that it could
have been written, and that every count in it can be said.  Each way of putting layouts together keeps the
law. -/

/-- What holds of a value holds of it after it was brought back and forth. -/
theorem Bijection.forth_back_of {α β : Type} (view : Bijection α β) {P : β → Prop} {b : β} (h : P b) :
    P (view.forth (view.back b)) := by
  rwa [view.forth_back]

/-- A value that was read from some entries, and the entries after it. -/
structure Codec.Admitted {α : Type} (codec : Codec α) (plain good : α → Prop) (entries : List Entry)
    (v : α) (rest : List Entry) : Prop where
  rest_suffix : rest <:+ entries
  fits : codec.fits .loosest v = true
  plain : plain v
  good : good v

namespace Codec.Admitted

variable {α : Type} {codec : Codec α} {plain good : α → Prop} {entries rest : List Entry} {v : α}

/-- What is left after a value is short if all is. -/
theorem short (h : codec.Admitted plain good entries v rest) (hshort : ∀ entry ∈ entries, entry.Short) :
    ∀ entry ∈ rest, entry.Short :=
  fun entry hentry => hshort entry (h.rest_suffix.subset hentry)

end Codec.Admitted

namespace Layout

variable {α β γ κ : Type}

/-- Whatever is read from short entries is plain and good, and every count in it can be said. -/
def Admits (layout : Layout α) (plain good : α → Prop) : Prop :=
  ∀ ⦃path : Path⦄ ⦃entries : List Entry⦄ ⦃v : α⦄ ⦃rest : List Entry⦄, (∀ entry ∈ entries, entry.Short) →
    layout.form.read path entries = .ok (v, rest) → layout.wire.Admitted plain good entries v rest

namespace Admits

variable {layout first : Layout α} {second : Layout β} {plain good : α → Prop} {plain' good' : β → Prop}

/-! ## Values of one line -/

/-- Where what is parsed from a token is plain, good and within what counts can say. -/
theorem line {codec : Codec α} {print : α → Except LineError (List Char)}
    {parse : List Char → List Char → Except LineError α}
    (h : ∀ {token after v}, Utf8.size token ≤ Rules.maxCount → parse token after = .ok v →
      codec.fits .loosest v = true ∧ plain v ∧ good v) :
    (Layout.mk codec (.line print parse)).Admits plain good := by
  intro path entries v rest hshort hread
  obtain ⟨entry, rfl, -, -, hparse⟩ := read_line_eq_ok.mp hread
  -- the token is the front of the value on the line
  have htoken : Utf8.size (splitToken entry.value).1 ≤ Rules.maxCount :=
    Nat.le_trans (Utf8.size_le_of_sublist (splitToken_sublist entry.value))
      (hshort entry (List.mem_cons_self ..))
  obtain ⟨hfits, hplain, hgood⟩ := h htoken hparse
  exact ⟨List.suffix_cons _ _, hfits, hplain, hgood⟩

/-- Values without counts of which all are plain and good. -/
theorem of_fits {codec : Codec α} {form : Form α}
    (hline : LineLaw codec form (fun _ => True) (fun _ => True))
    (h : ∀ v, codec.fits .loosest v = true) :
    (Layout.mk codec form).Admits (fun _ => True) (fun _ => True) := by
  obtain ⟨print, parse, rfl, -⟩ := hline.exists_parse
  exact line fun _ _ => ⟨h _, trivial, trivial⟩

/-- Bytes in hexadecimal digits, of which each takes two. -/
theorem bytes (max : Nat) : (Layout.bytes max).Admits (fun _ => True) (fun _ => True) := by
  unfold Layout.bytes Form.hex Form.token
  refine line fun {token after v} hsize hparse => ?_
  have hlength : v.length ≤ Rules.maxCount := by
    dsimp only at hparse
    split at hparse
    · cases hparse
      exact Nat.zero_le _
    · have hdecode := Hex.length_le_of_decode (Except.mapError_eq_ok.mp hparse)
      exact Nat.le_trans hdecode hsize
  exact ⟨decide_eq_true hlength, trivial, trivial⟩

/-- A text takes no more bytes than the token that it was read from. -/
theorem size_le_of_parseText {token after : List Char} {text : String}
    (h : Form.parseText token after = .ok text) : (Utf8.encode text).length ≤ Utf8.size token := by
  unfold Form.parseText at h
  split at h
  · split at h
    · rename_i chars hdecode
      cases h
      exact Quoted.size_le_of_decode hdecode
    · cases h
  · split at h
    · cases h
      exact Nat.le_refl _
    · cases h
      exact Nat.le_refl _
    · cases h

/-- Texts, however they are written. -/
theorem string {max : Nat} {print : String → Except LineError (List Char)} :
    (Layout.mk (.string max) (.line print Form.parseText)).Admits (fun _ => True) (fun _ => True) := by
  refine line fun hsize hparse => ?_
  have hlength := Nat.le_trans (size_le_of_parseText hparse) hsize
  exact ⟨decide_eq_true hlength, trivial, trivial⟩

/-- A count that is read is one that four bytes can say. -/
theorem count (max : Nat) :
    (Layout.mk (.count "array" max) (.count max)).Admits (fun _ => True) (fun _ => True) := by
  unfold Form.count
  refine line fun {token after n} _ hparse => ?_
  have hcount : n ≤ Rules.maxCount := by
    split at hparse
    · cases hparse
    · rename_i word hword
      split at hparse
      · cases hparse
        exact Nat.le_pred_of_lt word.toNat_lt
      · cases hparse
  exact ⟨decide_eq_true hcount, trivial, trivial⟩

/-! ## Compound values -/

theorem under (h : layout.Admits plain good) (name : String) : (layout.under name).Admits plain good := by
  intro path entries v rest hshort hread
  exact h hshort hread

theorem delay {layout : Unit → Layout α} (h : (layout ()).Admits plain good) :
    (Layout.delay layout).Admits plain good := by
  intro path entries v rest hshort hread
  exact h hshort hread

theorem congr (h : layout.Admits plain good) {p g : α → Prop} (hp : ∀ v, p v ↔ plain v)
    (hg : ∀ v, g v ↔ good v) : layout.Admits p g := by
  intro path entries v rest hshort hread
  obtain ⟨hsuffix, hfits, hplain, hgood⟩ := h hshort hread
  exact ⟨hsuffix, hfits, (hp v).mpr hplain, (hg v).mpr hgood⟩

/-- The conditions on another form of a value are those on the value. -/
theorem map (h : second.Admits plain' good') (view : Bijection α β) :
    (second.map view).Admits (fun a => plain' (view.forth a)) (fun a => good' (view.forth a)) := by
  intro path entries a rest hshort hread
  obtain ⟨⟨b, mid⟩, hb, hread⟩ := Except.bind_eq_ok.mp hread
  cases hread
  obtain ⟨hsuffix, hfits, hplain, hgood⟩ := h hshort hb
  have hcounts : (second.map view).wire.fits .loosest (view.back b) = true :=
    (congrArg (second.wire.fits .loosest) (view.forth_back b)).trans hfits
  exact ⟨hsuffix, hcounts, view.forth_back_of hplain, view.forth_back_of hgood⟩

theorem unit : Layout.unit.Admits (fun _ => True) (fun _ => True) := by
  intro path entries v rest hshort hread
  cases hread
  exact ⟨List.suffix_refl _, rfl, trivial, trivial⟩

/-- Both parts are plain and good. -/
theorem pair (hfirst : first.Admits plain good) (hsecond : second.Admits plain' good') :
    (Layout.pair first second).Admits (fun v => plain v.1 ∧ plain' v.2)
      (fun v => good v.1 ∧ good' v.2) := by
  intro path entries v rest hshort hread
  obtain ⟨⟨a, mid⟩, ha, hread⟩ := Except.bind_eq_ok.mp hread
  obtain ⟨⟨b, after⟩, hb, hread⟩ := Except.bind_eq_ok.mp hread
  cases hread
  have hleft := hfirst hshort ha
  have hright := hsecond (hleft.short hshort) hb
  refine ⟨hright.rest_suffix.trans hleft.rest_suffix, ?_, ⟨hleft.plain, hright.plain⟩,
    ⟨hleft.good, hright.good⟩⟩
  exact Bool.and_eq_true_iff.mpr ⟨hleft.fits, hright.fits⟩

/-- What the tag says how to read is plain and good. -/
theorem sigma {π : κ → Type} {tag : Layout κ} {payload : (k : κ) → Layout (π k)}
    {plain good : (k : κ) → π k → Prop} (htag : tag.Admits (fun _ => True) (fun _ => True))
    (hpayload : ∀ k, (payload k).Admits (plain k) (good k)) :
    (Layout.sigma tag payload).Admits (fun v => plain v.1 v.2) (fun v => good v.1 v.2) := by
  intro path entries v rest hshort hread
  obtain ⟨⟨k, mid⟩, hk, hread⟩ := Except.bind_eq_ok.mp hread
  obtain ⟨⟨b, after⟩, hb, hread⟩ := Except.bind_eq_ok.mp hread
  cases hread
  have hleft := htag hshort hk
  have hright := hpayload k (hleft.short hshort) hb
  refine ⟨hright.rest_suffix.trans hleft.rest_suffix, ?_, hright.plain, hright.good⟩
  exact Bool.and_eq_true_iff.mpr ⟨hleft.fits, hright.fits⟩

/-- Items are admitted one after the other. -/
theorem items {item : Layout α} (h : item.Admits plain good) {path : Path} {index count : Nat}
    {entries rest : List Entry} {vs : List α} (hshort : ∀ entry ∈ entries, entry.Short)
    (hread : item.form.readItems path index count entries = .ok (vs, rest)) :
    rest <:+ entries ∧ (∀ v ∈ vs, item.wire.fits .loosest v = true) ∧ (∀ v ∈ vs, plain v)
      ∧ ∀ v ∈ vs, good v := by
  induction count generalizing index entries vs with
  | zero =>
    cases hread
    have hnone : ∀ {P : α → Prop}, ∀ v ∈ [], P v := fun v hv => absurd hv List.not_mem_nil
    exact ⟨List.suffix_refl _, hnone, hnone, hnone⟩
  | succ count ih =>
    obtain ⟨⟨v, mid⟩, hv, hread⟩ := Except.bind_eq_ok.mp hread
    obtain ⟨⟨others, after⟩, hothers, hread⟩ := Except.bind_eq_ok.mp hread
    cases hread
    have hfirst := h hshort hv
    obtain ⟨hsuffix, hfits, hplain, hgood⟩ := ih (hfirst.short hshort) hothers
    exact ⟨hsuffix.trans hfirst.rest_suffix, List.forall_mem_cons.mpr ⟨hfirst.fits, hfits⟩,
      List.forall_mem_cons.mpr ⟨hfirst.plain, hplain⟩, List.forall_mem_cons.mpr ⟨hfirst.good, hgood⟩⟩

/-- All elements are plain and good, and as many as a count can say. -/
theorem list {item : Layout α} (h : item.Admits plain good) (max : Nat) :
    (Layout.list max item).Admits (fun vs => ∀ v ∈ vs, plain v) (fun vs => ∀ v ∈ vs, good v) := by
  intro path entries vs rest hshort hread
  obtain ⟨⟨n, mid⟩, hn, hread⟩ := Except.bind_eq_ok.mp hread
  have hcount := (count max).under "len" hshort hn
  obtain ⟨hsuffix, hfits, hplain, hgood⟩ := h.items (hcount.short hshort) hread
  refine ⟨hsuffix.trans hcount.rest_suffix, ?_, hplain, hgood⟩
  -- as many items were read as were counted
  have hlength : vs.length = n := Forgets.length_of_readItems hread
  have hcounted : (Codec.count "array" max).fits .loosest vs.length = true := by
    rw [hlength]
    exact hcount.fits
  exact Bool.and_eq_true_iff.mpr ⟨hcounted, List.all_eq_true.mpr hfits⟩

/-- A value that is present is plain and good. -/
theorem option {item : Layout α} (h : item.Admits plain good) :
    (Layout.option item).Admits (fun o => ∀ v ∈ o, plain v) (fun o => ∀ v ∈ o, good v) := by
  intro path entries o rest hshort hread
  obtain ⟨⟨present, mid⟩, hpresent, hread⟩ := Except.bind_eq_ok.mp hread
  have hbool : (Layout.bool.under "_present").Admits (fun _ => True) (fun _ => True) :=
    under (of_fits .bool fun _ => rfl) "_present"
  have hflag := hbool hshort hpresent
  -- the mark says whether there is a value
  cases present with
  | false =>
    cases hread
    have hnone : ∀ {P : α → Prop}, ∀ v ∈ (none : Option α), P v := fun v hv => by cases hv
    exact ⟨hflag.rest_suffix, rfl, hnone, hnone⟩
  | true =>
    obtain ⟨⟨v, after⟩, hv, hread⟩ := Except.bind_eq_ok.mp hread
    cases hread
    have hvalue := h (hflag.short hshort) hv
    have hsome : ∀ {P : α → Prop}, P v → ∀ w ∈ some v, P w := by
      intro P hP w hw
      cases hw
      exact hP
    exact ⟨hvalue.rest_suffix.trans hflag.rest_suffix, hvalue.fits, hsome hvalue.plain,
      hsome hvalue.good⟩

/-- A value on one line or in parts is plain and good in its own way. -/
theorem either {codec : Codec γ} {view : Bijection γ (α ⊕ β)} {left : Layout α} {right : Layout β}
    {mark : String} (hwire : EitherWire codec view left.wire right.wire)
    (hleft : left.Admits plain good) (hright : right.Admits plain' good') :
    (Layout.mk codec (.map view (.either left.form mark right.form))).Admits
      (fun c => Sum.elim plain plain' (view.forth c)) (fun c => Sum.elim good good' (view.forth c)) := by
  intro path entries c rest hshort hread
  obtain ⟨⟨d, mid⟩, hd, hread⟩ := Except.bind_eq_ok.mp hread
  cases hread
  unfold Form.either at hd
  dsimp only at hd
  -- the path of the first entry decides
  split at hd
  · obtain ⟨⟨b, after⟩, hb, hd⟩ := Except.bind_eq_ok.mp hd
    cases hd
    obtain ⟨hsuffix, hfits, hplain, hgood⟩ := hright hshort hb
    exact ⟨hsuffix, hwire.fits_of_right hfits, view.forth_back_of hplain, view.forth_back_of hgood⟩
  · obtain ⟨⟨a, after⟩, ha, hd⟩ := Except.bind_eq_ok.mp hd
    cases hd
    obtain ⟨hsuffix, hfits, hplain, hgood⟩ := hleft hshort ha
    exact ⟨hsuffix, hwire.fits_of_left hfits, view.forth_back_of hplain, view.forth_back_of hgood⟩

/-! ## Recursive types -/

/-- Where nothing is read, nothing is admitted. -/
theorem of_unread {codec : Codec α} {form : Form α}
    (hread : ∀ path, ∃ e, ∀ entries, form.read path entries = .error e) :
    (Layout.mk codec form).Admits plain good := by
  intro path entries v rest _ hv
  obtain ⟨e, he⟩ := hread path
  replace hv : form.read path entries = .ok (v, rest) := hv
  rw [he] at hv
  cases hv

/-- A recursive type admits what each of its levels does. -/
theorem ofLevels {levels : Nat → Layout α} {depth : α → Nat} {least : Nat}
    (h : ∀ n, least ≤ n → (levels n).Admits plain good) (htower : Tower levels depth)
    (hsame : ∀ n, (levels n).form.read = (levels (max n least)).form.read) :
    (Layout.ofLevels levels depth).Admits plain good := by
  intro path entries v rest hshort hread
  replace hread : (levels (entries.length + 1)).form.read path entries = .ok (v, rest) := hread
  rw [hsame] at hread
  obtain ⟨hsuffix, hfits, hplain, hgood⟩ := h _ (Nat.le_max_right ..) hshort hread
  -- a value that fits a level fits its own
  have hdepth := htower.wire.depth_le hfits
  exact ⟨hsuffix, (htower.wire.fits_eq hdepth).symm.trans hfits, hplain, hgood⟩

end Admits

end Layout

end LedgerTx
