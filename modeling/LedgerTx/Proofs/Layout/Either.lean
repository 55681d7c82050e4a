import LedgerTx.Proofs.Layout.Forgets
import LedgerTx.Proofs.Wire.Looser

namespace LedgerTx

open Listing

/-! # Layouts with a choice of lines

A value that stands on the path itself or in parts is read by the path of its first line. -/

/-- A form of which the first line stands at a place that depends on the path only. -/
def Form.StartsAt {α : Type} (form : Form α) (place : Path → Path) : Prop :=
  ∀ ⦃path a lines⦄, form.write path a = .ok lines →
    ∃ line more, lines = line :: more ∧ line.path = place path

namespace Form.StartsAt

variable {α β : Type}

theorem line {print : α → Except LineError (List Char)}
    {parse : List Char → List Char → Except LineError α} :
    (Form.line print parse).StartsAt fun path => path := by
  intro path a lines hwrite
  obtain ⟨value, -, rfl⟩ := write_line_eq_ok.mp hwrite
  exact ⟨_, [], rfl, rfl⟩

theorem under {form : Form α} (h : form.StartsAt fun path => path) (name : String) :
    (form.under name).StartsAt fun path => path.field name := by
  intro path a lines hwrite
  exact h hwrite

theorem pair {first : Form α} {place : Path → Path} (h : first.StartsAt place) (second : Form β) :
    (Form.pair first second).StartsAt place := by
  intro path a lines hwrite
  rcases append_eq_ok.mp hwrite with ⟨front, back, hfront, -, rfl⟩
  rcases h hfront with ⟨line, more, rfl, hline⟩
  exact ⟨line, more ++ back, rfl, hline⟩

end Form.StartsAt

theorem LineLaw.startsAt {α : Type} {codec : Codec α} {form : Form α} {plain good : α → Prop}
    (h : LineLaw codec form plain good) : form.StartsAt fun path => path := by
  rcases h.exists_parse with ⟨print, parse, rfl, -⟩
  exact .line

namespace Layout

variable {α β γ : Type}

/-- What a codec of values of either kind must keep of the codecs of the two kinds. -/
structure EitherWire (codec : Codec γ) (view : Bijection γ (α ⊕ β)) (left : Codec α) (right : Codec β) :
    Prop where
  fits_left : ∀ {c a}, view.forth c = .inl a → codec.fits .standard c = true →
    left.fits .standard a = true
  fits_right : ∀ {c b}, view.forth c = .inr b → codec.fits .standard c = true →
    right.fits .standard b = true
  /-- What one of the kinds can say, values of either kind can. -/
  fits_of_left : ∀ {a}, left.fits .loosest a = true → codec.fits .loosest (view.back (.inl a)) = true
  fits_of_right : ∀ {b}, right.fits .loosest b = true → codec.fits .loosest (view.back (.inr b)) = true
  diverges_left : ∀ {a' a}, left.Diverges a' a →
    codec.Diverges (view.back (.inl a')) (view.back (.inl a))
  diverges_right : ∀ {b' b}, right.Diverges b' b →
    codec.Diverges (view.back (.inr b')) (view.back (.inr b))

variable {codec : Codec γ} {view : Bijection γ (α ⊕ β)} {left : Layout α} {right : Layout β}
  {mark : String} {plain good : α → Prop} {plain' good' : β → Prop}

/-- The first entry at the path itself leads to the value on one line. -/
theorem read_either_left {left : Form α} {right : Form β} {path : Path} {entries : List Entry}
    (hmark : isPathName mark = true) (hhead : entries.head?.map Entry.path = some path.text) :
    (Form.either left mark right).read path entries
      = left.read path entries >>= fun r => .ok (.inl r.1, r.2) := by
  have hne : ¬entries.head?.map Entry.path = some (path.field mark).text := by
    rw [hhead]
    intro heq
    exact path.text_field_ne hmark (Option.some.inj heq).symm
  exact if_neg hne

/-- The first entry at the mark leads to the value in parts. -/
theorem read_either_right {left : Form α} {right : Form β} {path : Path} {entries : List Entry}
    (hhead : entries.head?.map Entry.path = some (path.field mark).text) :
    (Form.either left mark right).read path entries
      = right.read path entries >>= fun r => .ok (.inr r.1, r.2) :=
  if_pos hhead

/-- Entries that show lines begin at the path of the first line. -/
theorem head_path_of_shows {shown : List Entry} {line : Line} {lines : List Line}
    (h : List.Forall₂ Entry.Shows shown (line :: lines)) (rest : List Entry) :
    (shown ++ rest).head?.map Entry.path = some line.path.text := by
  rcases List.forall₂_cons_right_iff.mp h with ⟨entry, others, hentry, -, rfl⟩
  exact congrArg some hentry.path

/-- A value of one kind that is read is the value of either kind that it stands for. -/
theorem settles_back {δ : Type} {good : Prop} {result : Except ListingError (δ × List Entry)} {d : δ}
    {rest : List Entry} (h : Settles good result (d, rest)) {side : δ → α ⊕ β} {c : γ}
    (hc : view.forth c = side d) :
    Settles good
      ((result >>= fun r => .ok (side r.1, r.2)) >>= fun r => .ok (view.back r.1, r.2)) (c, rest) := by
  have hside : Settles good (result >>= fun r => .ok (side r.1, r.2)) (side d, rest) := h.map rfl
  refine hside.map ?_
  dsimp only
  rw [← hc, view.back_forth]

/-- What stands on one line or in parts is read back, as its first line tells which it is. -/
theorem ReadsBack.either (hwire : EitherWire codec view left.wire right.wire)
    (hleft : left.ReadsBack plain good) (hright : right.ReadsBack plain' good')
    (hmark : isPathName mark = true) (hleftStart : left.form.StartsAt fun path => path)
    (hrightStart : right.form.StartsAt fun path => path.field mark) :
    (Layout.mk codec (.map view (.either left.form mark right.form))).ReadsBack
      (fun c => Sum.elim plain plain' (view.forth c)) (fun c => Sum.elim good good' (view.forth c)) := by
  intro path c hfits hplain
  dsimp only at hplain ⊢
  -- one case for each kind of value, each found again by the path of its first line
  cases hc : view.forth c with
  | inl a =>
    rw [hc] at hplain
    rcases hleft path (hwire.fits_left hc hfits) hplain with ⟨lines, hwrite, hsound, hread⟩
    refine ⟨lines, ?_, hsound, fun shown rest hshown => ?_⟩
    · show (Form.either left.form mark right.form).write path (view.forth c) = _
      rw [hc]
      exact hwrite
    · rcases hleftStart hwrite with ⟨line, more, rfl, hline⟩
      have hhead := head_path_of_shows hshown rest
      rw [hline] at hhead
      show Settles _ ((Form.either left.form mark right.form).read path (shown ++ rest) >>= _) _
      rw [read_either_left hmark hhead]
      exact settles_back (hread hshown) hc
  | inr b =>
    rw [hc] at hplain
    rcases hright path (hwire.fits_right hc hfits) hplain with ⟨lines, hwrite, hsound, hread⟩
    refine ⟨lines, ?_, hsound, fun shown rest hshown => ?_⟩
    · show (Form.either left.form mark right.form).write path (view.forth c) = _
      rw [hc]
      exact hwrite
    · rcases hrightStart hwrite with ⟨line, more, rfl, hline⟩
      have hhead := head_path_of_shows hshown rest
      rw [hline] at hhead
      show Settles _ ((Form.either left.form mark right.form).read path (shown ++ rest) >>= _) _
      rw [read_either_right hhead]
      exact settles_back (hread hshown) hc

/-- What stands on one line or in parts is forgotten in its own way. -/
theorem Forgets.either (hwire : EitherWire codec view left.wire right.wire)
    (hleft : left.Forgets plain) (hright : right.Forgets plain')
    (hmark : isPathName mark = true) (hleftStart : left.form.StartsAt fun path => path)
    (hrightStart : right.form.StartsAt fun path => path.field mark) :
    (Layout.mk codec (.map view (.either left.form mark right.form))).Forgets
      (fun c => Sum.elim plain plain' (view.forth c)) := by
  intro path c c' lines more entries rest hfits hplain hwrite hfollow hread
  replace hread := Except.bind_eq_ok.mp hread
  rcases hread with ⟨⟨d, mid⟩, hd, hread⟩
  cases hread
  dsimp only at hplain
  replace hwrite : (Form.either left.form mark right.form).write path (view.forth c) = .ok lines := hwrite
  have hback : view.back (view.forth c) = c := view.back_forth c
  -- the first line is still at its place, so the same kind of value is read
  cases hc : view.forth c with
  | inl a =>
    rw [hc] at hplain hwrite hback
    rcases hleftStart hwrite with ⟨line, others, rfl, hline⟩
    have hhead := hfollow.head_path
    rw [hline] at hhead
    rw [read_either_left hmark hhead] at hd
    replace hd := Except.bind_eq_ok.mp hd
    rcases hd with ⟨⟨a', mid'⟩, ha', hd⟩
    cases hd
    rw [← hback]
    exact hwire.diverges_left (hleft path (hwire.fits_left hc hfits) hplain hwrite hfollow ha')
  | inr b =>
    rw [hc] at hplain hwrite hback
    rcases hrightStart hwrite with ⟨line, others, rfl, hline⟩
    have hhead := hfollow.head_path
    rw [hline] at hhead
    rw [read_either_right hhead] at hd
    replace hd := Except.bind_eq_ok.mp hd
    rcases hd with ⟨⟨b', mid'⟩, hb', hd⟩
    cases hd
    rw [← hback]
    exact hwire.diverges_right (hright path (hwire.fits_right hc hfits) hplain hwrite hfollow hb')

end Layout

end LedgerTx
