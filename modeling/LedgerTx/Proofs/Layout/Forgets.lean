import LedgerTx.Proofs.Layout.ReadsBack

namespace LedgerTx

open Listing

/-! # Values that are never read again

`Layout.Forgets` says that the lines of a value that is not plain are never read as that value: whatever
is read from them, its bytes are those of another value, and of which one is clear at the first place
where the two differ.  Each way of putting layouts together keeps the law. -/

namespace Codec.Diverges

variable {α β κ : Type} {first : Codec α} {second : Codec β}

/-- Other forms of values diverge where the values do. -/
theorem map {view : Bijection α β} {a : α} {b : β} (h : second.Diverges b (view.forth a)) :
    (second.map view).Diverges (view.back b) a := by
  intro tail rest hdecode
  have hread := map_decode_eq_ok.mp hdecode
  have hencode : (second.map view).encode (view.back b) = second.encode b :=
    congrArg second.encode (view.forth_back b)
  rw [hencode] at hread
  exact h tail rest hread

/-- Pairs diverge where their first values do. -/
theorem pair_left {a a' : α} (h : first.Diverges a' a) (b' b : β) :
    (Codec.pair first second).Diverges (a', b') (a, b) := by
  intro tail rest hdecode
  rw [pair_encode, List.append_assoc] at hdecode
  rcases pair_decode_eq_ok.mp hdecode with ⟨mid, hfirst, -⟩
  exact h _ mid hfirst

/-- Pairs of the same first value diverge where their second values do. -/
theorem pair_right {a : α} {b' b : β}
    (ha : ∀ rest, first.decode .standard (first.encode a ++ rest) = .ok (a, rest))
    (h : second.Diverges b' b) : (Codec.pair first second).Diverges (a, b') (a, b) := by
  intro tail rest hdecode
  rw [pair_encode, List.append_assoc] at hdecode
  rcases pair_decode_eq_ok.mp hdecode with ⟨mid, hfirst, hsecond⟩
  rw [ha] at hfirst
  cases hfirst
  exact h tail rest hsecond

/-- Payloads behind the same tag diverge where they do by themselves. -/
theorem sigma {π : κ → Type} {tag : Codec κ} (payload : (k : κ) → Codec (π k)) {k : κ} {b' b : π k}
    (hk : ∀ rest, tag.decode .standard (tag.encode k ++ rest) = .ok (k, rest))
    (h : (payload k).Diverges b' b) : (Codec.sigma tag payload).Diverges ⟨k, b'⟩ ⟨k, b⟩ := by
  intro tail rest hdecode
  rw [sigma_encode, List.append_assoc] at hdecode
  rcases sigma_decode_eq_ok.mp hdecode with ⟨mid, htag, hpayload⟩
  rw [hk] at htag
  cases htag
  exact h tail rest hpayload

/-- Lists of the same length diverge where their items do. -/
theorem list {item : Codec α} {max : Nat} {vs ws : List α} (hlength : ws.length = vs.length)
    (h : ∀ tail rest, Decoder.repeated (item.decode .standard) vs.length
      (ws.flatMap item.encode ++ tail) ≠ .ok (vs, rest)) : (Codec.list max item).Diverges ws vs := by
  intro tail rest hdecode
  rcases list_decode_eq_ok.mp hdecode with ⟨mid, -, hbytes, hitems⟩
  rw [list_encode, hlength, List.append_assoc] at hbytes
  rw [← List.append_cancel_left hbytes] at hitems
  exact h tail rest hitems

/-- Values behind the same mark diverge where they do by themselves. -/
theorem option {item : Codec α} {a' a : α} (h : item.Diverges a' a) :
    (Codec.option item).Diverges (some a') (some a) := by
  intro tail rest hdecode
  rcases option_decode_some.mp hdecode with ⟨mid, hbytes, hitem⟩
  rw [option_encode_some, List.append_assoc] at hbytes
  rw [← List.append_cancel_left hbytes] at hitem
  exact h tail rest hitem

end Codec.Diverges

namespace Layout

variable {α β κ : Type}

/-- Whatever is read from the lines of a value that is not plain, its bytes are not those of the value. -/
def Forgets (layout : Layout α) (plain : α → Prop) : Prop :=
  ∀ (path : Path) ⦃a b : α⦄ ⦃lines more : List Line⦄ ⦃entries rest : List Entry⦄,
    layout.wire.fits .standard a = true → ¬plain a → layout.form.write path a = .ok lines →
      Follow (lines ++ more) entries → layout.form.read path entries = .ok (b, rest) →
        layout.wire.Diverges b a

namespace Forgets

variable {first : Layout α} {second : Layout β} {plain good : α → Prop} {plain' : β → Prop}
  {lenient : Bool}

/-- Where all values are plain there is nothing to forget. -/
theorem of_forall (h : ∀ a, plain a) : first.Forgets plain := by
  intro path a b lines more entries rest _ hplain
  exact absurd (h a) hplain

/-- What no reader takes cannot be read as anything. -/
theorem of_unread {codec : Codec α} {write : Path → α → Except ListingError (List Line)}
    {read : Path → Reader α} (hread : ∀ path, ∃ e, ∀ entries, read path entries = .error e) :
    (Layout.mk codec ⟨write, read⟩).Forgets plain := by
  intro path a b lines more entries rest _ _ _ _ hb
  replace hb : read path entries = .ok (b, rest) := hb
  rcases hread path with ⟨e, he⟩
  rw [he] at hb
  cases hb

theorem congr (h : first.Forgets plain) {p : α → Prop} (hp : ∀ a, p a ↔ plain a) :
    first.Forgets p := by
  intro path a b lines more entries rest hfits hplain
  exact h path hfits fun hyes => hplain ((hp a).mpr hyes)

/-- A value of one line is forgotten as its law says. -/
theorem of_lineLaw {codec : Codec α} {form : Form α} (h : LineLaw codec form plain good) :
    (Layout.mk codec form).Forgets plain := by
  intro path a b lines more entries rest hfits hplain hwrite _ hread
  rcases h.exists_parse with ⟨print, parse, rfl, -, hstray⟩
  obtain ⟨value, hprint, -⟩ := write_line_eq_ok.mp hwrite
  obtain ⟨entry, -, -, -, hparse⟩ := read_line_eq_ok.mp hread
  exact hstray a value _ _ b hfits hplain hprint hparse

theorem under (h : first.Forgets plain) (name : String) : (first.under name).Forgets plain := by
  intro path a b lines more entries rest hfits hplain hwrite hfollow hread
  exact h (path.field name) hfits hplain hwrite hfollow hread

theorem delay {layout : Unit → Layout α} (h : (layout ()).Forgets plain) :
    (Layout.delay layout).Forgets plain := by
  intro path a b lines more entries rest hfits hplain hwrite hfollow hread
  exact h path hfits hplain hwrite hfollow hread

/-- The condition on another form of a value is the one on the value. -/
theorem map (h : second.Forgets plain') (view : Bijection α β) :
    (second.map view).Forgets (fun a => plain' (view.forth a)) := by
  intro path a b lines more entries rest hfits hplain hwrite hfollow hread
  replace hread := Except.bind_eq_ok.mp hread
  rcases hread with ⟨⟨b', mid⟩, hb, hread⟩
  cases hread
  exact .map (h path hfits hplain hwrite hfollow hb)

/-- The difference is in the first part that is not plain. -/
theorem pair (hfirst : first.Forgets plain) (hsecond : second.Forgets plain')
    (hwire : Codec.Composed lenient first.wire) (hback : first.ReadsBack plain good) :
    (Layout.pair first second).Forgets (fun v => plain v.1 ∧ plain' v.2) := by
  rintro path ⟨a, b⟩ ⟨a', b'⟩ lines more entries rest hfits hplain hwrite hfollow hread
  rcases Bool.and_eq_true_iff.mp hfits with ⟨hfitsa, hfitsb⟩
  rcases append_eq_ok.mp hwrite with ⟨front, back, hfront, hbackLines, rfl⟩
  replace hread := Except.bind_eq_ok.mp hread
  rcases hread with ⟨⟨x, mid⟩, hx, hread⟩
  replace hread := Except.bind_eq_ok.mp hread
  rcases hread with ⟨⟨y, mid'⟩, hy, hread⟩
  cases hread
  rw [List.append_assoc] at hfollow
  by_cases ha : plain a
  · -- the first value is read again, so the difference is in the second
    rcases (hback path hfitsa ha).eq_of_follow hfront hfollow hx with ⟨rfl, hafter⟩
    have hb : ¬plain' b := fun hb => hplain ⟨ha, hb⟩
    exact .pair_right (fun _ => hwire.decode_encode hfitsa _)
      (hsecond path hfitsb hb hbackLines hafter hy)
  · -- the bytes differ within the first value already
    exact .pair_left (hfirst path hfitsa ha hfront hfollow hx) _ _

/-- The tag is read again, so the difference is in what it says how to read. -/
theorem sigma {π : κ → Type} {tag : Layout κ} {payload : (k : κ) → Layout (π k)}
    {plain : (k : κ) → π k → Prop} (hpayload : ∀ k, (payload k).Forgets (plain k))
    (hwire : Codec.Composed lenient tag.wire)
    (hback : tag.ReadsBack (fun _ => True) (fun _ => True)) :
    (Layout.sigma tag payload).Forgets (fun v => plain v.1 v.2) := by
  rintro path ⟨k, b⟩ ⟨k', b'⟩ lines more entries rest hfits hplain hwrite hfollow hread
  rcases Bool.and_eq_true_iff.mp hfits with ⟨hfitsk, hfitsb⟩
  rcases append_eq_ok.mp hwrite with ⟨front, back, hfront, hbackLines, rfl⟩
  replace hread := Except.bind_eq_ok.mp hread
  rcases hread with ⟨⟨x, mid⟩, hx, hread⟩
  replace hread := Except.bind_eq_ok.mp hread
  rcases hread with ⟨⟨y, mid'⟩, hy, hread⟩
  cases hread
  rw [List.append_assoc] at hfollow
  -- the tag is read again, so the same kind of payload is read
  rcases (hback path hfitsk trivial).eq_of_follow hfront hfollow hx with ⟨rfl, hafter⟩
  exact .sigma (fun k => (payload k).wire) (fun _ => hwire.decode_encode hfitsk _)
    (hpayload k path hfitsb hplain hbackLines hafter hy)

/-- Of the items of a list, the first that is not plain makes the difference. -/
theorem items {item : Layout α} (h : item.Forgets plain)
    (hwire : Codec.Composed lenient item.wire) (hback : item.ReadsBack plain good) {path : Path}
    {index : Nat} {vs ws : List α} {lines more : List Line} {entries rest : List Entry}
    (hfits : ∀ v ∈ vs, item.wire.fits .standard v = true) (hplain : ¬∀ v ∈ vs, plain v)
    (hwrite : item.form.writeItems path index vs = .ok lines) (hfollow : Follow (lines ++ more) entries)
    (hread : item.form.readItems path index vs.length entries = .ok (ws, rest)) (tail after : List UInt8) :
    Decoder.repeated (item.wire.decode .standard) vs.length (ws.flatMap item.wire.encode ++ tail)
      ≠ .ok (vs, after) := by
  -- as long as items are plain they are read again, and the entries follow the lines of the others
  induction vs generalizing index ws lines entries rest with
  | nil => exact absurd (fun v hv => absurd hv List.not_mem_nil) hplain
  | cons v vs ih =>
    have hfitsv := hfits v (List.mem_cons_self ..)
    rcases append_eq_ok.mp hwrite with ⟨front, back, hfront, hbackLines, rfl⟩
    replace hread := Except.bind_eq_ok.mp hread
    rcases hread with ⟨⟨w, mid⟩, hw, hread⟩
    replace hread := Except.bind_eq_ok.mp hread
    rcases hread with ⟨⟨ws', mid'⟩, hws, hread⟩
    cases hread
    rw [List.append_assoc] at hfollow
    intro hdecode
    rw [List.length_cons, List.flatMap_cons, List.append_assoc] at hdecode
    rcases Decoder.repeated_succ_eq_ok.mp hdecode with ⟨x, xs, middle, heq, hx, hxs⟩
    cases heq
    by_cases hv : plain v
    · -- this item is read again, so the first that makes a difference is among the others
      rcases (hback (path.item index) hfitsv hv).eq_of_follow hfront hfollow hw with ⟨rfl, hothers⟩
      rw [hwire.decode_encode hfitsv] at hx
      cases hx
      have hrest : ¬∀ u ∈ vs, plain u := fun hall => hplain (List.forall_mem_cons.mpr ⟨hv, hall⟩)
      exact ih (fun u hu => hfits u (List.mem_cons_of_mem v hu)) hrest hbackLines hothers hws hxs
    · exact h (path.item index) hfitsv hv hfront hfollow hw _ middle hx

/-- Reading items gives as many as were asked for. -/
theorem length_of_readItems {item : Form α} {path : Path} {index count : Nat}
    {entries rest : List Entry} {ws : List α}
    (h : item.readItems path index count entries = .ok (ws, rest)) : ws.length = count := by
  induction count generalizing index entries ws with
  | zero =>
    cases h
    rfl
  | succ count ih =>
    replace h := Except.bind_eq_ok.mp h
    rcases h with ⟨⟨w, mid⟩, -, h⟩
    replace h := Except.bind_eq_ok.mp h
    rcases h with ⟨⟨ws', mid'⟩, hws, h⟩
    cases h
    rw [List.length_cons, ih hws]

/-- The count is read again, so the difference is in the elements. -/
theorem list {item : Layout α} (h : item.Forgets plain) (hwire : Codec.Composed lenient item.wire)
    (hback : item.ReadsBack plain good) (max : Nat) :
    (Layout.list max item).Forgets (fun vs => ∀ v ∈ vs, plain v) := by
  intro path vs ws lines more entries rest hfits hplain hwrite hfollow hread
  rcases Bool.and_eq_true_iff.mp hfits with ⟨hcount, hitems⟩
  rcases append_eq_ok.mp hwrite with ⟨front, back, hfront, hbackLines, rfl⟩
  replace hread := Except.bind_eq_ok.mp hread
  rcases hread with ⟨⟨n, mid⟩, hn, hread⟩
  rw [List.append_assoc] at hfollow
  have hlength := ReadsBack.roundTrip_length hcount path
  rcases hlength.eq_of_follow hfront hfollow hn with ⟨rfl, hafter⟩
  -- as many items are read as were counted, so the counts are the same
  refine .list (length_of_readItems hread) fun tail rest => ?_
  exact h.items hwire hback (List.all_eq_true.mp hitems) hplain hbackLines hafter hread tail rest

/-- The mark is read again, so the difference is in the value. -/
theorem option {item : Layout α} (h : item.Forgets plain) :
    (Layout.option item).Forgets (fun o => ∀ v ∈ o, plain v) := by
  intro path o o' lines more entries rest hfits hplain hwrite hfollow hread
  -- an absent value is plain
  cases o with
  | none => exact absurd (fun v hv => by cases hv) hplain
  | some a =>
    have ha : ¬plain a := by
      intro hyes
      refine hplain fun v hv => ?_
      cases hv
      exact hyes
    rcases append_eq_ok.mp hwrite with ⟨front, back, hfront, hbackLines, rfl⟩
    replace hread := Except.bind_eq_ok.mp hread
    rcases hread with ⟨⟨present, mid⟩, hpresent, hread⟩
    rw [List.append_assoc] at hfollow
    have hflag := ReadsBack.roundTrip_presence path true
    rcases hflag.eq_of_follow hfront hfollow hpresent with ⟨rfl, hafter⟩
    replace hread := Except.bind_eq_ok.mp hread
    rcases hread with ⟨⟨a', mid'⟩, ha', hread⟩
    cases hread
    exact .option (h path hfits ha hbackLines hafter ha')

end Forgets

end Layout

end LedgerTx
