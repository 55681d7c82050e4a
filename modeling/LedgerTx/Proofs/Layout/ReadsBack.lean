import LedgerTx.Proofs.Layout.Scalar

namespace LedgerTx

open Listing

/-! # Reading back

`Layout.ReadsBack` says of a layout what the lines of its values come to when they are read.  Two
conditions on values matter.  Plain values have sound lines; of these, exactly the good ones are read
again, and the others are refused.  Each way of putting layouts together keeps the law. -/

namespace Layout

variable {α β κ : Type}

/-- The lines of a plain value are sound, and entries that show them are read as the value if it is good,
and refused if not. -/
def ReadsBack (layout : Layout α) (plain good : α → Prop) : Prop :=
  ∀ (path : Path) ⦃a : α⦄, layout.wire.fits .standard a = true → plain a →
    RoundTrip (good a) (layout.form.write path a) (layout.form.read path) a

namespace ReadsBack

variable {first : Layout α} {second : Layout β} {plain good : α → Prop} {plain' good' : β → Prop}

theorem of_lineLaw {codec : Codec α} {form : Form α} (h : LineLaw codec form plain good) :
    (Layout.mk codec form).ReadsBack plain good := by
  intro path a hfits hplain
  rcases h.exists_parse with ⟨print, parse, rfl, hprint, -⟩
  exact roundTrip_line (hprint a hfits hplain) path

theorem map (h : second.ReadsBack plain' good') (view : Bijection α β) :
    (second.map view).ReadsBack (fun a => plain' (view.forth a)) (fun a => good' (view.forth a)) := by
  intro path a hfits hplain
  have hmap := (h path hfits hplain).map view.back
  rw [view.back_forth] at hmap
  exact hmap

/-- Both parts are read back, one after the other. -/
theorem pair (hfirst : first.ReadsBack plain good) (hsecond : second.ReadsBack plain' good') :
    (Layout.pair first second).ReadsBack (fun v => plain v.1 ∧ plain' v.2)
      (fun v => good v.1 ∧ good' v.2) := by
  rintro path ⟨a, b⟩ hfits ⟨ha, hb⟩
  rcases Bool.and_eq_true_iff.mp hfits with ⟨hfitsa, hfitsb⟩
  exact (hfirst path hfitsa ha).seq
    (fun x entries => (second.form.read path entries).bind fun found =>
      .ok ((x, found.1), found.2))
    ((hsecond path hfitsb hb).map fun y => (a, y))

theorem under (h : first.ReadsBack plain good) (name : String) :
    (first.under name).ReadsBack plain good := by
  intro path a hfits hplain
  exact h (path.field name) hfits hplain

theorem congr (h : first.ReadsBack plain good) {p g : α → Prop} (hp : ∀ a, p a ↔ plain a)
    (hg : ∀ a, g a ↔ good a) : first.ReadsBack p g := by
  intro path a hfits hplain
  exact (h path hfits ((hp a).mp hplain)).congr (hg a)

theorem unit : Layout.unit.ReadsBack (fun _ => True) (fun _ => True) := by
  intro path a _ _
  exact .nil ()

/-- The tag is read back, and then what it says how to read. -/
theorem sigma {π : κ → Type} {tag : Layout κ} {payload : (k : κ) → Layout (π k)}
    {plain good : (k : κ) → π k → Prop} (htag : tag.ReadsBack (fun _ => True) (fun _ => True))
    (hpayload : ∀ k, (payload k).ReadsBack (plain k) (good k)) :
    (Layout.sigma tag payload).ReadsBack (fun v => plain v.1 v.2) (fun v => good v.1 v.2) := by
  rintro path ⟨k, b⟩ hfits hb
  rcases Bool.and_eq_true_iff.mp hfits with ⟨hfitsk, hfitsb⟩
  -- which payload is read depends on the tag, so the tag must be read again first
  have hrow : RoundTrip (True ∧ good k b) ((Layout.sigma tag payload).form.write path ⟨k, b⟩)
      ((Layout.sigma tag payload).form.read path) ⟨k, b⟩ :=
    (htag path hfitsk trivial).seq
      (fun x entries => ((payload x).form.read path entries).bind fun found =>
        .ok ((⟨x, found.1⟩ : Sigma π), found.2))
      ((hpayload k path hfitsb hb).map fun y => (⟨k, y⟩ : Sigma π))
  exact hrow.congr ⟨fun hgood => ⟨trivial, hgood⟩, fun hgood => hgood.2⟩

/-- Elements are read back, one after the other. -/
theorem writeItems_readItems {item : Layout α} (h : item.ReadsBack plain good) (path : Path)
    (index : Nat) {vs : List α} (hfits : ∀ v ∈ vs, item.wire.fits .standard v = true)
    (hplain : ∀ v ∈ vs, plain v) :
    RoundTrip (∀ v ∈ vs, good v) (item.form.writeItems path index vs)
      (item.form.readItems path index vs.length) vs := by
  induction vs generalizing index with
  | nil => exact (RoundTrip.nil []).congr ⟨fun _ => trivial, fun _ v hv => absurd hv List.not_mem_nil⟩
  | cons v vs ih =>
    have hfirst := h (path.item index) (hfits v (List.mem_cons_self ..))
      (hplain v (List.mem_cons_self ..))
    have hothers := ih (index + 1) (fun w hw => hfits w (List.mem_cons_of_mem v hw))
      fun w hw => hplain w (List.mem_cons_of_mem v hw)
    -- the first element is read back from its own lines, the others from what follows
    have hrow : RoundTrip (good v ∧ ∀ w ∈ vs, good w) (item.form.writeItems path index (v :: vs))
        (item.form.readItems path index (vs.length + 1)) (v :: vs) :=
      hfirst.seq
        (fun x entries => (item.form.readItems path (index + 1) vs.length entries).bind fun found =>
          .ok (x :: found.1, found.2))
        (hothers.map fun rest => v :: rest)
    exact hrow.congr List.forall_mem_cons

/-- The number of elements is read back. -/
theorem roundTrip_length {max n : Nat} (hfits : (Codec.count "array" max).fits .standard n = true)
    (path : Path) :
    RoundTrip True (((Form.count max).under "len").write path n)
      (((Form.count max).under "len").read path) n :=
  of_lineLaw (LineLaw.count max) (path.field "len") hfits trivial

/-- The mark of an optional value is read back. -/
theorem roundTrip_presence (path : Path) (present : Bool) :
    RoundTrip True ((Form.bool.under "_present").write path present)
      ((Form.bool.under "_present").read path) present := by
  have hbool : (Layout.mk .bool .bool).ReadsBack (fun _ => True) (fun _ => True) :=
    of_lineLaw LineLaw.bool
  exact hbool (path.field "_present") rfl trivial

/-- The count is read back, and then as many elements. -/
theorem list {item : Layout α} (h : item.ReadsBack plain good) (max : Nat) :
    (Layout.list max item).ReadsBack (fun vs => ∀ v ∈ vs, plain v) (fun vs => ∀ v ∈ vs, good v) := by
  intro path vs hfits hplain
  rcases Bool.and_eq_true_iff.mp hfits with ⟨hcount, hitems⟩
  have hlength := roundTrip_length hcount path
  have hall := h.writeItems_readItems path 0 (List.all_eq_true.mp hitems) hplain
  have hrow := hlength.seq (item.form.readItems path 0) hall
  exact hrow.congr ⟨fun hgood => ⟨trivial, hgood⟩, fun hgood => hgood.2⟩

/-- The mark is read back, and then the value if there is one. -/
theorem option {item : Layout α} (h : item.ReadsBack plain good) :
    (Layout.option item).ReadsBack (fun o => ∀ v ∈ o, plain v) (fun o => ∀ v ∈ o, good v) := by
  intro path o hfits hplain
  -- what is read after the mark depends on it
  let next (present : Bool) : Reader (Option α) := fun entries =>
    if present then (item.form.read path entries).bind fun found => .ok (some found.1, found.2)
    else .ok (none, entries)
  cases o with
  | none =>
    have hnone := (roundTrip_presence path false).andThen next (b := none) fun _ => rfl
    exact hnone.congr ⟨fun _ => trivial, fun _ v hv => by cases hv⟩
  | some a =>
    have ha := (h path hfits (hplain a rfl)).map some
    have hsome := (roundTrip_presence path true).seq next ha
    refine hsome.congr ⟨fun hgood => ⟨trivial, hgood a rfl⟩, fun hgood v hv => ?_⟩
    cases hv
    exact hgood.2

/-- What no reader takes is refused. -/
theorem unread (h : first.ReadsBack plain good) {read : Path → Reader α}
    (hread : ∀ path, ∃ e, ∀ entries, read path entries = .error e) :
    (Layout.mk first.wire ⟨first.form.write, read⟩).ReadsBack plain (fun _ => False) := by
  intro path a hfits hplain
  rcases h path hfits hplain with ⟨lines, hwrite, hsound, -⟩
  rcases hread path with ⟨e, he⟩
  exact ⟨lines, hwrite, hsound, fun shown rest _ => ⟨False.elim, fun _ => ⟨e, he _⟩⟩⟩

theorem delay {layout : Unit → Layout α} (h : (layout ()).ReadsBack plain good) :
    (Layout.delay layout).ReadsBack plain good := by
  intro path a hfits hplain
  exact h path hfits hplain

end ReadsBack

end Layout

end LedgerTx
