import LedgerTx.Proofs.Front
import LedgerTx.Proofs.Layout.Admits
import LedgerTx.Proofs.Wire.Aligned

namespace LedgerTx

open Listing

/-! # How layouts are put together

`Layout.Composed` holds of the layouts that are put together from those of single values in the ways that
`Layout.Basic` has.  A law of layouts is proved by induction on it, with one case for each way, and holds
then of every type that has a layout.  The two conditions say which values have lines that read back as
nothing else (the plain ones), and which of these are read at all (the good ones). -/

namespace Layout

/-- Layouts that are put together from layouts of single values. -/
inductive Composed (lenient : Bool) : {α : Type} → Layout α → (plain good : α → Prop) → Prop
  | line {α : Type} {codec : Codec α} {form : Form α} {plain good : α → Prop} [Codec.Aligned codec]
      (wire : Codec.Composed lenient codec) (h : LineLaw codec form plain good)
      (hadmits : (Layout.mk codec form).Admits plain good) : Composed lenient ⟨codec, form⟩ plain good
  | under {α : Type} {layout : Layout α} {plain good : α → Prop} {name : String}
      (hname : isPathName name = true) (h : Composed lenient layout plain good) :
      Composed lenient (layout.under name) plain good
  | map {α β : Type} {view : Bijection α β} {layout : Layout β} {plain good : β → Prop}
      (h : Composed lenient layout plain good) :
      Composed lenient (layout.map view) (fun a => plain (view.forth a)) (fun a => good (view.forth a))
  | unit : Composed lenient Layout.unit (fun _ => True) (fun _ => True)
  | pair {α β : Type} {first : Layout α} {second : Layout β} {plain good : α → Prop}
      {plain' good' : β → Prop} (hfirst : Composed lenient first plain good)
      (hsecond : Composed lenient second plain' good') :
      Composed lenient (Layout.pair first second) (fun v => plain v.1 ∧ plain' v.2)
        (fun v => good v.1 ∧ good' v.2)
  | sigma {κ : Type} {π : κ → Type} {tag : Layout κ} {payload : (k : κ) → Layout (π k)}
      {plain good : (k : κ) → π k → Prop}
      (htag : Composed lenient tag (fun _ => True) (fun _ => True))
      (hpayload : ∀ k, Composed lenient (payload k) (plain k) (good k)) :
      Composed lenient (Layout.sigma tag payload) (fun v => plain v.1 v.2) (fun v => good v.1 v.2)
  | list {α : Type} {item : Layout α} {plain good : α → Prop} (max : Nat)
      (h : Composed lenient item plain good) :
      Composed lenient (Layout.list max item) (fun vs => ∀ v ∈ vs, plain v) (fun vs => ∀ v ∈ vs, good v)
  | option {α : Type} {item : Layout α} {plain good : α → Prop}
      (h : Composed lenient item plain good) :
      Composed lenient (Layout.option item) (fun o => ∀ v ∈ o, plain v) (fun o => ∀ v ∈ o, good v)
  | either {α β γ : Type} {codec : Codec γ} {view : Bijection γ (α ⊕ β)} {left : Layout α}
      {right : Layout β} {mark : String} {plain good : α → Prop} {plain' good' : β → Prop}
      [Codec.Aligned codec] (wire : Codec.Composed lenient codec)
      (hwire : EitherWire codec view left.wire right.wire)
      (hleft : Composed lenient left plain good) (hright : Composed lenient right plain' good')
      (hmark : isPathName mark = true) (hleftStart : left.form.StartsAt fun path => path)
      (hrightStart : right.form.StartsAt fun path => path.field mark)
      (hrightTakes : ∀ path, Takes 1 (right.form.read path)) :
      Composed lenient ⟨codec, .map view (.either left.form mark right.form)⟩
        (fun c => Sum.elim plain plain' (view.forth c)) (fun c => Sum.elim good good' (view.forth c))
  | delay {α : Type} {layout : Unit → Layout α} {plain good : α → Prop}
      (h : Composed lenient (layout ()) plain good) :
      Composed lenient (Layout.delay layout) plain good
  /-- The level of no values, whatever its form says of them. -/
  | empty {α : Type} {form : Form α} {plain good : α → Prop}
      (hwrite : ∀ path a, ∃ e, form.write path a = .error e)
      (hread : ∀ path, ∃ e, ∀ entries, form.read path entries = .error e) :
      Composed lenient ⟨.empty, form⟩ plain good
  /-- Values that are written and then read by a level of none. -/
  | unread {α : Type} {layout : Layout α} {read : Path → Reader α} {plain good : α → Prop}
      (h : Composed lenient layout plain good)
      (hread : ∀ path, ∃ e, ∀ entries, read path entries = .error e) :
      Composed lenient ⟨layout.wire, ⟨layout.form.write, read⟩⟩ plain (fun _ => False)
  /-- Levels from a least one on; those below it read as that one. -/
  | ofLevels {α : Type} {levels : Nat → Layout α} {depth : α → Nat} {plain good : α → Prop} {least : Nat}
      (wire : ∀ n, Codec.Composed false (levels n).wire)
      (h : ∀ n, least ≤ n → Composed lenient (levels n) plain good)
      (htower : Tower levels depth)
      (hsame : ∀ n, (levels n).form.read = (levels (max n least)).form.read)
      (hread : (∀ a, plain a) ∨ ∀ {n path entries b rest},
        (levels n).form.read path entries = .ok (b, rest) → depth b ≤ n) :
      Composed lenient (Layout.ofLevels levels depth) plain good
  | congr {α : Type} {layout : Layout α} {plain good plain' good' : α → Prop}
      (h : Composed lenient layout plain good) (hplain : ∀ a, plain' a ↔ plain a)
      (hgood : ∀ a, good' a ↔ good a) : Composed lenient layout plain' good'

end Layout

/-- Codecs that let no unknown constants through may stand where others do. -/
theorem Codec.Composed.of_false {α : Type} {lenient : Bool} {codec : Codec α}
    (h : Codec.Composed false codec) : Codec.Composed lenient codec := by
  induction h with
  | uint32 => exact .uint32
  | uint64 => exact .uint64
  | flag fault => exact .flag fault
  | fixed n => exact .fixed n
  | bytes max => exact .bytes max
  | string max => exact .string max
  | constant κ => exact .constant κ
  | openConstant title last hlenient => cases hlenient
  | arms hsome hof => exact .arms hsome hof
  | unit => exact .unit
  | map _ ih => exact .map ih
  | pair _ _ ihfirst ihsecond => exact .pair ihfirst ihsecond
  | sigma _ _ ihtag ihpayload => exact .sigma ihtag ihpayload
  | list max _ ih => exact .list max ih
  | option _ ih => exact .option ih
  | empty => exact .empty
  | delay _ ih => exact .delay ih
  | ofLevels _ htower ih => exact .ofLevels ih htower

namespace Layout.Composed

variable {α : Type} {lenient : Bool} {layout : Layout α} {plain good : α → Prop}

/-- The wire form of a layout is put together in the same way. -/
theorem wire (h : Composed lenient layout plain good) : Codec.Composed lenient layout.wire := by
  induction h with
  | line wire | either wire => exact wire
  | under _ _ ih | congr _ _ _ ih | unread _ _ ih => exact ih
  | map _ ih => exact .map ih
  | unit => exact .unit
  | pair _ _ ihfirst ihsecond => exact .pair ihfirst ihsecond
  | sigma _ _ ihtag ihpayload => exact .sigma ihtag ihpayload
  | list max _ ih => exact .list max ih
  | option _ ih => exact .option ih
  | @delay _ layout _ _ _ ih =>
    show Codec.Composed lenient (.delay fun _ => (layout ()).wire)
    exact .delay ih
  | empty => exact .empty
  | ofLevels wire _ htower => exact .ofLevels (fun n => (wire n).of_false) htower.wire

/-- The lines of a plain value are sound, and are read as that value if it is good. -/
theorem readsBack (h : Composed lenient layout plain good) : layout.ReadsBack plain good := by
  -- one case for each way of putting layouts together, each a lemma of its own
  induction h with
  | line _ h => exact .of_lineLaw h
  | under _ _ ih => exact ih.under _
  | map _ ih => exact ih.map _
  | unit => exact .unit
  | pair _ _ ihfirst ihsecond => exact ihfirst.pair ihsecond
  | sigma _ _ ihtag ihpayload => exact .sigma ihtag ihpayload
  | list max _ ih => exact ih.list max
  | option _ ih => exact ih.option
  | either _ hwire _ _ hmark hleftStart hrightStart _ ihleft ihright =>
    exact .either hwire ihleft ihright hmark hleftStart hrightStart
  | delay _ ih => exact ih.delay
  | empty => exact fun path a hfits => by cases hfits
  | unread _ hread ih => exact ih.unread hread
  | ofLevels _ _ htower hsame _ ih => exact .ofLevels ih htower hsame
  | congr _ hplain hgood ih => exact ih.congr hplain hgood

/-- The lines of a value that is not plain are never read as that value. -/
theorem forgets (h : Composed lenient layout plain good) : layout.Forgets plain := by
  induction h with
  | line _ h => exact .of_lineLaw h
  | under _ _ ih => exact ih.under _
  | map _ ih => exact ih.map _
  | unit => exact .of_forall fun _ => trivial
  | pair hfirst _ ihfirst ihsecond => exact ihfirst.pair ihsecond hfirst.wire hfirst.readsBack
  | sigma htag _ _ ihpayload => exact .sigma ihpayload htag.wire htag.readsBack
  | list max h ih => exact ih.list h.wire h.readsBack max
  | option _ ih => exact ih.option
  | either _ hwire _ _ hmark hleftStart hrightStart _ ihleft ihright =>
    exact .either hwire ihleft ihright hmark hleftStart hrightStart
  | delay _ ih => exact ih.delay
  | empty => exact fun path a b lines more entries rest hfits => by cases hfits
  | unread _ hread _ => exact .of_unread hread
  | ofLevels wire _ htower hsame hread ih =>
    -- either nothing is to be forgotten, or the depth of what is read is known
    rcases hread with hall | hread
    · exact .of_forall hall
    · exact .ofLevels ih wire htower hsame hread
  | congr _ hplain _ ih => exact ih.congr hplain

/-- Whatever is read from a listing is plain and good. -/
theorem admits (h : Composed lenient layout plain good) : layout.Admits plain good := by
  induction h with
  | line _ _ hadmits => exact hadmits
  | under _ _ ih => exact ih.under _
  | map _ ih => exact ih.map _
  | unit => exact .unit
  | pair _ _ ihfirst ihsecond => exact ihfirst.pair ihsecond
  | sigma _ _ ihtag ihpayload => exact .sigma ihtag ihpayload
  | list max _ ih => exact ih.list max
  | option _ ih => exact ih.option
  | either _ hwire _ _ _ _ _ _ ihleft ihright => exact .either hwire ihleft ihright
  | delay _ ih => exact ih.delay
  | empty _ hread | unread _ hread => exact .of_unread hread
  | ofLevels _ _ htower hsame _ ih => exact .ofLevels ih htower hsame
  | congr _ hplain hgood ih => exact ih.congr hplain hgood

/-- Layouts of which the wire lets no unknown constants through may stand where others do. -/
theorem of_false (h : Composed false layout plain good) : Composed lenient layout plain good := by
  induction h with
  | line wire h hadmits => exact .line wire.of_false h hadmits
  | under hname _ ih => exact .under hname ih
  | map _ ih => exact .map ih
  | unit => exact .unit
  | pair _ _ ihfirst ihsecond => exact .pair ihfirst ihsecond
  | sigma _ _ ihtag ihpayload => exact .sigma ihtag ihpayload
  | list max _ ih => exact .list max ih
  | option _ ih => exact .option ih
  | either wire hwire _ _ hmark hleftStart hrightStart hrightTakes ihleft ihright =>
    exact .either wire.of_false hwire ihleft ihright hmark hleftStart hrightStart hrightTakes
  | delay _ ih => exact .delay ih
  | empty hwrite hread => exact .empty hwrite hread
  | unread _ hread ih => exact .unread ih hread
  | ofLevels wire _ htower hsame hread ih => exact .ofLevels wire ih htower hsame hread
  | congr _ hplain hgood ih => exact .congr ih hplain hgood

/-- The wire form of a layout comes in groups of four bytes. -/
theorem aligned (h : Composed lenient layout plain good) : Codec.Aligned layout.wire := by
  induction h with
  | line | either => infer_instance
  | under _ _ ih | delay _ ih | unread _ _ ih | congr _ _ _ ih => exact ⟨ih.dvd_length⟩
  | map _ ih => exact ih.map _
  | unit => exact Codec.Aligned.unit
  | pair _ _ ihfirst ihsecond => exact ihfirst.pair ihsecond
  | sigma _ _ ihtag ihpayload => exact ihtag.sigma ihpayload
  | list max _ ih => exact ih.list max
  | option _ ih => exact ih.option
  | empty => exact Codec.Aligned.empty
  | @ofLevels _ levels depth _ _ least _ _ htower _ _ ih =>
    -- a value is written as every level writes it that is deep enough
    refine ⟨fun v => ?_⟩
    show 4 ∣ ((levels (depth v)).wire.encode v).length
    rw [← htower.wire.encode_eq (Nat.le_max_left (depth v) least)]
    exact (ih _ (Nat.le_max_right ..)).dvd_length v

/-- A union: the tag and then what the tag says, with conditions on the value that they make up. -/
theorem union {κ : Type} {π : κ → Type} {view : Bijection α (Sigma π)} {tag : Layout κ}
    {payload : (k : κ) → Layout (π k)} (htag : Composed lenient tag (fun _ => True) fun _ => True)
    (h : ∀ k, Composed lenient (payload k) (fun b => plain (view.back ⟨k, b⟩))
      fun b => good (view.back ⟨k, b⟩)) :
    Composed lenient (.map view (.sigma tag payload)) plain good := by
  have hview : Composed lenient (.map view (.sigma tag payload)) _ _ := .map (.sigma htag h)
  refine hview.congr (fun a => ?_) fun a => ?_
  · show _ ↔ plain (view.back (view.forth a))
    rw [view.back_forth]
  · show _ ↔ good (view.back (view.forth a))
    rw [view.back_forth]

/-! ## Paths of lines -/

/-- The lines of the elements of a list stand at plain paths if those of each element do. -/
theorem path_plain_of_writeItems {item : Form α}
    (h : ∀ {path : Path} {a lines}, path.Plain → item.write path a = .ok lines →
      ∀ line ∈ lines, line.path.Plain) {path : Path} (hpath : path.Plain) {index : Nat} {vs : List α}
    {lines : List Line} (hwrite : item.writeItems path index vs = .ok lines) :
    ∀ line ∈ lines, line.path.Plain := by
  induction vs generalizing index lines with
  | nil =>
    cases hwrite
    exact fun line hline => absurd hline List.not_mem_nil
  | cons v vs ih =>
    rcases append_eq_ok.mp hwrite with ⟨front, back, hfront, hback, rfl⟩
    exact List.forall_mem_append.mpr ⟨h (hpath.item index) hfront, ih hback⟩

/-- Every line stands at a path of plain characters. -/
theorem path_plain (h : Composed lenient layout plain good) {path : Path} (hpath : path.Plain) {a : α}
    {lines : List Line} (hwrite : layout.form.write path a = .ok lines) :
    ∀ line ∈ lines, line.path.Plain := by
  induction h generalizing path lines with
  | line _ h =>
    intro line hline
    rw [h.path_eq_of_write hwrite line hline]
    exact hpath
  | under hname _ ih => exact ih (hpath.field hname) hwrite
  | map _ ih | delay _ ih | unread _ _ ih | congr _ _ _ ih => exact ih hpath hwrite
  | unit =>
    cases hwrite
    exact fun line hline => absurd hline List.not_mem_nil
  | pair _ _ ihfirst ihsecond =>
    rcases append_eq_ok.mp hwrite with ⟨front, back, hfront, hback, rfl⟩
    exact List.forall_mem_append.mpr ⟨ihfirst hpath hfront, ihsecond hpath hback⟩
  | sigma _ _ ihtag ihpayload =>
    rcases append_eq_ok.mp hwrite with ⟨front, back, hfront, hback, rfl⟩
    exact List.forall_mem_append.mpr ⟨ihtag hpath hfront, ihpayload _ hpath hback⟩
  | list max _ ih =>
    -- the line of the count, and those of the elements
    rcases append_eq_ok.mp hwrite with ⟨front, back, hfront, hback, rfl⟩
    refine List.forall_mem_append.mpr ⟨fun line hline => ?_, ?_⟩
    · have hat : line.path = path.field "len" := (LineLaw.count max).path_eq_of_write hfront line hline
      rw [hat]
      exact hpath.field rfl
    · exact path_plain_of_writeItems (fun hpath hwrite => ih hpath hwrite) hpath hback
  | option _ ih =>
    have hflag : ∀ {present lines}, (Form.bool.under "_present").write path present = .ok lines →
        ∀ line ∈ lines, line.path.Plain := by
      intro present lines hwrite line hline
      have hbool : LineLaw .bool .bool (fun _ => True) (fun _ => True) := .bool
      have hat : line.path = path.field "_present" := hbool.path_eq_of_write hwrite line hline
      rw [hat]
      exact hpath.field rfl
    cases a with
    | none => exact hflag hwrite
    | some a =>
      rcases append_eq_ok.mp hwrite with ⟨front, back, hfront, hback, rfl⟩
      exact List.forall_mem_append.mpr ⟨hflag hfront, ih hpath hback⟩
  | @either _ _ _ _ view left right mark _ _ _ _ _ _ _ _ _ _ _ _ _ ihleft ihright =>
    replace hwrite : (Form.either left.form mark right.form).write path (view.forth a) = .ok lines :=
      hwrite
    cases hc : view.forth a with
    | inl b =>
      rw [hc] at hwrite
      exact ihleft hpath hwrite
    | inr b =>
      rw [hc] at hwrite
      exact ihright hpath hwrite
  | empty hwriteEmpty =>
    rcases hwriteEmpty path a with ⟨e, he⟩
    replace hwrite : _ = Except.ok lines := he.symm.trans hwrite
    cases hwrite
  | @ofLevels _ levels depth _ _ least _ _ htower _ _ ih =>
    -- the lines are those of every level that is deep enough
    have hdeep : (levels (max (depth a) least)).form.write path a = .ok lines :=
      (htower.write_eq (Nat.le_max_left ..) path).trans hwrite
    exact ih _ (Nat.le_max_right ..) hpath hdeep

end Layout.Composed

end LedgerTx
