import LedgerTx.Layout.Basic
import LedgerTx.Proofs.Listing.Alike

namespace LedgerTx

open Listing

/-! # Lines in order

`Layout.OrderlyAt` says of a layout that no two lines of a value clash, and that readers who are given
other entries of the same lines read alike.  It compares two layouts, since what is read with more levels
of a recursive type is compared with what is read with fewer.  Layouts that are put together keep the law
if their parts stand at places that are apart. -/

/-! ## Where lines stand -/

/-- Lines below a path that do not clash, at the given places as seen from there. -/
structure Listing.Stand (path : Path) (places : Place → Prop) (lines : List Line) : Prop where
  below : ∀ line ∈ lines, ∃ more, line.path.steps = path.steps ++ more ∧ (∀ step ∈ more, step.Proper)
    ∧ places (.of more)
  apart : lines.Pairwise fun line other => ¬Clash line.path.steps other.path.steps

namespace Listing.Stand

variable {path : Path} {places places' : Place → Prop} {lines lines' : List Line}

theorem nil : Stand path places [] :=
  ⟨fun _ hline => absurd hline List.not_mem_nil, .nil⟩

theorem singleton {value : List Char} : Stand path (· ∈ [Place.itself]) [⟨path, value⟩] := by
  refine ⟨fun line hline => ?_, List.pairwise_singleton _ _⟩
  rw [List.mem_singleton.mp hline]
  exact ⟨[], (List.append_nil _).symm, fun step hstep => absurd hstep List.not_mem_nil,
    List.mem_singleton_self _⟩

theorem mono (h : Stand path places lines) (hplaces : ∀ place, places place → places' place) :
    Stand path places' lines := by
  refine ⟨fun line hline => ?_, h.apart⟩
  obtain ⟨more, hmore, hproper, hplace⟩ := h.below line hline
  exact ⟨more, hmore, hproper, hplaces _ hplace⟩

/-- Lines at places that are apart, one after the other. -/
theorem append (h : Stand path places lines) (h' : Stand path places' lines')
    (hapart : ∀ place, places place → ∀ other, places' other → place.Apart other) :
    Stand path (fun place => places place ∨ places' place) (lines ++ lines') := by
  constructor
  · exact List.forall_mem_append.mpr
      ⟨(h.mono fun _ => Or.inl).below, (h'.mono fun _ => Or.inr).below⟩
  -- lines of the two parts do not clash since their places are apart
  · refine List.pairwise_append.mpr ⟨h.apart, h'.apart, fun line hline other hother => ?_⟩
    obtain ⟨more, hmore, -, hplace⟩ := h.below line hline
    obtain ⟨more', hmore', -, hplace'⟩ := h'.below other hother
    rw [hmore, hmore', clash_append_iff]
    exact (hapart _ hplace _ hplace').not_clash

/-- The lines of a named part, as seen from the whole. -/
theorem of_field {name : String} (hname : Form.isPlain name.toList = true)
    (h : Stand (path.field name) places lines) : Stand path (· ∈ [Place.part name]) lines := by
  refine ⟨fun line hline => ?_, h.apart⟩
  obtain ⟨more, hmore, hproper, -⟩ := h.below line hline
  refine ⟨.field name :: more, ?_, List.forall_mem_cons.mpr ⟨hname, hproper⟩, List.mem_singleton_self _⟩
  rw [hmore]
  exact List.append_assoc ..

end Listing.Stand

/-- What is left to read of an option, once its mark is known. -/
def Form.readMarked {α : Type} (item : Form α) (path : Path) (present : Bool) : Reader (Option α) :=
  fun entries =>
    if present then do
      let (a, entries) ← item.read path entries
      return (some a, entries)
    else
      return (none, entries)

/-! ## The law -/

/-- The lines that the first layout writes do not clash and stand at the given places, and both layouts
read alike. -/
structure Layout.OrderlyAt {α : Type} (places : Place → Prop) (first second : Layout α) : Prop where
  stand : ∀ ⦃path a lines⦄, first.form.write path a = .ok lines → Stand path places lines
  alike : ∀ ⦃path⦄, path.Proper → ReadAlike (first.form.read path) (second.form.read path)

/-- The law for values that an option may hold: none of their lines stands where the option has its
mark. -/
def Layout.Orderly {α : Type} (first second : Layout α) : Prop :=
  OrderlyAt (fun place => (Place.part "_present").Apart place) first second

namespace Layout

variable {α β κ : Type} {places places' : Place → Prop} {first second : Layout α}

namespace OrderlyAt

/-- The law holds of more places than the lines need. -/
theorem mono (h : OrderlyAt places first second) (hplaces : ∀ place, places place → places' place) :
    OrderlyAt places' first second :=
  ⟨fun _ _ _ hwrite => (h.stand hwrite).mono hplaces, h.alike⟩

theorem under {name : String} (h : OrderlyAt places first second)
    (hname : Form.isPlain name.toList = true) :
    OrderlyAt (· ∈ [Place.part name]) (first.under name) (second.under name) :=
  ⟨fun _ _ _ hwrite => (h.stand hwrite).of_field hname, fun _ hpath => h.alike (hpath.field hname)⟩

theorem map {view : Bijection β α} (h : OrderlyAt places first second) :
    OrderlyAt places (first.map view) (second.map view) :=
  ⟨fun _ _ _ hwrite => h.stand hwrite, fun _ hpath => (h.alike hpath).map view.back⟩

/-- A layout that is put off until it is needed is orderly if it is then. -/
theorem delay {layout layout' : Unit → Layout α} (h : OrderlyAt places (layout ()) (layout' ())) :
    OrderlyAt places (.delay layout) (.delay layout') :=
  ⟨fun _ _ _ hwrite => h.stand hwrite, fun _ hpath => h.alike hpath⟩

/-- Two layouts at places that are apart, one after the other. -/
theorem pair {other other' : Layout β} (h : OrderlyAt places first second)
    (hother : OrderlyAt places' other other')
    (hapart : ∀ place, places place → ∀ next, places' next → place.Apart next) :
    OrderlyAt (fun place => places place ∨ places' place) (.pair first other) (.pair second other') := by
  refine ⟨fun path v lines hwrite => ?_, fun path hpath => ?_⟩
  · obtain ⟨front, back, hfront, hback, rfl⟩ := append_eq_ok.mp hwrite
    exact (h.stand hfront).append (hother.stand hback) hapart
  · exact (h.alike hpath).bind fun a => (hother.alike hpath).map fun b => (a, b)

/-- A tag says which payload is read, and both readers read the same tag. -/
theorem sigma {π : κ → Type} {tag tag' : Layout κ} {payload payload' : (k : κ) → Layout (π k)}
    (htag : OrderlyAt places tag tag') (hpayload : ∀ k, OrderlyAt places' (payload k) (payload' k))
    (hapart : ∀ place, places place → ∀ next, places' next → place.Apart next) :
    OrderlyAt (fun place => places place ∨ places' place) (.sigma tag payload)
      (.sigma tag' payload') := by
  refine ⟨fun path v lines hwrite => ?_, fun path hpath => ?_⟩
  · obtain ⟨front, back, hfront, hback, rfl⟩ := append_eq_ok.mp hwrite
    exact (htag.stand hfront).append ((hpayload v.1).stand hback) hapart
  · exact (htag.alike hpath).bind fun k => ((hpayload k).alike hpath).map fun b => (⟨k, b⟩ : Sigma π)

/-- Whether there is a value, and the value. -/
theorem option (h : Orderly first second) :
    OrderlyAt (fun _ => True) (.option first) (.option second) := by
  have hpresent : ∀ {path : Path} {present : Bool} {lines : List Line},
      Form.bool.write (path.field "_present") present = .ok lines →
        Stand path (· ∈ [Place.part "_present"]) lines := by
    intro path present lines hwrite
    obtain ⟨value, rfl⟩ := Form.Single.token.write_eq_ok hwrite
    exact Stand.of_field rfl .singleton
  refine ⟨fun path o lines hwrite => ?_, fun path hpath => ?_⟩
  · cases o with
    | none => exact (hpresent hwrite).mono fun _ _ => trivial
    | some a =>
      obtain ⟨front, back, hfront, hback, rfl⟩ := append_eq_ok.mp hwrite
      refine Stand.mono ((hpresent hfront).append (h.stand hback) ?_) fun _ _ => trivial
      intro place hplace next hnext
      rw [List.mem_singleton.mp hplace]
      exact hnext
  · have hflag : ReadAlike (Form.bool.read (path.field "_present"))
        (Form.bool.read (path.field "_present")) := Form.Single.token.readAlike
    -- both readers find the same mark, so both go on or stop
    have hmarked : ∀ present, ReadAlike (first.form.readMarked path present)
        (second.form.readMarked path present) := by
      intro present
      cases present with
      | true => exact (h.alike hpath).map some
      | false => exact .pure none
    exact hflag.bind hmarked

end OrderlyAt

/-! ## Named parts -/

/-- Plain names of which no two are the same. -/
def DistinctNames (names : List String) : Prop :=
  names.Nodup ∧ ∀ name ∈ names, Form.isPlain name.toList = true

instance (names : List String) : Decidable (DistinctNames names) := by
  unfold DistinctNames
  infer_instance

theorem DistinctNames.left {names others : List String} (h : DistinctNames (names ++ others)) :
    DistinctNames names :=
  ⟨(List.nodup_append.mp h.1).1, fun name hname => h.2 name (List.mem_append_left _ hname)⟩

theorem DistinctNames.right {names others : List String} (h : DistinctNames (names ++ others)) :
    DistinctNames others :=
  ⟨(List.nodup_append.mp h.1).2.1, fun name hname => h.2 name (List.mem_append_right _ hname)⟩

/-- Parts of different names are apart. -/
theorem DistinctNames.apart {names others : List String} (h : DistinctNames (names ++ others)) :
    ∀ place, place ∈ names.map Place.part → ∀ next, next ∈ others.map Place.part →
      place.Apart next := by
  intro place hplace next hnext
  obtain ⟨name, hname, rfl⟩ := List.mem_map.mp hplace
  obtain ⟨other, hother, rfl⟩ := List.mem_map.mp hnext
  exact Place.apart_part ((List.nodup_append.mp h.1).2.2 name hname other hother)

/-- Lines in parts of the given names, orderly if the names are distinct. -/
def Fields {α : Type} (names : List String) (first second : Layout α) : Prop :=
  DistinctNames names → OrderlyAt (· ∈ names.map Place.part) first second

namespace Fields

variable {name : String} {names others : List String}

theorem unit : Fields [] Layout.unit Layout.unit := by
  refine fun _ => ⟨fun path a lines hwrite => ?_, fun path _ => .pure ()⟩
  cases hwrite
  exact .nil

theorem under (h : OrderlyAt places first second) : Fields [name] (first.under name) (second.under name) :=
  fun hnames => h.under (hnames.2 name (List.mem_singleton_self name))

/-- Parts of some names before parts of others. -/
theorem pair {other other' : Layout β} (h : Fields names first second)
    (hother : Fields others other other') :
    Fields (names ++ others) (.pair first other) (.pair second other') := by
  intro hnames
  refine ((h hnames.left).pair (hother hnames.right) hnames.apart).mono fun place hplace => ?_
  rw [List.map_append]
  exact List.mem_append.mpr hplace

/-- A named part before parts of other names. -/
theorem field {other other' : Layout β} (h : OrderlyAt places first second)
    (hother : Fields names other other') :
    Fields (name :: names) (.field name first other) (.field name second other') :=
  (under h).pair hother

theorem map {view : Bijection β α} (h : Fields names first second) :
    Fields names (first.map view) (second.map view) :=
  fun hnames => (h hnames).map

/-- What is written under the names of the tag decides which of the other parts there are. -/
theorem sigma {π : κ → Type} {tag tag' : Layout κ} {payload payload' : (k : κ) → Layout (π k)}
    (htag : Fields names tag tag') (hpayload : ∀ k, Fields others (payload k) (payload' k)) :
    Fields (names ++ others) (.sigma tag payload) (.sigma tag' payload') := by
  intro hnames
  refine ((htag hnames.left).sigma (fun k => hpayload k hnames.right) hnames.apart).mono ?_
  intro place hplace
  rw [List.map_append]
  exact List.mem_append.mpr hplace

/-- Fewer parts are orderly if more would be. -/
theorem sublist (h : Fields names first second) (hsub : names.Sublist others) :
    Fields others first second := by
  intro hnames
  have hfewer : DistinctNames names :=
    ⟨hsub.nodup hnames.1, fun name hname => hnames.2 name (hsub.subset hname)⟩
  exact (h hfewer).mono fun place hplace => (hsub.map Place.part).subset hplace

end Fields

/-- What follows the tag of a union: parts of which none has the name of the tag. -/
def FollowsTag {α : Type} (first second : Layout α) : Prop :=
  ∃ names, Fields names first second ∧ DistinctNames ("_present" :: "type" :: names)

/-- A tag may stand alone. -/
theorem FollowsTag.unit : FollowsTag Layout.unit Layout.unit :=
  ⟨[], .unit, by decide⟩

/-- One named part may follow a tag, unless it has the tag's own name. -/
theorem FollowsTag.under {name : String} (h : OrderlyAt places first second)
    (hname : DistinctNames ["_present", "type", name]) :
    FollowsTag (first.under name) (second.under name) :=
  ⟨[name], .under h, hname⟩

/-! ## Values that an option may hold -/

namespace OrderlyAt

/-- A value of one line, which stands at the path itself. -/
theorem line {codec : Codec α} {form : Form α} (h : form.Single) :
    Orderly ⟨codec, form⟩ ⟨codec, form⟩ := by
  refine ⟨fun path a lines hwrite => ?_, fun path _ => h.readAlike⟩
  obtain ⟨value, rfl⟩ := h.write_eq_ok hwrite
  exact Stand.singleton.mono (by decide)

/-- A record of distinct parts, none of which has the name of the mark. -/
theorem record {names : List String} (h : Fields names first second)
    (hnames : DistinctNames ("_present" :: names)) : Orderly first second := by
  have happend : DistinctNames (["_present"] ++ names) := hnames
  exact (h happend.right).mono (happend.apart _ (List.mem_singleton_self _))

/-- A union is its tag and, at other places, what the tag says. -/
theorem union {π : κ → Type} {view : Bijection β (Sigma π)} {tag tag' : Layout κ}
    {payload payload' : (k : κ) → Layout (π k)} (htag : OrderlyAt places tag tag')
    (hpayload : ∀ k, FollowsTag (payload k) (payload' k)) :
    Orderly (.map view (.sigma (tag.under "type") payload))
      (.map view (.sigma (tag'.under "type") payload')) := by
  -- whatever the tag says, the payload stands beside the tag and any mark
  have hbeside : ∀ k, OrderlyAt
      (fun next => (Place.part "type").Apart next ∧ (Place.part "_present").Apart next) (payload k)
      (payload' k) := by
    intro k
    obtain ⟨names, hfields, hnames⟩ := hpayload k
    have happend : DistinctNames (["_present", "type"] ++ names) := hnames
    refine (hfields happend.right).mono fun next hnext => ⟨?_, ?_⟩
    · exact happend.apart _ (List.mem_cons_of_mem _ (List.mem_cons_self ..)) next hnext
    · exact happend.apart _ (List.mem_cons_self ..) next hnext
  refine ((htag.under rfl).sigma hbeside ?_).map.mono ?_
  · intro place hplace next hnext
    rw [List.mem_singleton.mp hplace]
    exact hnext.1
  · intro place hplace
    rcases hplace with htype | hnext
    · rw [List.mem_singleton.mp htype]
      decide
    · exact hnext.2

/-! ## Lists -/

/-- Both readers read the same elements, one after the other. -/
theorem readItems_alike (h : OrderlyAt places first second) {path : Path} (hpath : path.Proper)
    (index count : Nat) :
    ReadAlike (first.form.readItems path index count) (second.form.readItems path index count) := by
  induction count generalizing index with
  | zero => exact .pure []
  | succ count ih =>
    exact (h.alike (hpath.item index)).bind fun a => (ih (index + 1)).map fun rest => a :: rest

/-- Lines of different elements do not clash, since their indices differ. -/
theorem writeItems_stand (h : OrderlyAt places first second) {path : Path} {index : Nat} {vs : List α}
    {lines : List Line} (hwrite : first.form.writeItems path index vs = .ok lines) :
    (∀ line ∈ lines, ∃ i more, index ≤ i ∧ line.path.steps = path.steps ++ .item i :: more
        ∧ ∀ step ∈ more, step.Proper)
      ∧ lines.Pairwise fun line other => ¬Clash line.path.steps other.path.steps := by
  induction vs generalizing index lines with
  | nil =>
    cases hwrite
    exact ⟨fun line hline => absurd hline List.not_mem_nil, .nil⟩
  | cons v vs ih =>
    obtain ⟨front, back, hfront, hback, rfl⟩ := append_eq_ok.mp hwrite
    obtain ⟨hbelow, hapart⟩ := ih hback
    have hfirst := h.stand hfront
    have hitem : ∀ line ∈ front, ∃ more, line.path.steps = path.steps ++ .item index :: more
        ∧ ∀ step ∈ more, step.Proper := by
      intro line hline
      obtain ⟨more, hmore, hproper, -⟩ := hfirst.below line hline
      exact ⟨more, hmore.trans (List.append_assoc ..), hproper⟩
    constructor
    · refine List.forall_mem_append.mpr ⟨fun line hline => ?_, fun line hline => ?_⟩
      · obtain ⟨more, hmore, hproper⟩ := hitem line hline
        exact ⟨index, more, Nat.le_refl _, hmore, hproper⟩
      · obtain ⟨i, more, hi, hmore, hproper⟩ := hbelow line hline
        exact ⟨i, more, Nat.le_of_succ_le hi, hmore, hproper⟩
    · refine List.pairwise_append.mpr ⟨hfirst.apart, hapart, fun line hline other hother => ?_⟩
      obtain ⟨more, hmore, -⟩ := hitem line hline
      obtain ⟨i, more', hi, hmore', -⟩ := hbelow other hother
      rw [hmore, hmore', clash_append_iff]
      intro hclash
      -- a clash would give both lines the same index
      cases hclash.head_eq
      exact absurd hi (Nat.not_succ_le_self _)

/-- A list is its count and, at places of their own, its elements. -/
theorem list (h : OrderlyAt places first second) (max : Nat) :
    Orderly (.list max first) (.list max second) := by
  refine ⟨fun path vs lines hwrite => ?_, fun path hpath => ?_⟩
  · obtain ⟨front, back, hfront, hback, rfl⟩ := append_eq_ok.mp hwrite
    replace hfront : (Form.count max).write (path.field "len") vs.length = .ok front := hfront
    obtain ⟨value, rfl⟩ := Form.Single.count.write_eq_ok hfront
    have hlen : Stand path (· ∈ [Place.part "len"]) [⟨path.field "len", value⟩] :=
      Stand.of_field rfl .singleton
    obtain ⟨hbelow, hapart⟩ := h.writeItems_stand hback
    have hitems : Stand path (· ∈ [Place.item]) back := by
      refine ⟨fun line hline => ?_, hapart⟩
      obtain ⟨i, more, -, hmore, hproper⟩ := hbelow line hline
      exact ⟨.item i :: more, hmore, List.forall_mem_cons.mpr ⟨trivial, hproper⟩, List.mem_singleton_self _⟩
    refine (hlen.append hitems (by decide)).mono fun place hplace => ?_
    rcases hplace with hcount | hitem
    · rw [List.mem_singleton.mp hcount]
      decide
    · rw [List.mem_singleton.mp hitem]
      decide
  · have hlen : ReadAlike ((Form.count max).read (path.field "len"))
        ((Form.count max).read (path.field "len")) := Form.Single.count.readAlike
    exact hlen.bind fun n => h.readItems_alike hpath 0 n

/-! ## A value on one line or in parts -/

/-- The only form of which the reader looks at the next path before it names one.  If one reader found
the tag and the other a value, the entries would not be concordant. -/
theorem either {γ : Type} {codec : Codec γ} {view : Bijection γ (α ⊕ β)} {plain : Form α}
    {right : Layout β} (hplain : plain.Single) (hright : Orderly right right) :
    Orderly ⟨codec, .map view (.either plain "type" right.form)⟩
      ⟨codec, .map view (.either plain "type" right.form)⟩ := by
  refine ⟨fun path c lines hwrite => ?_, fun path hpath => ?_⟩
  · replace hwrite : (Form.either plain "type" right.form).write path (view.forth c) = .ok lines := hwrite
    cases hc : view.forth c with
    | inl a =>
      rw [hc] at hwrite
      obtain ⟨value, rfl⟩ := hplain.write_eq_ok hwrite
      exact Stand.singleton.mono (by decide)
    | inr b =>
      rw [hc] at hwrite
      exact hright.stand hwrite
  · exact (hplain.either_readAlike hpath (hright.alike hpath)).map view.back

/-! ## Recursive types -/

/-- The level of no values. -/
theorem empty {form : Form α} (hwrite : ∀ path a, ∃ e, form.write path a = .error e)
    (hread : ∀ path entries, ∃ e, form.read path entries = .error e) (codec : Codec α) :
    OrderlyAt places ⟨codec, form⟩ second := by
  refine ⟨fun path a lines hwritten => ?_, fun path _ => .of_fails_left (hread path)⟩
  obtain ⟨e, he⟩ := hwrite path a
  replace hwritten : _ = Except.ok lines := he.symm.trans hwritten
  cases hwritten

/-- What a step keeps, every two levels keep: where the levels of one reader end, it fails. -/
theorem level {step : Layout α → Layout α}
    (hstep : ∀ {first second}, OrderlyAt places first second → OrderlyAt places (step first) (step second))
    (cause : LineError) (n m : Nat) :
    OrderlyAt places (Layout.level cause step n) (Layout.level cause step m) := by
  induction n generalizing m with
  | zero => exact .empty (fun _ _ => ⟨_, rfl⟩) (fun _ _ => ⟨_, rfl⟩) _
  | succ n ih =>
    -- the step keeps the law at each level, so both numbers go down together
    cases m with
    | zero =>
      have hself : OrderlyAt places (Layout.level cause step (n + 1)) (Layout.level cause step (n + 1)) :=
        hstep (.delay (ih n))
      exact ⟨hself.stand, fun path _ => .of_fails_right fun entries => ⟨_, rfl⟩⟩
    | succ m => exact hstep (.delay (ih m))

/-- A recursive type is orderly if its step keeps the law. -/
theorem recursive {step : Layout α → Layout α}
    (hstep : ∀ {first second}, OrderlyAt places first second → OrderlyAt places (step first) (step second))
    (depth : α → Nat) :
    OrderlyAt places (Layout.recursive depth step) (Layout.recursive depth step) := by
  have hlevel := level hstep .missingLine
  refine ⟨fun path a lines hwrite => (hlevel (depth a) 0).stand hwrite, fun path hpath => ?_⟩
  -- each reader counts its levels by its own entries
  intro entries others a b left left' hconcordant hfirst hsecond
  exact (hlevel (entries.length + 1) (others.length + 1)).alike hpath hconcordant hfirst hsecond

/-- A bound on the levels that are read changes nothing about the law. -/
theorem recursiveUpTo {step : Layout α → Layout α}
    (hstep : ∀ {first second}, OrderlyAt places first second → OrderlyAt places (step first) (step second))
    (max : Nat) (cause : LineError) (depth : α → Nat) :
    OrderlyAt places (Layout.recursiveUpTo max cause depth step)
      (Layout.recursiveUpTo max cause depth step) := by
  have hlevel := level hstep cause
  exact ⟨fun path a lines hwrite => (hlevel (depth a) 0).stand hwrite, (hlevel max max).alike⟩

end OrderlyAt

end Layout

end LedgerTx
