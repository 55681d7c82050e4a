import Mathlib.Data.List.Basic
import LedgerTx.Proofs.Layout.Composed

namespace LedgerTx

open Listing

/-! # Layouts around layouts

A recursive type is laid out by a step: from a layout of the values inside, it makes one of the values
around them.  `Layout.Nests` says what a step keeps of the values inside, so that its levels are a tower
for every measure of depth that counts them. -/

namespace Layout

/-- What a layout of values keeps of the layout of the values inside them.  The values around take
`growth` words and lines more than each value inside. -/
structure Nests {α β : Type} (growth : Nat) (inside : β → List α) (around : Layout α → Layout β) :
    Prop where
  wire_congr : ∀ {a b}, a.wire = b.wire → (around a).wire = (around b).wire
  read_congr : ∀ {a b}, a.form.read = b.form.read → (around a).form.read = (around b).form.read
  encode_congr : ∀ {a b v}, (∀ w ∈ inside v, a.wire.encode w = b.wire.encode w) →
    (around a).wire.encode v = (around b).wire.encode v
  fits_congr : ∀ {a b rules v}, (∀ w ∈ inside v, a.wire.fits rules w = b.wire.fits rules w) →
    (around a).wire.fits rules v = (around b).wire.fits rules v
  write_congr : ∀ {a b v}, (∀ w ∈ inside v, ∀ path, a.form.write path w = b.form.write path w) →
    ∀ path, (around a).form.write path v = (around b).form.write path v
  /-- Values that fit hold values that fit. -/
  fits_inside : ∀ {a rules v}, (around a).wire.fits rules v = true →
    ∀ w ∈ inside v, a.wire.fits rules w = true
  le_length : ∀ {a v}, 4 * growth ≤ ((around a).wire.encode v).length
  length_inside : ∀ {a v}, ∀ w ∈ inside v,
    4 * growth + (a.wire.encode w).length ≤ ((around a).wire.encode v).length
  le_lines : ∀ {a path v lines}, (around a).form.write path v = .ok lines → growth ≤ lines.length
  /-- Values that are written hold values that are written. -/
  write_inside : ∀ {a path v lines}, (around a).form.write path v = .ok lines →
    ∀ w ∈ inside v, ∃ place within,
      a.form.write place w = .ok within ∧ growth + within.length ≤ lines.length
  /-- Values that are read hold values that are read. -/
  read_inside : ∀ {a path entries v rest}, (around a).form.read path entries = .ok (v, rest) →
    ∀ w ∈ inside v, ∃ place more others, a.form.read place more = .ok (w, others)

namespace Nests

variable {α β γ κ : Type} {growth growth' : Nat} {inside : β → List α} {around : Layout α → Layout β}

/-! ## Items of lists -/

/-- Elements are written alike if each of them is. -/
theorem writeItems_congr {a b : Form β} {vs : List β}
    (h : ∀ v ∈ vs, ∀ path, a.write path v = b.write path v) (path : Path) (index : Nat) :
    a.writeItems path index vs = b.writeItems path index vs := by
  induction vs generalizing index with
  | nil => rfl
  | cons v vs ih =>
    have hothers := ih (fun w hw => h w (List.mem_cons_of_mem v hw)) (index + 1)
    unfold Form.writeItems
    rw [h v (List.mem_cons_self ..), hothers]

/-- Elements are read alike if single ones are. -/
theorem readItems_congr {a b : Form β} (h : a.read = b.read) : a.readItems = b.readItems := by
  funext path index count
  induction count generalizing index with
  | zero => rfl
  | succ count ih =>
    funext entries
    unfold Form.readItems
    rw [h, ih]

/-- What one element contributes is part of the whole. -/
theorem length_le_flatMap {γ : Type} (f : β → List γ) {v : β} {vs : List β} (h : v ∈ vs) :
    (f v).length ≤ (vs.flatMap f).length := by
  rcases List.append_of_mem h with ⟨front, back, rfl⟩
  rw [List.flatMap_append, List.flatMap_cons, List.length_append, List.length_append]
  omega

/-- Every item is written among the lines of all. -/
theorem exists_write_of_writeItems {form : Form β} {path : Path} {index : Nat} {vs : List β}
    {lines : List Line} (hwrite : form.writeItems path index vs = .ok lines) :
    ∀ v ∈ vs, ∃ place within, form.write place v = .ok within ∧ within.length ≤ lines.length := by
  induction vs generalizing index lines with
  | nil => exact fun v hv => absurd hv List.not_mem_nil
  | cons u vs ih =>
    rcases append_eq_ok.mp hwrite with ⟨front, back, hfront, hback, rfl⟩
    rw [List.length_append]
    -- the first element has the front lines, the others have theirs further back
    refine List.forall_mem_cons.mpr ⟨⟨_, front, hfront, by omega⟩, fun v hv => ?_⟩
    rcases ih hback v hv with ⟨place, within, hwithin, hlines⟩
    exact ⟨place, within, hwithin, by omega⟩

/-- Every item that is read comes from some entries. -/
theorem exists_read_of_readItems {form : Form β} {path : Path} {index count : Nat}
    {entries rest : List Entry} {vs : List β}
    (hread : form.readItems path index count entries = .ok (vs, rest)) :
    ∀ v ∈ vs, ∃ place more others, form.read place more = .ok (v, others) := by
  induction count generalizing index entries vs with
  | zero =>
    cases hread
    exact fun v hv => absurd hv List.not_mem_nil
  | succ count ih =>
    replace hread := Except.bind_eq_ok.mp hread
    rcases hread with ⟨⟨u, mid⟩, hu, hread⟩
    replace hread := Except.bind_eq_ok.mp hread
    rcases hread with ⟨⟨us, mid'⟩, hus, hread⟩
    cases hread
    -- the first item is read here, and the others by what is left to read
    exact List.forall_mem_cons.mpr ⟨⟨_, _, _, hu⟩, ih hus⟩

/-! ## Ways of putting layouts together -/

/-- The values inside themselves. -/
theorem self : Nests 0 (fun v : α => [v]) fun a => a where
  wire_congr h := h
  read_congr h := h
  encode_congr h := h _ (List.mem_singleton_self _)
  fits_congr h := h _ (List.mem_singleton_self _)
  write_congr h := h _ (List.mem_singleton_self _)
  fits_inside h w hw := by rwa [List.mem_singleton.mp hw]
  le_length := Nat.zero_le _
  length_inside w hw := by
    rw [List.mem_singleton.mp hw]
    omega
  le_lines _ := Nat.zero_le _
  write_inside h w hw := by
    rw [List.mem_singleton.mp hw]
    exact ⟨_, _, h, by omega⟩
  read_inside h w hw := by
    rw [List.mem_singleton.mp hw]
    exact ⟨_, _, _, h⟩

/-- Values with nothing inside. -/
theorem const (layout : Layout β) : Nests 0 (fun _ => ([] : List α)) fun _ => layout where
  wire_congr _ := rfl
  read_congr _ := rfl
  encode_congr _ := rfl
  fits_congr _ := rfl
  write_congr _ _ := rfl
  fits_inside _ _ hw := absurd hw List.not_mem_nil
  le_length := Nat.zero_le _
  length_inside _ hw := absurd hw List.not_mem_nil
  le_lines _ := Nat.zero_le _
  write_inside _ _ hw := absurd hw List.not_mem_nil
  read_inside _ _ hw := absurd hw List.not_mem_nil

/-- The values inside may be named in another order. -/
theorem congr (h : Nests growth inside around) {inside' : β → List α}
    (hinside : ∀ v w, w ∈ inside' v ↔ w ∈ inside v) : Nests growth inside' around where
  wire_congr := h.wire_congr
  read_congr := h.read_congr
  encode_congr hall := h.encode_congr fun w hw => hall w ((hinside _ w).mpr hw)
  fits_congr hall := h.fits_congr fun w hw => hall w ((hinside _ w).mpr hw)
  write_congr hall := h.write_congr fun w hw => hall w ((hinside _ w).mpr hw)
  fits_inside hfits w hw := h.fits_inside hfits w ((hinside _ w).mp hw)
  le_length := h.le_length
  length_inside w hw := h.length_inside w ((hinside _ w).mp hw)
  le_lines := h.le_lines
  write_inside hwrite w hw := h.write_inside hwrite w ((hinside _ w).mp hw)
  read_inside hread w hw := h.read_inside hread w ((hinside _ w).mp hw)

/-- A name changes the paths alone. -/
theorem under (h : Nests growth inside around) (name : String) :
    Nests growth inside fun a => (around a).under name where
  wire_congr := h.wire_congr
  read_congr hread := by
    show (fun (path : Path) entries => (around _).form.read (path.field name) entries) = fun _ _ => _
    rw [h.read_congr hread]
    rfl
  encode_congr := h.encode_congr
  fits_congr := h.fits_congr
  write_congr hall path := h.write_congr hall (path.field name)
  fits_inside := h.fits_inside
  le_length := h.le_length
  length_inside := h.length_inside
  le_lines hwrite := h.le_lines hwrite
  write_inside hwrite := h.write_inside hwrite
  read_inside hread := h.read_inside hread

/-- The values inside another form of a value are those inside the value. -/
theorem map (h : Nests growth inside around) (view : Bijection γ β) :
    Nests growth (fun c => inside (view.forth c)) fun a => (around a).map view where
  wire_congr hwire := congrArg (Codec.map view) (h.wire_congr hwire)
  read_congr hread := by
    show (fun path entries => (around _).form.read path entries >>= _) = fun _ _ => _
    rw [h.read_congr hread]
    rfl
  encode_congr := h.encode_congr
  fits_congr := h.fits_congr
  write_congr := h.write_congr
  fits_inside := h.fits_inside
  le_length := h.le_length
  length_inside := h.length_inside
  le_lines hwrite := h.le_lines hwrite
  write_inside hwrite := h.write_inside hwrite
  read_inside hread := by
    replace hread := Except.bind_eq_ok.mp hread
    rcases hread with ⟨⟨b, mid⟩, hb, hread⟩
    cases hread
    rw [view.forth_back]
    exact h.read_inside hb

/-- The values inside a pair are those inside its parts. -/
theorem pair {inside' : γ → List α} {around' : Layout α → Layout γ} (h : Nests growth inside around)
    (h' : Nests growth' inside' around') :
    Nests (growth + growth') (fun v => inside v.1 ++ inside' v.2)
      fun a => .pair (around a) (around' a) where
  wire_congr hwire := by
    show Codec.pair _ _ = Codec.pair _ _
    rw [h.wire_congr hwire, h'.wire_congr hwire]
  read_congr hread := by
    show (fun path entries => (around _).form.read path entries >>= fun r =>
      (around' _).form.read path r.2 >>= _) = fun _ _ => _
    rw [h.read_congr hread, h'.read_congr hread]
    rfl
  encode_congr hall := by
    rcases List.forall_mem_append.mp hall with ⟨hfirst, hsecond⟩
    show _ ++ _ = _ ++ _
    rw [h.encode_congr hfirst, h'.encode_congr hsecond]
  fits_congr hall := by
    rcases List.forall_mem_append.mp hall with ⟨hfirst, hsecond⟩
    show (_ && _) = (_ && _)
    rw [h.fits_congr hfirst, h'.fits_congr hsecond]
  write_congr hall path := by
    rcases List.forall_mem_append.mp hall with ⟨hfirst, hsecond⟩
    show ((around _).form.write path _ >>= fun _ => (around' _).form.write path _ >>= _) = _
    rw [h.write_congr hfirst path, h'.write_congr hsecond path]
    rfl
  fits_inside hfits := by
    rcases Bool.and_eq_true_iff.mp hfits with ⟨hfirst, hsecond⟩
    exact List.forall_mem_append.mpr ⟨h.fits_inside hfirst, h'.fits_inside hsecond⟩
  le_length {a v} := by
    have hfirst := h.le_length (a := a) (v := v.1)
    have hsecond := h'.le_length (a := a) (v := v.2)
    show _ ≤ (_ ++ _ : List UInt8).length
    rw [List.length_append]
    omega
  length_inside {a v} w hw := by
    show _ ≤ (_ ++ _ : List UInt8).length
    rw [List.length_append]
    -- hw | what is inside one part leaves room for the growth of the other
    rcases List.mem_append.mp hw with hw | hw
    · have hfirst := h.length_inside (a := a) w hw
      have hsecond := h'.le_length (a := a) (v := v.2)
      omega
    · have hfirst := h.le_length (a := a) (v := v.1)
      have hsecond := h'.length_inside (a := a) w hw
      omega
  le_lines hwrite := by
    rcases append_eq_ok.mp hwrite with ⟨front, back, hfront, hback, rfl⟩
    rw [List.length_append]
    exact Nat.add_le_add (h.le_lines hfront) (h'.le_lines hback)
  write_inside hwrite w hw := by
    rcases append_eq_ok.mp hwrite with ⟨front, back, hfront, hback, rfl⟩
    rw [List.length_append]
    rcases List.mem_append.mp hw with hw | hw
    · rcases h.write_inside hfront w hw with ⟨place, within, hwithin, hlines⟩
      have hmore := h'.le_lines hback
      exact ⟨place, within, hwithin, by omega⟩
    · rcases h'.write_inside hback w hw with ⟨place, within, hwithin, hlines⟩
      have hmore := h.le_lines hfront
      exact ⟨place, within, hwithin, by omega⟩
  read_inside hread := by
    replace hread := Except.bind_eq_ok.mp hread
    rcases hread with ⟨⟨x, mid⟩, hx, hread⟩
    replace hread := Except.bind_eq_ok.mp hread
    rcases hread with ⟨⟨y, mid'⟩, hy, hread⟩
    cases hread
    exact List.forall_mem_append.mpr ⟨h.read_inside hx, h'.read_inside hy⟩

/-- A tag before what is held takes a word and a line. -/
theorem sigma [Enumeration κ] {π : κ → Type} {inside : (k : κ) → π k → List α}
    {payload : Layout α → (k : κ) → Layout (π k)}
    (h : ∀ k, Nests 0 (inside k) fun a => payload a k) (name : String) :
    Nests 1 (fun v : Sigma π => inside v.1 v.2)
      fun a => .sigma (.under name (.constant κ)) (payload a) where
  wire_congr {a b} hwire := by
    have hpayload : (fun k => (payload a k).wire) = fun k => (payload b k).wire :=
      funext fun k => (h k).wire_congr hwire
    exact congrArg (Codec.sigma (.constant κ)) hpayload
  -- the tag is read the same whatever the payloads hold inside
  read_congr hread := by
    funext path entries
    unfold Layout.sigma Form.sigma
    simp only [fun k => (h k).read_congr hread]
  encode_congr hall := by
    show _ ++ _ = _ ++ _
    rw [(h _).encode_congr hall]
  fits_congr hall := (h _).fits_congr hall
  write_congr {a b v} hall path := by
    show (_ >>= fun _ => (payload a v.1).form.write path v.2 >>= _) = _
    rw [(h v.1).write_congr hall path]
    rfl
  fits_inside hfits := (h _).fits_inside hfits
  -- the word of the tag makes up for the growth
  le_length {a v} := by
    show _ ≤ (Codec.int32.encode _ ++ _).length
    rw [List.length_append, Codec.Composed.length_int32_encode]
    omega
  length_inside {a v} w hw := by
    have hpayload := (h v.1).length_inside (a := a) w hw
    show _ ≤ (Codec.int32.encode _ ++ (payload a v.1).wire.encode v.2).length
    rw [List.length_append, Codec.Composed.length_int32_encode]
    omega
  le_lines hwrite := by
    rcases append_eq_ok.mp hwrite with ⟨front, back, hfront, hback, rfl⟩
    cases hfront
    exact Nat.succ_le_succ (Nat.zero_le _)
  -- and so does its line
  write_inside {a path v lines} hwrite w hw := by
    rcases append_eq_ok.mp hwrite with ⟨front, back, hfront, hback, rfl⟩
    cases hfront
    rcases (h v.1).write_inside hback w hw with ⟨place, within, hwithin, hlines⟩
    refine ⟨place, within, hwithin, ?_⟩
    rw [List.length_append, List.length_singleton]
    omega
  read_inside hread := by
    replace hread := Except.bind_eq_ok.mp hread
    rcases hread with ⟨⟨k, mid⟩, -, hread⟩
    replace hread := Except.bind_eq_ok.mp hread
    rcases hread with ⟨⟨b, mid'⟩, hb, hread⟩
    cases hread
    -- the tag that was read says which payload holds the value
    exact (h k).read_inside hb

/-- A union: the tag and then what the tag says, with what is inside the value that they make up. -/
theorem union [Enumeration κ] {π : κ → Type} {view : Bijection γ (Sigma π)} {inside : γ → List α}
    {payload : Layout α → (k : κ) → Layout (π k)}
    (h : ∀ k, Nests 0 (fun b => inside (view.back ⟨k, b⟩)) fun a => payload a k) (name : String) :
    Nests 1 inside fun a => .map view (.sigma (.under name (.constant κ)) (payload a)) := by
  refine ((sigma h name).map view).congr fun c w => ?_
  show _ ↔ w ∈ inside (view.back (view.forth c))
  rw [view.back_forth]

/-- The values inside a list are those inside its elements. -/
theorem list (h : Nests 0 inside around) (max : Nat) :
    Nests 0 (fun vs => vs.flatMap inside) fun a => .list max (around a) where
  wire_congr hwire := congrArg (Codec.list max) (h.wire_congr hwire)
  read_congr hread := by
    unfold Layout.list Form.list
    simp only [readItems_congr (h.read_congr hread)]
  encode_congr hall := by
    show _ ++ _ = _ ++ _
    rw [List.flatMap_congr fun v hv =>
      h.encode_congr fun w hw => hall w (List.mem_flatMap_of_mem hv hw)]
  -- the number of elements is compared before and apart from them
  fits_congr {a b rules vs} hall := by
    have hitem : ∀ v ∈ vs, (around a).wire.fits rules v = (around b).wire.fits rules v :=
      fun v hv => h.fits_congr fun w hw => hall w (List.mem_flatMap_of_mem hv hw)
    have hitems : vs.all ((around a).wire.fits rules) = vs.all ((around b).wire.fits rules) := by
      rw [Bool.eq_iff_iff, List.all_eq_true, List.all_eq_true]
      exact forall₂_congr fun v hv => by rw [hitem v hv]
    show (_ && _) = (_ && _)
    rw [hitems]
  write_congr {a b vs} hall path := by
    have hitems := writeItems_congr
      (fun v hv => h.write_congr fun w hw => hall w (List.mem_flatMap_of_mem hv hw)) path 0
    unfold Layout.list Form.list
    simp only [hitems]
  fits_inside hfits w hw := by
    rcases List.mem_flatMap.mp hw with ⟨v, hv, hw⟩
    have hitems := List.all_eq_true.mp (Bool.and_eq_true_iff.mp hfits).2
    exact h.fits_inside (hitems v hv) w hw
  le_length := Nat.zero_le _
  -- an element is no longer than all elements together
  length_inside {a vs} w hw := by
    rcases List.mem_flatMap.mp hw with ⟨v, hv, hw⟩
    have hitem := h.length_inside (a := a) w hw
    have hitems := length_le_flatMap (around a).wire.encode hv
    show _ ≤ (_ ++ _ : List UInt8).length
    rw [List.length_append]
    omega
  le_lines _ := Nat.zero_le _
  write_inside hwrite w hw := by
    rcases List.mem_flatMap.mp hw with ⟨v, hv, hw⟩
    rcases append_eq_ok.mp hwrite with ⟨front, back, hfront, hback, rfl⟩
    -- the element that holds the value was written at a place of its own
    rcases exists_write_of_writeItems hback v hv with ⟨place, within, hwithin, hlines⟩
    rcases h.write_inside hwithin w hw with ⟨place', within', hwithin', hlines'⟩
    refine ⟨place', within', hwithin', ?_⟩
    rw [List.length_append]
    omega
  read_inside hread w hw := by
    rcases List.mem_flatMap.mp hw with ⟨v, hv, hw⟩
    replace hread := Except.bind_eq_ok.mp hread
    rcases hread with ⟨⟨n, mid⟩, -, hread⟩
    -- and it was read at one
    rcases exists_read_of_readItems hread v hv with ⟨place, more, others, hv⟩
    exact h.read_inside hv w hw

/-- What is inside an optional value is inside the value that there is. -/
theorem exists_of_mem_option {o : Option β} {w : α} (h : w ∈ o.toList.flatMap inside) :
    ∃ v, o = some v ∧ w ∈ inside v := by
  rcases List.mem_flatMap.mp h with ⟨v, hv, hw⟩
  exact ⟨v, Option.mem_toList.mp hv, hw⟩

/-- The values inside an option are those inside its value, if there is one. -/
theorem option (h : Nests 0 inside around) :
    Nests 0 (fun o => o.toList.flatMap inside) fun a => .option (around a) where
  wire_congr hwire := congrArg Codec.option (h.wire_congr hwire)
  read_congr hread := by
    unfold Layout.option Form.option
    simp only [h.read_congr hread]
  encode_congr {a b o} hall := by
    cases o with
    | none => rfl
    | some v =>
      show _ ++ _ = _ ++ _
      rw [h.encode_congr fun w hw => hall w (List.mem_flatMap_of_mem (List.mem_singleton_self v) hw)]
  fits_congr {a b rules o} hall := by
    cases o with
    | none => rfl
    | some v =>
      exact h.fits_congr fun w hw => hall w (List.mem_flatMap_of_mem (List.mem_singleton_self v) hw)
  write_congr {a b o} hall path := by
    cases o with
    | none => rfl
    | some v =>
      have hv := h.write_congr (fun w hw =>
        hall w (List.mem_flatMap_of_mem (List.mem_singleton_self v) hw)) path
      unfold Layout.option Form.option
      simp only [hv]
  -- from here on there is a value, since something is inside it
  fits_inside {a rules o} hfits w hw := by
    rcases exists_of_mem_option hw with ⟨v, rfl, hv⟩
    exact h.fits_inside hfits w hv
  le_length := Nat.zero_le _
  length_inside {a o} w hw := by
    rcases exists_of_mem_option hw with ⟨v, rfl, hv⟩
    have hitem := h.length_inside (a := a) w hv
    show _ ≤ (_ ++ (around a).wire.encode v).length
    rw [List.length_append]
    omega
  le_lines _ := Nat.zero_le _
  write_inside {a path o lines} hwrite w hw := by
    rcases exists_of_mem_option hw with ⟨v, rfl, hv⟩
    rcases append_eq_ok.mp hwrite with ⟨front, back, hfront, hback, rfl⟩
    rcases h.write_inside hback w hv with ⟨place, within, hwithin, hlines⟩
    refine ⟨place, within, hwithin, ?_⟩
    rw [List.length_append]
    omega
  read_inside {a path entries o rest} hread w hw := by
    rcases exists_of_mem_option hw with ⟨v, rfl, hv⟩
    replace hread := Except.bind_eq_ok.mp hread
    rcases hread with ⟨⟨present, mid⟩, -, hread⟩
    -- without a mark nothing would have been read
    cases present with
    | false => cases hread
    | true =>
      replace hread := Except.bind_eq_ok.mp hread
      rcases hread with ⟨⟨u, mid'⟩, hu, hread⟩
      cases hread
      exact h.read_inside hu w hv

end Nests

end Layout

end LedgerTx
