import LedgerTx.Proofs.Layout.Composed
import LedgerTx.Proofs.Listing.Alike

namespace LedgerTx

open Listing

/-! # Layouts that agree on short inputs

The levels of a recursive type differ only where the lower one ends.  Each level takes a word and a line
before it comes to the next one, so on inputs of fewer words or lines than there are levels two numbers of
levels read the same, errors included. -/

variable {α β κ : Type} {least least' n m : Nat}

/-! ## What single reads take -/

namespace Form

theorem Single.takes {form : Form α} (h : form.Single) (path : Path) : Takes 1 (form.read path) := by
  intro entries a rest hread
  obtain ⟨entry, rfl, -⟩ := h.head_path hread
  exact ⟨List.suffix_cons _ _, Nat.le_refl _⟩

theorem takes_count (max : Nat) (path : Path) : Takes 1 ((count max).read path) :=
  Single.count.takes path

theorem takes_bool (path : Path) : Takes 1 (bool.read path) :=
  Single.token.takes path

theorem takes_constant (κ : Type) [Enumeration κ] (path : Path) : Takes 1 ((constant κ).read path) :=
  Single.named.takes path

/-- `count` elements take `count` times what each takes at least. -/
theorem takes_readItems {item : Form α} (h : ∀ path, Takes least (item.read path)) (path : Path)
    (index count : Nat) : Takes (least * count) (item.readItems path index count) := by
  induction count generalizing index with
  | zero => exact .pure []
  | succ count ih =>
    rw [Nat.mul_succ, Nat.add_comm]
    exact (h _).bind fun a => (ih (index + 1)).map fun rest => a :: rest

theorem takes_list {item : Form α} (h : ∀ path, Takes 0 (item.read path)) (max : Nat) (path : Path) :
    Takes 1 ((list max item).read path) :=
  (takes_count max (path.field "len")).bind fun n =>
    (takes_readItems h path 0 n).mono (Nat.zero_le _)

/-- An option takes the line of its mark at least. -/
theorem takes_option {item : Form α} (h : ∀ path, Takes 0 (item.read path)) (path : Path) :
    Takes 1 ((option item).read path) :=
  (takes_bool (path.field "_present")).bind (h path).readPresent

/-- What is on one line or in parts leaves the end of what was there. -/
theorem takes_either {plain : Form α} {inParts : Form β} (h : ∀ path, Takes 0 (plain.read path))
    (hinParts : ∀ path, Takes 0 (inParts.read path)) (mark : String) (path : Path) :
    Takes 0 ((either plain mark inParts).read path) := by
  intro entries c rest hread
  unfold either at hread
  dsimp only at hread
  split at hread
  · exact (hinParts path).map Sum.inr hread
  · exact (h path).map Sum.inl hread

end Form

theorem LineLaw.takes {codec : Codec α} {form : Form α} {plain good : α → Prop}
    (h : LineLaw codec form plain good) (path : Path) : Takes 1 (form.read path) := by
  obtain ⟨print, parse, hform, -⟩ := h.exists_parse
  exact Form.Single.takes ⟨print, parse, hform⟩ path

namespace Codec

variable {rules : Rules}

theorem takes_count (what : String) (max : Nat) : Takes 4 ((count what max).decode rules) :=
  .of_append fun hread => ⟨_, (count_decode_eq_ok.mp hread).2, (BigEndian.length_ofNat 4 _).ge⟩

theorem takes_flag (fault : UInt32 → DecodeError) : Takes 4 ((flag fault).decode rules) :=
  .of_append fun hread => ⟨_, flag_decode_eq_ok.mp hread, (BigEndian.length_ofNat 4 _).ge⟩

theorem takes_constant (κ : Type) [Enumeration κ] : Takes 4 ((constant κ).decode rules) :=
  .of_append fun hread => ⟨_, (constant_decode_eq_ok.mp hread).2, (BigEndian.length_ofNat 4 _).ge⟩

end Codec

namespace Layout

/-- What is left of a listing after a value is the end of what was there. -/
theorem Composed.read_takes {lenient : Bool} {layout : Layout α} {plain good : α → Prop}
    (h : Composed lenient layout plain good) (path : Path) : Takes 0 (layout.form.read path) := by
  induction h generalizing path with
  | line _ h => exact (h.takes path).mono (Nat.zero_le _)
  | under _ _ ih => exact ih _
  | map _ ih => exact (ih path).map _
  | unit => exact .pure ()
  | pair _ _ ihfirst ihsecond =>
    exact (ihfirst path).bind fun a => (ihsecond path).map fun b => (a, b)
  | sigma _ _ ihtag ihpayload =>
    exact (ihtag path).bind fun k => (ihpayload k path).map (Sigma.mk k)
  | list max _ ih => exact (Form.takes_list ih max path).mono (Nat.zero_le _)
  | option _ ih => exact (Form.takes_option ih path).mono (Nat.zero_le _)
  | either _ _ _ _ _ _ _ _ ihleft ihright => exact (Form.takes_either ihleft ihright _ path).map _
  | delay _ ih | congr _ _ _ ih => exact ih path
  | empty _ hread | unread _ hread =>
    obtain ⟨e, he⟩ := hread path
    exact .of_fails fun entries => ⟨e, he entries⟩
  | ofLevels _ _ _ hsame _ ih =>
    intro entries v rest hread
    -- the level for so many entries is one of those that the law is known of
    replace hread := (congrFun (congrFun (hsame (entries.length + 1)) path) entries).symm.trans hread
    exact ih _ (Nat.le_max_right ..) path hread

/-- On inputs of fewer than `n` words or lines both layouts read the same, and the second one takes
`least` words or lines at least. -/
structure Agree (least n : Nat) (first second : Layout α) : Prop where
  decode_takes : ∀ rules, Takes (4 * least) (second.wire.decode rules)
  decode_eq : ∀ rules, AgreeBelow (4 * n) (first.wire.decode rules) (second.wire.decode rules)
  read_takes : ∀ path, Takes least (second.form.read path)
  read_eq : ∀ path, AgreeBelow n (first.form.read path) (second.form.read path)

/-- A layout agrees with itself. -/
theorem Composed.agree {lenient : Bool} {layout : Layout α} {plain good : α → Prop}
    (h : Composed lenient layout plain good) (n : Nat) : Agree 0 n layout layout where
  decode_takes _ := .of_suffix h.wire.rest_suffix
  decode_eq _ := .refl _ _
  read_takes := h.read_takes
  read_eq _ := .refl _ _

namespace Agree

variable {first second : Layout α}

theorem mono (h : Agree least n first second) (hleast : least' ≤ least) (hle : m ≤ n) :
    Agree least' m first second where
  decode_takes rules := (h.decode_takes rules).mono (Nat.mul_le_mul_left 4 hleast)
  decode_eq rules := (h.decode_eq rules).mono (Nat.mul_le_mul_left 4 hle)
  read_takes path := (h.read_takes path).mono hleast
  read_eq path := (h.read_eq path).mono hle

/-- Parts of larger values need not take anything. -/
theorem weaken (h : Agree 1 (n + 1) first second) : Agree 0 n first second :=
  h.mono (Nat.zero_le 1) (Nat.le_succ n)

theorem under (h : Agree least n first second) (name : String) :
    Agree least n (first.under name) (second.under name) where
  decode_takes := h.decode_takes
  decode_eq := h.decode_eq
  read_takes path := h.read_takes (path.field name)
  read_eq path := h.read_eq (path.field name)

theorem delay {first second : Unit → Layout α} (h : Agree least n (first ()) (second ())) :
    Agree least n (.delay first) (.delay second) where
  decode_takes := h.decode_takes
  decode_eq := h.decode_eq
  read_takes := h.read_takes
  read_eq := h.read_eq

theorem map (h : Agree least n first second) (view : Bijection β α) :
    Agree least n (first.map view) (second.map view) where
  decode_takes rules := (h.decode_takes rules).map view.back
  decode_eq rules := (h.decode_eq rules).map view.back
  read_takes path := (h.read_takes path).map view.back
  read_eq path := (h.read_eq path).map view.back

/-- What the first part takes, the second one need not agree on. -/
theorem pair {other other' : Layout β} (h : Agree least (n + least) first second)
    (hother : Agree least' n other other') :
    Agree (least + least') (n + least) (.pair first other) (.pair second other') where
  decode_takes rules := by
    rw [Nat.mul_add]
    exact (h.decode_takes rules).bind fun a => (hother.decode_takes rules).map fun b => (a, b)
  decode_eq rules := (h.decode_eq rules).bind (h.decode_takes rules)
    (fun a => (hother.decode_eq rules).map fun b => (a, b)) (Nat.mul_add 4 n least).le
  read_takes path := (h.read_takes path).bind fun a => (hother.read_takes path).map fun b => (a, b)
  read_eq path := (h.read_eq path).bind (h.read_takes path)
    (fun a => (hother.read_eq path).map fun b => (a, b)) (Nat.le_refl _)

/-- A union, of which the tag takes a word and a line. -/
theorem union [Enumeration κ] {π : κ → Type} {view : Bijection α (Sigma π)} {name : String}
    {payload payload' : (k : κ) → Layout (π k)} (h : ∀ k, Agree 0 n (payload k) (payload' k)) :
    Agree 1 (n + 1) (.map view (.sigma (.under name (.constant κ)) payload))
      (.map view (.sigma (.under name (.constant κ)) payload')) := by
  -- once the tag is read, a word and a line are gone on both sides
  refine Agree.map ⟨fun rules => ?_, fun rules => ?_, fun path => ?_, fun path => ?_⟩ view
  · exact (Codec.takes_constant κ).bind fun k => ((h k).decode_takes rules).map (Sigma.mk k)
  · exact (AgreeBelow.refl _ _).bind (Codec.takes_constant κ)
      (fun k => ((h k).decode_eq rules).map (Sigma.mk k)) (Nat.le_refl _)
  · exact (Form.takes_constant κ (path.field name)).bind fun k =>
      ((h k).read_takes path).map (Sigma.mk k)
  · exact (AgreeBelow.refl _ _).bind (Form.takes_constant κ (path.field name))
      (fun k => ((h k).read_eq path).map (Sigma.mk k)) (Nat.le_refl _)

/-- Elements are read alike, one after the other. -/
theorem readItems_agree {item item' : Form α} (h : ∀ path, AgreeBelow n (item.read path) (item'.read path))
    (htakes : ∀ path, Takes 0 (item'.read path)) (path : Path) (index count : Nat) :
    AgreeBelow n (item.readItems path index count) (item'.readItems path index count) := by
  induction count generalizing index with
  | zero => exact .refl _ _
  | succ count ih =>
    exact (h _).bind (htakes _) (fun a => (ih (index + 1)).map fun rest => a :: rest) (Nat.le_refl _)

/-- The count takes a word and a line. -/
theorem list (h : Agree 0 n first second) (max : Nat) :
    Agree 1 (n + 1) (.list max first) (.list max second) where
  decode_takes rules :=
    (Codec.takes_count "array" max).bind fun n =>
      (Takes.repeated (h.decode_takes rules) n).mono (Nat.zero_le _)
  decode_eq rules := (AgreeBelow.refl _ _).bind (Codec.takes_count "array" max)
    (AgreeBelow.repeated (h.decode_eq rules) (h.decode_takes rules)) (Nat.le_refl _)
  read_takes := Form.takes_list h.read_takes max
  read_eq path := (AgreeBelow.refl _ _).bind (Form.takes_count max (path.field "len"))
    (readItems_agree h.read_eq h.read_takes path 0) (Nat.le_refl _)

/-- The flag takes a word and a line. -/
theorem option (h : Agree 0 n first second) : Agree 1 (n + 1) (.option first) (.option second) where
  decode_takes rules :=
    (Codec.takes_flag .invalidPresence).bind (Takes.readPresent (h.decode_takes rules))
  decode_eq rules := (AgreeBelow.refl _ _).bind (Codec.takes_flag .invalidPresence)
    (AgreeBelow.readPresent (h.decode_eq rules)) (Nat.le_refl _)
  read_takes := Form.takes_option h.read_takes
  read_eq path := (AgreeBelow.refl _ _).bind (Form.takes_bool (path.field "_present"))
    (h.read_eq path).readPresent (Nat.le_refl _)

end Agree

end Layout

end LedgerTx
