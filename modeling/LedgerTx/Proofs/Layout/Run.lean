import LedgerTx.Proofs.Layout.Agree
import LedgerTx.Proofs.Listing.Run

namespace LedgerTx

open Listing

/-! # Runs of layouts

Every layout reads line after line, whatever counts and nesting the lines claim.  A value that took no line
would be read where no line is left, so layouts that refuse the end of a listing take a line for each
value. -/

variable {α β κ : Type}

namespace Form

/-- A value of one line asks for its line alone. -/
theorem Single.runs {form : Form α} (h : form.Single) (path : Path) : Runs (form.read path) := by
  obtain ⟨print, parse, rfl⟩ := h
  refine (Runs.readValue path).bind fun value => ?_
  dsimp only
  cases parse value.1 value.2 with
  | ok a => exact .pure a
  | error cause => exact .of_fails fun _ => rfl

/-- Elements ask for their lines one after the other. -/
theorem runs_readItems {item : Form α} (h : ∀ path, Runs (item.read path)) (path : Path)
    (index count : Nat) : Runs (item.readItems path index count) := by
  induction count generalizing index with
  | zero => exact .pure []
  | succ count ih => exact (h _).bind fun a => (ih (index + 1)).map fun rest => a :: rest

/-- A value that is absent asks for no line. -/
theorem runs_readPresent {read : Reader α} (h : Runs read) (present : Bool) :
    Runs (readPresent read present) := by
  cases present with
  | false => exact .pure none
  | true => exact h.map some

/-- Only the path of the next line decides between the two. -/
theorem runs_either {plain : Form α} {inParts : Form β} {path : Path} (h : Runs (plain.read path))
    (hinParts : Runs (inParts.read path)) (mark : String) :
    Runs ((either plain mark inParts).read path) := by
  have hchosen : ∀ (next : Option (List Char)) (left : Nat), Runs fun entries =>
      if next = some (path.field mark).text then _ else _ :=
    fun _ _ => (hinParts.map (Sum.inr : β → α ⊕ β)).ite (h.map Sum.inl)
  exact .look hchosen

/-- What stands on one line or in parts takes no line only where its one-line form takes none. -/
theorem idle_either {plain : Form α} {inParts : Form β} (h : ∀ path, Idle (plain.read path))
    (htakes : ∀ path, Takes 0 (plain.read path)) (hinParts : ∀ path, Takes 1 (inParts.read path))
    (mark : String) (path : Path) : Idle ((either plain mark inParts).read path) := by
  intro entries c rest hread hlength
  unfold either at hread
  dsimp only at hread
  split at hread
  · -- a value in parts takes a line
    have hless := ((hinParts path).map Sum.inr hread).2
    omega
  · exact (h path).map (htakes path) Sum.inl hread hlength

end Form

namespace Layout.Composed

variable {lenient : Bool} {layout : Layout α} {plain good : α → Prop}

/-- A layout asks for one line after the other, whatever the lines say. -/
theorem runs (h : Composed lenient layout plain good) (path : Path) : Runs (layout.form.read path) := by
  induction h generalizing path with
  | line _ h =>
    obtain ⟨print, parse, hform, -⟩ := h.exists_parse
    exact Form.Single.runs ⟨print, parse, hform⟩ path
  | under _ _ ih => exact ih _
  | map _ ih => exact (ih path).map _
  | unit => exact .pure ()
  | pair _ _ ihfirst ihsecond =>
    exact (ihfirst path).bind fun a => (ihsecond path).map fun b => (a, b)
  | sigma _ _ ihtag ihpayload => exact (ihtag path).bind fun k => (ihpayload k path).map (Sigma.mk k)
  | list max _ ih =>
    exact (Form.Single.count.runs (path.field "len")).bind fun n => Form.runs_readItems ih path 0 n
  | option _ ih =>
    have hflag : Runs (Form.bool.read (path.field "_present")) := Form.Single.token.runs _
    exact hflag.bind (Form.runs_readPresent (ih path))
  | either _ _ _ _ _ _ _ _ ihleft ihright =>
    exact (Form.runs_either (ihleft path) (ihright path) _).map _
  | delay _ ih | congr _ _ _ ih => exact ih path
  | empty _ hread | unread _ hread =>
    obtain ⟨cause, hcause⟩ := hread path
    exact .of_fails hcause
  | @ofLevels _ levels _ _ _ least _ _ _ hsame _ ih =>
    -- how many levels are read depends on how many entries are left, at which a reader may look
    have hlevel : ∀ (next : Option (List Char)) (left : Nat),
        Runs ((levels (left + 1)).form.read path) := by
      intro next left
      rw [hsame]
      exact ih _ (Nat.le_max_right ..) path
    exact .look hlevel

/-- A value that takes no line is read where no line is left. -/
theorem idle (h : Composed lenient layout plain good) (path : Path) : Idle (layout.form.read path) := by
  induction h generalizing path with
  | line _ h => exact .of_takes (h.takes path)
  | under _ _ ih => exact ih _
  | map h ih => exact (ih path).map (h.read_takes path) _
  | unit => exact .pure ()
  | pair hfirst hsecond ihfirst ihsecond =>
    exact (ihfirst path).bind (hfirst.read_takes path)
      (fun a => (ihsecond path).map (hsecond.read_takes path) fun b => (a, b))
      fun a => (hsecond.read_takes path).map fun b => (a, b)
  | sigma htag hpayload ihtag ihpayload =>
    exact (ihtag path).bind (htag.read_takes path)
      (fun k => (ihpayload k path).map ((hpayload k).read_takes path) (Sigma.mk k))
      fun k => ((hpayload k).read_takes path).map (Sigma.mk k)
  | list max h => exact .of_takes (Form.takes_list h.read_takes max path)
  | option h => exact .of_takes (Form.takes_option h.read_takes path)
  | either _ _ hleft hright _ _ _ hrightTakes ihleft _ =>
    exact (Form.idle_either ihleft hleft.read_takes hrightTakes _ path).map
      (Form.takes_either hleft.read_takes hright.read_takes _ path) _
  | delay _ ih | congr _ _ _ ih => exact ih path
  | empty _ hnone | unread _ hnone =>
    intro entries a rest hread
    obtain ⟨cause, hcause⟩ := hnone path
    cases (hcause entries).symm.trans hread
  | @ofLevels _ levels _ _ _ least _ _ htower hsame _ ih =>
    intro entries a rest hread hlength
    replace hread : (levels (entries.length + 1)).form.read path entries = .ok (a, rest) := hread
    -- where no line is left, every level reads what the lowest one does
    rw [hsame] at hread
    have hnil := ih _ (Nat.le_max_right ..) path hread hlength
    rw [← hsame, htower.read_eq (Nat.succ_pos _) (Nat.succ_pos 0)] at hnil
    exact hnil

/-- A layout that refuses the end of a listing takes a line for every value. -/
theorem takes_one (h : Composed lenient layout plain good)
    (hnil : ∀ path, ∃ e, layout.form.read path [] = .error e) (path : Path) :
    Takes 1 (layout.form.read path) :=
  (h.idle path).takes (h.read_takes path) (hnil path)

/-- Such a layout reads on with every value, and asks for each line once. -/
theorem advances (h : Composed lenient layout plain good)
    (hnil : ∀ path, ∃ e, layout.form.read path [] = .error e) (path : Path) :
    Advances (layout.form.read path) :=
  .of_takes (h.runs path) (h.takes_one hnil path)

end Layout.Composed

end LedgerTx
