import LedgerTx.Listing.Path
import LedgerTx.Proofs.Text.Decimal

namespace LedgerTx.Listing

/-! # The characters of paths

Paths hold no colon and no blank, so a path ends where the colon of its line stands. -/

/-- Whether a character may stand in a path. -/
def isPathChar (c : Char) : Bool :=
  c != ':' && !Blank.isBlank c

/-- Whether a name may stand in a path. -/
def isPathName (name : String) : Bool :=
  name.toList.all isPathChar && !name.toList.isEmpty

namespace Path

/-- A path of which every step may stand in a path. -/
def Plain (path : Path) : Prop :=
  ∀ step ∈ path.steps, ∀ c ∈ stepText step, isPathChar c = true

theorem Plain.root : root.Plain := by
  intro step hstep
  cases hstep

/-- A name that may stand in a path may follow. -/
theorem Plain.field {path : Path} (h : path.Plain) {name : String} (hname : isPathName name = true) :
    (path.field name).Plain := by
  intro step hstep c hc
  rcases List.mem_append.mp hstep with hold | hnew
  · exact h step hold c hc
  · rw [List.mem_singleton.mp hnew] at hc
    rcases List.mem_cons.mp hc with rfl | hmem
    · decide
    · have hall := (Bool.and_eq_true_iff.mp hname).1
      exact List.all_eq_true.mp hall c hmem

/-- An index may follow, since its digits and brackets are neither colons nor blanks. -/
theorem Plain.item {path : Path} (h : path.Plain) (index : Nat) : (path.item index).Plain := by
  intro step hstep c hc
  rcases List.mem_append.mp hstep with hold | hnew
  · exact h step hold c hc
  · rw [List.mem_singleton.mp hnew] at hc
    rcases List.mem_append.mp hc with hfront | hend
    · rcases List.mem_cons.mp hfront with rfl | hdigit
      · decide
      · have hdigit := Decimal.isDigit_of_mem_ofNat hdigit
        have hblank := Decimal.isBlank_of_isDigit hdigit
        have hcolon : c ≠ ':' := by
          rintro rfl
          cases hdigit
        simp only [isPathChar, hblank, bne_iff_ne, ne_eq, hcolon, not_false_eq_true, Bool.not_false,
          Bool.and_true]
    · rw [List.mem_singleton.mp hend]
      decide

/-- Every character of a path comes from one of its steps. -/
theorem exists_step_of_mem_text {path : Path} {c : Char} (h : c ∈ path.text) :
    ∃ step ∈ path.steps, c ∈ stepText step := by
  unfold text at h
  split at h
  · rename_i name rest hsteps
    rcases List.mem_append.mp h with hname | hrest
    · exact ⟨.field name, hsteps ▸ List.mem_cons_self .., List.mem_cons_of_mem '.' hname⟩
    · rcases List.mem_flatMap.mp hrest with ⟨step, hstep, hc⟩
      exact ⟨step, hsteps ▸ List.mem_cons_of_mem _ hstep, hc⟩
  · exact List.mem_flatMap.mp h

/-- Every character of a plain path may stand in a path. -/
theorem Plain.isPathChar {path : Path} (h : path.Plain) {c : Char} (hc : c ∈ path.text) :
    isPathChar c = true := by
  rcases exists_step_of_mem_text hc with ⟨step, hstep, hmem⟩
  exact h step hstep c hmem

theorem Plain.ne_colon {path : Path} (h : path.Plain) {c : Char} (hc : c ∈ path.text) : c ≠ ':' :=
  bne_iff_ne.mp (Bool.and_eq_true_iff.mp (h.isPathChar hc)).1

theorem Plain.isBlank {path : Path} (h : path.Plain) {c : Char} (hc : c ∈ path.text) :
    Blank.isBlank c = false := by
  have hblank := (Bool.and_eq_true_iff.mp (h.isPathChar hc)).2
  exact Bool.not_eq_true' _ ▸ hblank

/-- The path of a part is longer than that of the whole. -/
theorem text_field_ne (path : Path) {name : String} (hname : isPathName name = true) :
    (path.field name).text ≠ path.text := by
  have hpos : 0 < name.toList.length := by
    have hne := (Bool.and_eq_true_iff.mp hname).2
    cases h : name.toList with
    | nil =>
      rw [h] at hne
      cases hne
    | cons c rest => exact Nat.succ_pos _
  -- the texts would be equally long, but the name is not empty
  intro heq
  have hlength := congrArg List.length heq
  rcases path with ⟨_ | ⟨step, steps⟩⟩
  · have hroot : (Path.field ⟨[]⟩ name).text = name.toList := List.append_nil _
    rw [hroot] at hlength
    have hnil : (Path.mk []).text.length = 0 := rfl
    omega
  · cases step with
    | field first =>
      have htext : (Path.field ⟨.field first :: steps⟩ name).text
          = first.toList ++ (steps ++ [Step.field name]).flatMap stepText := rfl
      have hold : (Path.mk (.field first :: steps)).text = first.toList ++ steps.flatMap stepText := rfl
      rw [htext, hold, List.flatMap_append] at hlength
      simp [stepText] at hlength
    | item index =>
      have htext : (Path.field ⟨.item index :: steps⟩ name).text
          = (Step.item index :: steps ++ [Step.field name]).flatMap stepText := rfl
      have hold : (Path.mk (.item index :: steps)).text = (Step.item index :: steps).flatMap stepText := rfl
      rw [htext, hold, List.flatMap_append] at hlength
      simp [stepText] at hlength

end Path

end LedgerTx.Listing
