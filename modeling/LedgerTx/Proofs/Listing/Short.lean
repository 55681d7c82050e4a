import LedgerTx.Proofs.Listing.Entries
import LedgerTx.Proofs.Text.Size
import LedgerTx.Wire.Codec

namespace LedgerTx

/-! # Entries of short lines

Entries and tokens hold parts of the lines that they are read from, so they are no longer than these. -/

namespace Listing

/-- A token is the front of the value that it is the token of. -/
theorem splitToken_sublist (value : List Char) : (splitToken value).1.Sublist value := by
  have hfront := List.sublist_append_left (splitToken value).1 (splitToken value).2
  rwa [splitToken_fst_append_snd] at hfront

namespace Entry

/-- An entry of which every count in the value can be said. -/
def Short (entry : Entry) : Prop :=
  Utf8.size entry.value ≤ Rules.maxCount

/-- The value of an entry is part of its line. -/
theorem value_sublist_of_ofLine {number : Nat} {line : List Char} {entry : Entry}
    (h : ofLine number line = .ok entry) : entry.value.Sublist line := by
  unfold ofLine at h
  rw [List.span_eq_takeWhile_dropWhile] at h
  split at h
  · rename_i path colon value hsplit
    cases h
    -- what follows the colon is the end of the line
    have hend : (colon :: value).Sublist line := by
      rw [← (Prod.mk.inj hsplit).2]
      exact List.dropWhile_sublist _
    have hvalue : value.Sublist line := (List.sublist_cons_self colon value).trans hend
    exact (Blank.trim_sublist value).trans hvalue
  · cases h

/-- The entries on short lines are short. -/
theorem short_of_ofText {text : List Char} {entries : List Entry} (h : ofText text = .ok entries)
    (hlines : ∀ line ∈ splitLines text, Utf8.size line ≤ Rules.maxCount) :
    ∀ entry ∈ entries, entry.Short := by
  intro entry hentry
  obtain ⟨line, hline, place, hread⟩ := exists_ofLine_of_mem h hentry
  have hvalue := (value_sublist_of_ofLine hread).trans (Blank.trim_sublist line)
  exact Nat.le_trans (Utf8.size_le_of_sublist hvalue) (hlines line hline)

end Entry

end Listing

end LedgerTx
