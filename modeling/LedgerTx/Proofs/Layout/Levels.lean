import LedgerTx.Proofs.Layout.Forgets

namespace LedgerTx

open Listing

/-! # Layouts of recursive types

`Layout.ofLevels` lays out a type by layouts for each depth of nesting.  What makes them one layout is a
tower: a level that is deep enough writes a value like every other such level, and each level of a value
takes bytes and lines.  The laws are asked for from a least level on; the levels below it must read as the
least one does. -/

namespace Layout

variable {α : Type}

/-- The layout of a type of which `levels n` lays out the values nested at most `n` deep.  What is left to
read bounds the levels, four bytes or one line each. -/
def ofLevels (levels : Nat → Layout α) (depth : α → Nat) : Layout α where
  wire := .ofLevels (fun n => (levels n).wire) depth
  form := {
    write := fun path v => (levels (depth v)).form.write path v
    read := fun path entries => (levels (entries.length + 1)).form.read path entries }

/-- What makes levels of layouts those of one recursive type. -/
structure Tower (levels : Nat → Layout α) (depth : α → Nat) : Prop where
  wire : Codec.Tower (fun n => (levels n).wire) depth
  /-- Every level that is deep enough writes a value in the same way. -/
  write_eq : ∀ {n v}, depth v ≤ n → ∀ path,
    (levels n).form.write path v = (levels (depth v)).form.write path v
  /-- Each level takes a line. -/
  le_length : ∀ {v path lines}, (levels (depth v)).form.write path v = .ok lines →
    depth v ≤ lines.length
  /-- Levels that are more than the entries can fill read in the same way. -/
  read_eq : ∀ {n m entries}, entries.length < n → entries.length < m →
    ∀ path, (levels n).form.read path entries = (levels m).form.read path entries

variable {levels : Nat → Layout α} {depth : α → Nat} {plain good : α → Prop} {least : Nat}

/-- A value is read back with as many levels as it has lines, which are enough for it. -/
theorem ReadsBack.ofLevels (h : ∀ n, least ≤ n → (levels n).ReadsBack plain good)
    (htower : Tower levels depth)
    (hsame : ∀ n, (levels n).form.read = (levels (max n least)).form.read) :
    (Layout.ofLevels levels depth).ReadsBack plain good := by
  intro path a hfits hplain
  have hlevel : ∀ {n}, depth a ≤ n → least ≤ n →
      RoundTrip (good a) ((levels (depth a)).form.write path a) ((levels n).form.read path) a := by
    intro n hdepth hleast
    have hdeep := h n hleast path ((htower.wire.fits_eq hdepth).trans hfits) hplain
    rwa [htower.write_eq hdepth] at hdeep
  rcases hlevel (Nat.le_max_left _ least) (Nat.le_max_right ..) with ⟨lines, hwrite, hsound, -⟩
  refine ⟨lines, hwrite, hsound, fun shown rest hshown => ?_⟩
  -- there are as many entries as lines, which are as many as levels at least
  have hdepth : depth a ≤ max ((shown ++ rest).length + 1) least := by
    have hlines := htower.le_length hwrite
    rw [List.length_append, hshown.length_eq]
    omega
  rcases hlevel hdepth (Nat.le_max_right ..) with ⟨lines', hwrite', -, hread⟩
  cases hwrite.symm.trans hwrite'
  show Settles _ ((levels ((shown ++ rest).length + 1)).form.read path (shown ++ rest)) _
  rw [hsame]
  exact hread hshown

/-- Bytes of recursive types are read as the value that they encode only, so levels diverge together. -/
theorem Forgets.ofLevels (h : ∀ n, least ≤ n → (levels n).Forgets plain)
    (hwire : ∀ n, Codec.Composed false (levels n).wire) (htower : Tower levels depth)
    (hsame : ∀ n, (levels n).form.read = (levels (max n least)).form.read)
    (hread : ∀ {n path entries b rest}, (levels n).form.read path entries = .ok (b, rest) →
      depth b ≤ n) : (Layout.ofLevels levels depth).Forgets plain := by
  intro path a b lines more entries rest hfits hplain hwrite hfollow hb tail after hdecode
  have hlines := htower.le_length hwrite
  have hentries := hfollow.length_le
  rw [List.length_append] at hentries
  replace hb : (levels (entries.length + 1)).form.read path entries = .ok (b, rest) := hb
  rw [hsame] at hb
  have hdeptha : depth a ≤ max (entries.length + 1) least := by omega
  have hdepthb : depth b ≤ max (entries.length + 1) least := hread hb
  have hfitsDeep := (htower.wire.fits_eq hdeptha).trans hfits
  have hdiverges := h _ (Nat.le_max_right ..) path hfitsDeep hplain
    ((htower.write_eq hdeptha path).trans hwrite) hfollow hb
  -- the bytes of `b` would have to be those of `a`
  have hcodec : Codec.Composed false (Layout.ofLevels levels depth).wire := .ofLevels hwire htower.wire
  have hbytes := hcodec.bytes_eq_encode_append (Or.inl rfl) hdecode
  refine hdiverges tail after ?_
  have hequal : (levels (max (entries.length + 1) least)).wire.encode b ++ tail
      = (levels (max (entries.length + 1) least)).wire.encode a ++ after := by
    rw [htower.wire.encode_eq hdeptha, htower.wire.encode_eq hdepthb]
    exact hbytes
  rw [hequal]
  exact (hwire _).decode_encode hfitsDeep after

end Layout

end LedgerTx
