import LedgerTx.Proofs.Layout.Agree
import LedgerTx.Proofs.Layout.Nests

namespace LedgerTx

open Listing

/-! # Recursive types

The levels of a recursive type are a tower, so its layout is put together as all others are.  Where
listings are read up to some level only, the values of more levels are written all the same, and then
refused. -/

namespace Layout

variable {α : Type} {depth : α → Nat} {inside : α → List α} {step : Layout α → Layout α}
  {lenient : Bool} {plain good : α → Prop}

/-- A depth that counts the levels of values: the values inside have one level less. -/
structure Recursion (depth : α → Nat) (inside : α → List α) (step : Layout α → Layout α) : Prop where
  nests : Nests 1 inside step
  pos : ∀ v, 0 < depth v
  depth_le_iff : ∀ {v n}, depth v ≤ n + 1 ↔ ∀ w ∈ inside v, depth w ≤ n
  /-- A step takes a word and a line before it reads the values inside. -/
  agree : ∀ {n a b}, Agree 0 n a b → Agree 1 (n + 1) (step a) (step b)

/-- A layout of which bytes are read by the step around it, and no deeper than they can fill. -/
structure Unfolds (step : Layout α → Layout α) (layout : Layout α) : Prop where
  /-- Bytes are read by the step itself, with no bound on the levels. -/
  decode_step : ∀ rules bytes, layout.wire.decode rules bytes = (step layout).wire.decode rules bytes
  /-- As many steps as the bytes can fill read them, whatever is below these steps. -/
  decode_iterate : ∀ rules bytes (below : Layout α) n, bytes.length / 4 < n →
    layout.wire.decode rules bytes = (step^[n] below).wire.decode rules bytes

/-- A layout of which listings are read by the step around it, and no deeper than they can fill. -/
structure UnfoldsListing (step : Layout α → Layout α) (layout : Layout α) : Prop where
  /-- Entries are read by the step itself, with no bound on the levels. -/
  read_step : ∀ path entries, layout.form.read path entries = (step layout).form.read path entries
  /-- As many steps as there are entries read them, whatever is below these steps. -/
  read_iterate : ∀ path entries (below : Layout α) n, entries.length < n →
    layout.form.read path entries = (step^[n] below).form.read path entries

/-- Values written as those of at most `n` levels, and read only if they have at most `max`. -/
def levelUpTo (cause : LineError) (step : Layout α → Layout α) (max n : Nat) : Layout α :=
  ⟨(level .missingLine step n).wire,
    (level cause step n).form.write, (level cause step max).form.read⟩

namespace Recursion

variable {cause cause' : LineError} {n m : Nat} {v : α} {rules : Rules}

/-- Levels that are deep enough for a value write it with the same bytes. -/
theorem encode_level_eq (h : Recursion depth inside step) (hn : depth v ≤ n) (hm : depth v ≤ m) :
    (level cause step n).wire.encode v = (level cause' step m).wire.encode v := by
  induction n generalizing m v with
  | zero => exact absurd hn (Nat.not_le.mpr (h.pos v))
  | succ n ih =>
    -- both have a level left, and the values inside have one level less
    cases m with
    | zero => exact absurd hm (Nat.not_le.mpr (h.pos v))
    | succ m =>
      exact h.nests.encode_congr fun w hw => ih (h.depth_le_iff.mp hn w hw) (h.depth_le_iff.mp hm w hw)

/-- Levels that are deep enough for a value limit it alike. -/
theorem fits_level_eq (h : Recursion depth inside step) (hn : depth v ≤ n) (hm : depth v ≤ m) :
    (level cause step n).wire.fits rules v = (level cause' step m).wire.fits rules v := by
  induction n generalizing m v with
  | zero => exact absurd hn (Nat.not_le.mpr (h.pos v))
  | succ n ih =>
    cases m with
    | zero => exact absurd hm (Nat.not_le.mpr (h.pos v))
    | succ m =>
      exact h.nests.fits_congr fun w hw => ih (h.depth_le_iff.mp hn w hw) (h.depth_le_iff.mp hm w hw)

/-- Levels that are deep enough for a value list it with the same lines. -/
theorem write_level_eq (h : Recursion depth inside step) (hn : depth v ≤ n) (hm : depth v ≤ m)
    (path : Path) :
    (level cause step n).form.write path v = (level cause step m).form.write path v := by
  induction n generalizing m v path with
  | zero => exact absurd hn (Nat.not_le.mpr (h.pos v))
  | succ n ih =>
    cases m with
    | zero => exact absurd hm (Nat.not_le.mpr (h.pos v))
    | succ m =>
      exact h.nests.write_congr
        (fun w hw path => ih (h.depth_le_iff.mp hn w hw) (h.depth_le_iff.mp hm w hw) path) path

/-- A level lets no deeper values through. -/
theorem depth_le_of_fits (h : Recursion depth inside step)
    (hfits : (level cause step n).wire.fits rules v = true) : depth v ≤ n := by
  induction n generalizing v with
  | zero => cases hfits
  | succ n ih => exact h.depth_le_iff.mpr fun w hw => ih (h.nests.fits_inside hfits w hw)

/-- A level reads no deeper values from a listing. -/
theorem depth_le_of_read (h : Recursion depth inside step) {path : Path} {entries rest : List Entry}
    (hread : (level cause step n).form.read path entries = .ok (v, rest)) : depth v ≤ n := by
  induction n generalizing v path entries rest with
  | zero => cases hread
  | succ n ih =>
    refine h.depth_le_iff.mpr fun w hw => ?_
    rcases h.nests.read_inside hread w hw with ⟨place, more, others, hw⟩
    exact ih hw

/-- Every level takes a word, so there are as many words as levels. -/
theorem le_length_encode (h : Recursion depth inside step) (hn : depth v ≤ n) :
    4 * depth v ≤ ((level cause step n).wire.encode v).length := by
  induction n generalizing v with
  | zero => exact absurd hn (Nat.not_le.mpr (h.pos v))
  | succ n ih =>
    -- the word of this level is there even if nothing is inside
    have hleast := h.nests.le_length (a := delay fun _ => level cause step n) (v := v)
    have hinside : ∀ w ∈ inside v,
        depth w ≤ ((level cause step (n + 1)).wire.encode v).length / 4 - 1 := by
      intro w hw
      have hbelow := ih (h.depth_le_iff.mp hn w hw)
      have hwithin : 4 * 1 + ((level cause step n).wire.encode w).length
          ≤ ((level cause step (n + 1)).wire.encode v).length := h.nests.length_inside w hw
      omega
    have hdepth := h.depth_le_iff.mpr hinside
    replace hleast : 4 * 1 ≤ ((level cause step (n + 1)).wire.encode v).length := hleast
    omega

/-- Every level takes a line, so there are as many lines as levels. -/
theorem le_lines (h : Recursion depth inside step) {path : Path} {lines : List Line}
    (hwrite : (level cause step n).form.write path v = .ok lines) : depth v ≤ lines.length := by
  induction n generalizing v path lines with
  | zero => cases hwrite
  | succ n ih =>
    have hleast := h.nests.le_lines hwrite
    have hinside : ∀ w ∈ inside v, depth w ≤ lines.length - 1 := by
      intro w hw
      rcases h.nests.write_inside hwrite w hw with ⟨place, within, hwithin, hlines⟩
      have hbelow := ih hwithin
      omega
    -- the values inside leave a line to the level around them
    have hdepth := h.depth_le_iff.mpr hinside
    omega

/-- Levels leave the end of their input. -/
theorem agree_level_self (h : Recursion depth inside step) (cause : LineError) (n : Nat) :
    Agree 0 0 (level cause step n) (level cause step n) := by
  induction n with
  | zero =>
    exact ⟨fun _ => .of_fails fun _ => ⟨_, rfl⟩, fun _ => .zero _ _, fun _ => .of_fails fun _ => ⟨_, rfl⟩,
      fun _ => .zero _ _⟩
  | succ n ih =>
    have hstep : Agree 1 1 (level cause step (n + 1)) (level cause step (n + 1)) := h.agree (.delay ih)
    exact hstep.weaken

/-- `n` steps over any layout agree with `n` levels or more, on inputs too short to reach below them. -/
theorem agree_iterate (h : Recursion depth inside step) (cause : LineError) (below : Layout α)
    (n d : Nat) : Agree 0 n (step^[n] below) (level cause step (n + d)) := by
  induction n with
  | zero =>
    have hself := h.agree_level_self cause (0 + d)
    exact ⟨hself.decode_takes, fun _ => .zero _ _, hself.read_takes, fun _ => .zero _ _⟩
  | succ n ih =>
    have hstep : Agree 1 (n + 1) (step (step^[n] below)) (level cause step (n + d + 1)) := h.agree ih
    rw [Function.iterate_succ_apply', Nat.add_right_comm]
    exact hstep.mono (Nat.zero_le 1) (Nat.le_refl _)

/-- `n` levels are `n` steps from the level of no values. -/
theorem level_eq_iterate (cause : LineError) (step : Layout α → Layout α) (n : Nat) :
    level cause step n = step^[n] (level cause step 0) := by
  induction n with
  | zero => rfl
  | succ n ih =>
    rw [Function.iterate_succ_apply', ← ih]
    rfl

/-- On inputs that cannot fill a level, more levels read the same. -/
theorem agree_level (h : Recursion depth inside step) (cause : LineError) (n d : Nat) :
    Agree 0 n (level cause step n) (level cause step (n + d)) := by
  rw [level_eq_iterate cause step n]
  exact h.agree_iterate cause _ n d

/-- Numbers of levels that are more than the bytes can fill read in the same way. -/
theorem decode_level_eq (h : Recursion depth inside step) {bytes : List UInt8} (hn : bytes.length < 4 * n)
    (hm : bytes.length < 4 * m) :
    (level cause step n).wire.decode rules bytes = (level cause step m).wire.decode rules bytes := by
  -- more levels agree with fewer where the bytes cannot fill the fewer
  rcases Nat.le_total n m with hle | hle
  · obtain ⟨d, rfl⟩ := Nat.exists_eq_add_of_le hle
    exact (h.agree_level cause n d).decode_eq rules hn
  · obtain ⟨d, rfl⟩ := Nat.exists_eq_add_of_le hle
    exact ((h.agree_level cause m d).decode_eq rules hm).symm

/-- Numbers of levels that are more than there are entries read in the same way. -/
theorem read_level_eq (h : Recursion depth inside step) {entries : List Entry} (hn : entries.length < n)
    (hm : entries.length < m) (path : Path) :
    (level cause step n).form.read path entries = (level cause step m).form.read path entries := by
  rcases Nat.le_total n m with hle | hle
  · obtain ⟨d, rfl⟩ := Nat.exists_eq_add_of_le hle
    exact (h.agree_level cause n d).read_eq path hn
  · obtain ⟨d, rfl⟩ := Nat.exists_eq_add_of_le hle
    exact ((h.agree_level cause m d).read_eq path hm).symm

/-- A layout with as many levels as its input can fill agrees with so many levels. -/
theorem agree_recursive (h : Recursion depth inside step) (n : Nat) :
    Agree 0 n (recursive depth step) (level .missingLine step n) where
  decode_takes := (h.agree_level_self .missingLine n).decode_takes
  decode_eq rules bytes hlength := h.decode_level_eq (by omega) hlength
  read_takes := (h.agree_level_self .missingLine n).read_takes
  read_eq path entries hlength := h.read_level_eq (Nat.lt_succ_self _) hlength path

/-- Bytes are read by the step, with as many levels as they can fill. -/
theorem unfolds (h : Recursion depth inside step) : Unfolds step (recursive depth step) where
  decode_step rules bytes := by
    have hstep : Agree 1 (bytes.length / 4 + 1 + 1) (step (recursive depth step))
        (level .missingLine step (bytes.length / 4 + 1 + 1)) := h.agree (h.agree_recursive _)
    rw [hstep.decode_eq rules (by omega)]
    exact h.decode_level_eq (by omega) (by omega)
  decode_iterate rules bytes below n hn := by
    rw [(h.agree_iterate .missingLine below n 0).decode_eq rules (by omega)]
    exact h.decode_level_eq (by omega) (by omega)

/-- How listings are read does not matter to the bytes. -/
theorem unfolds_upTo (h : Recursion depth inside step) (max : Nat) (cause : LineError) :
    Unfolds step (recursiveUpTo max cause depth step) where
  decode_step rules bytes := by
    have hwire : (step (recursiveUpTo max cause depth step)).wire = (step (recursive depth step)).wire :=
      h.nests.wire_congr rfl
    rw [hwire]
    exact h.unfolds.decode_step rules bytes
  decode_iterate := h.unfolds.decode_iterate

/-- Listings are read by the step, with as many levels as they have entries. -/
theorem unfoldsListing (h : Recursion depth inside step) :
    UnfoldsListing step (recursive depth step) where
  read_step path entries := by
    have hstep : Agree 1 (entries.length + 1 + 1) (step (recursive depth step))
        (level .missingLine step (entries.length + 1 + 1)) := h.agree (h.agree_recursive _)
    rw [hstep.read_eq path (by omega)]
    exact h.read_level_eq (by omega) (by omega) path
  read_iterate path entries below n hn := by
    rw [(h.agree_iterate .missingLine below n 0).read_eq path hn]
    exact h.read_level_eq (Nat.lt_succ_self _) hn path

/-- The levels of a recursive type are a tower on the wire. -/
theorem codecTower (h : Recursion depth inside step) :
    Codec.Tower (fun n => (level cause step n).wire) depth where
  depth_le hfits := h.depth_le_of_fits hfits
  encode_eq hn := h.encode_level_eq hn (Nat.le_refl _)
  fits_eq hn := h.fits_level_eq hn (Nat.le_refl _)
  le_length _ := h.le_length_encode (Nat.le_refl _)
  decode_eq hn hm _ := h.decode_level_eq hn hm

/-- The levels of a recursive type are a tower. -/
theorem tower (h : Recursion depth inside step) : Tower (level cause step) depth where
  wire := h.codecTower
  write_eq hn path := h.write_level_eq hn (Nat.le_refl _) path
  le_length hwrite := h.le_lines hwrite
  read_eq := h.read_level_eq

/-- Levels that are read up to a bound are a tower all the same. -/
theorem towerUpTo (h : Recursion depth inside step) (max : Nat) :
    Tower (levelUpTo cause step max) depth where
  wire := h.codecTower
  write_eq hn path := h.write_level_eq hn (Nat.le_refl _) path
  le_length hwrite := h.le_lines hwrite
  read_eq _ _ _ := rfl

/-- A level that is read is put together from one that is read to one level less. -/
theorem levelUpTo_succ (h : Recursion depth inside step) (max n : Nat) :
    levelUpTo cause step (max + 1) (n + 1) = step (delay fun _ => levelUpTo cause step max n) := by
  have hwire : (level .missingLine step (n + 1)).wire
      = (step (delay fun _ => levelUpTo cause step max n)).wire := h.nests.wire_congr rfl
  have hwrite : (level cause step (n + 1)).form.write
      = (step (delay fun _ => levelUpTo cause step max n)).form.write := by
    funext path v
    exact h.nests.write_congr (a := delay fun _ => level cause step n)
      (b := delay fun _ => levelUpTo cause step max n) (fun _ _ _ => rfl) path
  have hread : (level cause step (max + 1)).form.read
      = (step (delay fun _ => levelUpTo cause step max n)).form.read := h.nests.read_congr rfl
  unfold levelUpTo
  rw [hwire, hwrite, hread]
  rfl

end Recursion

namespace Composed

/-- What a step keeps, every level keeps. -/
theorem level
    (hstep : ∀ {layout}, Composed lenient layout plain good → Composed lenient (step layout) plain good)
    (cause : LineError) (n : Nat) : Composed lenient (level cause step n) plain good := by
  induction n with
  | zero => exact .empty (fun path a => ⟨_, rfl⟩) fun path => ⟨_, fun entries => rfl⟩
  | succ n ih => exact hstep (.delay ih)

/-- What a step keeps, the recursive type keeps. -/
theorem recursive (h : Recursion depth inside step)
    (hstep : ∀ {layout}, Composed false layout plain good → Composed false (step layout) plain good) :
    Composed lenient (recursive depth step) plain good := by
  -- the levels are strict, so that they diverge as one; the whole may stand where others are lenient
  have hlevel : ∀ n, Composed false (Layout.level .missingLine step n) plain good := level hstep _
  have hsame : ∀ n, (Layout.level .missingLine step n).form.read
      = (Layout.level .missingLine step (max n 0)).form.read := fun n => by rw [Nat.max_zero]
  have hlevels : Composed false (Layout.ofLevels (Layout.level .missingLine step) depth) plain good :=
    .ofLevels (fun n => (hlevel n).wire) (fun n _ => hlevel n) h.tower hsame (Or.inr h.depth_le_of_read)
  exact hlevels.of_false

/-- Values of too many levels are refused.  Levels that are read are written as well. -/
theorem levelUpTo (h : Recursion depth inside step)
    (hstep : ∀ {layout good}, Composed false layout (fun _ => True) good →
      Composed false (step layout) (fun _ => True) fun v => ∀ w ∈ inside v, good w)
    (cause : LineError) {max n : Nat} (hmax : max ≤ n) :
    Composed false (levelUpTo cause step max n) (fun _ => True) (fun v => depth v ≤ max) := by
  induction n generalizing max with
  | zero =>
    obtain rfl : max = 0 := Nat.le_zero.mp hmax
    exact .empty (fun path a => ⟨_, rfl⟩) fun path => ⟨_, fun entries => rfl⟩
  | succ n ih =>
    have hsucc : ∀ {max}, max ≤ n → Composed false (Layout.levelUpTo cause step (max + 1) (n + 1))
        (fun _ => True) fun v => depth v ≤ max + 1 := by
      intro max hmax
      rw [h.levelUpTo_succ]
      exact (hstep (.delay (ih hmax))).congr (fun _ => Iff.rfl) fun v => h.depth_le_iff
    cases max with
    | zero =>
      -- at the limit values are still written, and no reader takes them
      have hnone : ∀ v, depth v ≤ 0 ↔ False :=
        fun v => ⟨fun hv => absurd (h.pos v) (Nat.not_lt.mpr hv), False.elim⟩
      have hwritten := hsucc (Nat.zero_le n)
      exact (hwritten.unread fun path => ⟨_, fun entries => rfl⟩).congr (fun _ => Iff.rfl) hnone
    | succ max => exact hsucc (Nat.le_of_succ_le_succ hmax)

/-- A recursive type of which only so many levels are read: values of more levels are written and refused. -/
theorem recursiveUpTo (h : Recursion depth inside step)
    (hstep : ∀ {layout good}, Composed false layout (fun _ => True) good →
      Composed false (step layout) (fun _ => True) fun v => ∀ w ∈ inside v, good w)
    (max : Nat) (cause : LineError) :
    Composed lenient (recursiveUpTo max cause depth step) (fun _ => True) (fun v => depth v ≤ max) := by
  have hwire : ∀ n, Codec.Composed false (Layout.levelUpTo cause step max n).wire :=
    fun n => (levelUpTo h hstep cause (Nat.zero_le n)).wire
  -- all values are plain, so nothing is to be forgotten
  have hlevels : Composed false (Layout.ofLevels (Layout.levelUpTo cause step max) depth) (fun _ => True)
      (fun v => depth v ≤ max) :=
    .ofLevels hwire (fun n hn => levelUpTo h hstep cause hn) (h.towerUpTo max) (fun _ => rfl)
      (Or.inl fun _ => trivial)
  exact hlevels.of_false

end Composed

end Layout

end LedgerTx
