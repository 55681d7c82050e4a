import LedgerTx.Listing.Form
import LedgerTx.Wire.Codec

namespace LedgerTx

/-! # Layouts

The wire and the listing hold the same fields in the same order.  A layout says both at once: how values
of a type stand on the wire, and how they stand in a listing.  Types that never stand in a listing have a
codec only. -/

/-- How values of a type stand on the wire and in a listing. -/
structure Layout (α : Type) where
  wire : Codec α
  form : Form α

namespace Layout

variable {α β κ : Type}

/-- Values of one type laid out as those of another. -/
def map (view : Bijection α β) (layout : Layout β) : Layout α :=
  ⟨layout.wire.map view, layout.form.map view⟩

/-- A value that stands as the part of that name. -/
def under (name : String) (layout : Layout α) : Layout α :=
  ⟨layout.wire, layout.form.under name⟩

/-- Nothing. -/
def unit : Layout Unit :=
  ⟨.unit, .unit⟩

/-- One value after another. -/
def pair (first : Layout α) (second : Layout β) : Layout (α × β) :=
  ⟨.pair first.wire second.wire, .pair first.form second.form⟩

/-- A named field and then the fields that follow it. -/
def field (name : String) (layout : Layout α) (others : Layout β) : Layout (α × β) :=
  .pair (layout.under name) others

/-- A tag and then a payload as the tag says. -/
def sigma {β : κ → Type} (tag : Layout κ) (payload : (k : κ) → Layout (β k)) : Layout (Sigma β) :=
  ⟨.sigma tag.wire fun k => (payload k).wire, .sigma tag.form fun k => (payload k).form⟩

/-- At most `max` values. -/
def list (max : Nat) (item : Layout α) : Layout (List α) :=
  ⟨.list max item.wire, .list max item.form⟩

/-- A value or none. -/
def option (item : Layout α) : Layout (Option α) :=
  ⟨.option item.wire, .option item.form⟩

/-- A constant of a closed set. -/
def constant (κ : Type) [Enumeration κ] : Layout κ :=
  ⟨.constant κ, .constant κ⟩

/-- A constant of a set that later kinds may join on the wire. -/
def openConstant {κ : Type} [Enumeration κ] (title : String) (last : κ) : Layout κ :=
  ⟨.openConstant title last, .constant κ⟩

/-- Those constants of a closed set that a union has arms for. -/
def arms {κ τ : Type} [Enumeration κ] (title : String) (constantOf : τ → κ) (arm? : κ → Option τ)
    (refuse : String → LineError) : Layout τ :=
  ⟨.arms title constantOf arm?, .arms constantOf arm? refuse⟩

/-- A layout that is put together when it is first used. -/
def delay (layout : Unit → Layout α) : Layout α :=
  ⟨.delay fun _ => (layout ()).wire, .delay fun _ => (layout ()).form⟩

/-- The layout of values nested at most `n` levels deep. -/
def level (cause : LineError) (step : Layout α → Layout α) : (n : Nat) → Layout α
  | 0 => ⟨.empty, .empty cause⟩
  | n + 1 => step (delay fun _ => level cause step n)

/-- The layout of a type whose values contain values of the same type, with `depth` levels.  What is left
to read bounds the levels that it can hold: each takes four bytes or one line at least. -/
def recursive (depth : α → Nat) (step : Layout α → Layout α) : Layout α where
  wire := {
    encode := fun v => (level .missingLine step (depth v)).wire.encode v
    decode := fun rules bytes =>
      (level .missingLine step (bytes.length / 4 + 1)).wire.decode rules bytes
    fits := fun rules v => (level .missingLine step (depth v)).wire.fits rules v }
  form := {
    write := fun path v => (level .missingLine step (depth v)).form.write path v
    read := fun path entries => (level .missingLine step (entries.length + 1)).form.read path entries }

/-- The layout of a recursive type of which listings are read only when values are nested at most
`levels` deep. -/
def recursiveUpTo (levels : Nat) (cause : LineError) (depth : α → Nat) (step : Layout α → Layout α) :
    Layout α where
  wire := (recursive depth step).wire
  form := {
    write := fun path v => (level cause step (depth v)).form.write path v
    read := fun path entries => (level cause step levels).form.read path entries }

end Layout

end LedgerTx
