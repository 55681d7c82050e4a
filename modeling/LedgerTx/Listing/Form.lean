import LedgerTx.Bijection
import LedgerTx.Enumeration
import LedgerTx.Listing.Line

namespace LedgerTx

/-! # Text forms

A form is how values of one type stand in a listing, below a path that the surroundings choose.  Lines are
written in the order in which the wire has the fields, and read strictly in that order: each read names
the path that it expects on the next line. -/

namespace Listing

/-- A reader of a value from the next lines; it hands back the lines it did not use. -/
abbrev Reader (α : Type) := List Entry → Except ListingError (α × List Entry)

/-- A failure at a path. -/
def failAt {α : Type} (path : Path) (cause : LineError) : Except ListingError α :=
  .error ⟨String.ofList path.text, cause⟩

/-- Reads the next line, which must be at the given path: its token and what follows the token. -/
def readValue (path : Path) : Reader (List Char × List Char)
  | [] => failAt path .missingLine
  | entry :: entries =>
    if entry.path ≠ path.text then
      failAt path (.outOfPlace entry.number (String.ofList entry.path))
    else
      let (token, after) := splitToken entry.value
      if token.isEmpty then failAt path .missingValue else .ok ((token, after), entries)

/-- Succeeds when no line is left. -/
def finish : List Entry → Except ListingError Unit
  | [] => .ok ()
  | entry :: _ => .error ⟨String.ofList entry.path, .unexpectedLine entry.number⟩

end Listing

open Listing

/-- How values of a type stand in a listing. -/
structure Form (α : Type) where
  write : Path → α → Except ListingError (List Line)
  read : Path → Reader α

namespace Form

variable {α β κ : Type}

/-! ## Single values -/

/-- A value on one line.  Reading is given the token and what follows it on the line. -/
def line (print : α → Except LineError (List Char))
    (parse : (token after : List Char) → Except LineError α) : Form α where
  write path a :=
    match print a with
    | .ok value => .ok [⟨path, value⟩]
    | .error cause => failAt path cause
  read path entries := do
    let ((token, after), entries) ← readValue path entries
    match parse token after with
    | .ok a => return (a, entries)
    | .error cause => failAt path cause

/-- A value whose text is a single token, and that may be followed by any comment. -/
def token (print : α → List Char) (parse : List Char → Except LineError α) : Form α :=
  line (fun a => .ok (print a)) fun token _ => parse token

/-- A number; `print` may add a comment. -/
def number (print : α → List Char) (parse? : List Char → Option α) : Form α :=
  token print fun token =>
    match parse? token with
    | some a => .ok a
    | none => .error (.notNumber (String.ofList token))

/-- A truth value. -/
def bool : Form Bool :=
  token (fun b => if b then ['t', 'r', 'u', 'e'] else ['f', 'a', 'l', 's', 'e']) fun token =>
    if token = ['t', 'r', 'u', 'e'] then .ok true
    else if token = ['f', 'a', 'l', 's', 'e'] then .ok false
    else .error (.notBoolean (String.ofList token))

/-- A value by its name. -/
def named (print : α → String) (parse? : String → Option α) : Form α :=
  token (fun a => (print a).toList) fun token =>
    match parse? (String.ofList token) with
    | some a => .ok a
    | none => .error (.unknownName (String.ofList token))

/-- A value with a text of its own. -/
def parsed (print : α → String) (parse : String → Except ValueError α) : Form α :=
  token (fun a => (print a).toList) fun token => (parse (String.ofList token)).mapError .value

/-- A constant of a closed set, by its name. -/
def constant (κ : Type) [Enumeration κ] : Form κ :=
  named Enumeration.name Enumeration.ofName?

/-- Those constants of a closed set that a union has arms for; `arm?` names the arm of a constant, and
`refuse` says what is wrong with the name of one that has none. -/
def arms {κ τ : Type} [Enumeration κ] (constantOf : τ → κ) (arm? : κ → Option τ)
    (refuse : String → LineError) : Form τ :=
  token (fun t => (Enumeration.name (constantOf t)).toList) fun token =>
    match Enumeration.ofName? (κ := κ) (String.ofList token) with
    | none => .error (.unknownName (String.ofList token))
    | some k =>
      match arm? k with
      | some t => .ok t
      | none => .error (refuse (Enumeration.name k))

/-! ## Compound values -/

/-- A value that stands as the part of that name. -/
def under (name : String) (form : Form α) : Form α where
  write path a := form.write (path.field name) a
  read path entries := form.read (path.field name) entries

/-- Values of one type in the form of those of another. -/
def map (view : Bijection α β) (form : Form β) : Form α where
  write path a := form.write path (view.forth a)
  read path entries := do
    let (b, entries) ← form.read path entries
    return (view.back b, entries)

/-- No lines. -/
def unit : Form Unit where
  write _ _ := .ok []
  read _ entries := .ok ((), entries)

/-- The lines of one value and then those of another. -/
def pair (first : Form α) (second : Form β) : Form (α × β) where
  write path v := do
    let lines ← first.write path v.1
    let more ← second.write path v.2
    return lines ++ more
  read path entries := do
    let (a, entries) ← first.read path entries
    let (b, entries) ← second.read path entries
    return ((a, b), entries)

/-- A tag and then a payload in the form that the tag says. -/
def sigma {β : κ → Type} (tag : Form κ) (payload : (k : κ) → Form (β k)) : Form (Sigma β) where
  write path v := do
    let lines ← tag.write path v.1
    let more ← (payload v.1).write path v.2
    return lines ++ more
  read path entries := do
    let (k, entries) ← tag.read path entries
    -- the payload stands at the path of the whole, not below the tag
    let (b, entries) ← (payload k).read path entries
    return (⟨k, b⟩, entries)

/-- Either a value on the path itself, or one in parts, of which the first has the given name. -/
def either (plain : Form α) (mark : String) (inParts : Form β) : Form (α ⊕ β) where
  write path
    | .inl a => plain.write path a
    | .inr b => inParts.write path b
  read path entries :=
    -- the path of the next line tells which it is
    if entries.head?.map Entry.path = some (path.field mark).text then do
      let (b, entries) ← inParts.read path entries
      return (.inr b, entries)
    else do
      let (a, entries) ← plain.read path entries
      return (.inl a, entries)

/-- The number of elements, which must be at most `max`. -/
def count (max : Nat) : Form Nat :=
  line (fun n => .ok (Decimal.ofNat n)) fun token _ =>
    match Decimal.uint32? token with
    | none => .error (.notNumber (String.ofList token))
    -- the limit is checked before any element is read
    | some n => if n.toNat ≤ max then .ok n.toNat else .error (.tooLong n.toNat max)

/-- Writes elements of which the first has the given index. -/
def writeItems (item : Form α) (path : Path) (index : Nat) : List α → Except ListingError (List Line)
  | [] => .ok []
  | a :: rest => do
    let lines ← item.write (path.item index) a
    let more ← writeItems item path (index + 1) rest
    return lines ++ more

/-- Reads elements of which the first has the given index. -/
def readItems (item : Form α) (path : Path) (index : Nat) : (count : Nat) → Reader (List α)
  | 0, entries => .ok ([], entries)
  | count + 1, entries => do
    let (a, entries) ← item.read (path.item index) entries
    let (rest, entries) ← readItems item path (index + 1) count entries
    return (a :: rest, entries)

/-- The number of elements, at most `max`, and the elements. -/
def list (max : Nat) (item : Form α) : Form (List α) where
  write path v := do
    let lines ← ((count max).under "len").write path v.length
    let more ← writeItems item path 0 v
    return lines ++ more
  read path entries := do
    let (n, entries) ← ((count max).under "len").read path entries
    readItems item path 0 n entries

/-- Whether there is a value, and the value. -/
def option (item : Form α) : Form (Option α) where
  write path
    -- the mark is a part of its own, and the value stands at the path itself
    | none => (bool.under "_present").write path false
    | some a => do
      let lines ← (bool.under "_present").write path true
      let more ← item.write path a
      return lines ++ more
  read path entries := do
    let (present, entries) ← (bool.under "_present").read path entries
    if present then
      let (a, entries) ← item.read path entries
      return (some a, entries)
    else
      return (none, entries)

/-! ## Parts of recursive types -/

/-- The form of no values. -/
def empty (cause : LineError) : Form α where
  write path _ := failAt path cause
  read path _ := failAt path cause

/-- A form that is put together when it is first used. -/
def delay (form : Unit → Form α) : Form α where
  write path a := (form ()).write path a
  read path entries := (form ()).read path entries

end Form

end LedgerTx
