import LedgerTx.Error
import LedgerTx.Listing.Path
import LedgerTx.Text.Blank
import LedgerTx.Text.Quoted

namespace LedgerTx.Listing

/-! # Lines

A line holds a path, a colon and a value.  Of the value, the first token counts: a string in double
quotes, or what stands before the first blank.  What follows is a comment, and blank lines are skipped. -/

/-- A line to be written. -/
structure Line where
  path : Path
  value : List Char
deriving DecidableEq

/-- A line as it is written, with its line feed. -/
def Line.text (line : Line) : List Char :=
  line.path.text ++ ':' :: ' ' :: line.value ++ ['\n']

/-- The text of a sequence of lines. -/
def textOf (lines : List Line) : List Char :=
  lines.flatMap Line.text

/-- A line that has been read, with its number in the text, counted from one. -/
structure Entry where
  number : Nat
  path : List Char
  value : List Char
deriving DecidableEq

/-- Cuts a text at its line feeds. -/
def splitLines : List Char → List (List Char)
  | [] => [[]]
  | c :: rest =>
    if c = '\n' then [] :: splitLines rest
    else
      match splitLines rest with
      | [] => [[c]]
      | line :: lines => (c :: line) :: lines

/-- The entry on a line without blanks at its ends. -/
def Entry.ofLine (number : Nat) (line : List Char) : Except ListingError Entry :=
  match line.span (· != ':') with
  | (path, _ :: value) => .ok ⟨number, Blank.trim path, Blank.trim value⟩
  | (_, []) => .error ⟨String.ofList line, .noSeparator number⟩

/-- The entries on lines of which the first has the given number; blank lines hold none. -/
def Entry.ofLines (number : Nat) : List (List Char) → Except ListingError (List Entry)
  | [] => .ok []
  | line :: lines => do
    let trimmed := Blank.trim line
    if trimmed.isEmpty then Entry.ofLines (number + 1) lines
    else
      let entry ← Entry.ofLine number trimmed
      let entries ← Entry.ofLines (number + 1) lines
      return entry :: entries

/-- The entries of a text. -/
def Entry.ofText (text : List Char) : Except ListingError (List Entry) :=
  Entry.ofLines 1 (splitLines text)

/-- Splits a value after its first token. -/
def splitToken : List Char → List Char × List Char
  | '"' :: rest => let (body, after) := Quoted.spanBody rest; ('"' :: body, after)
  | value => Blank.spanWord value

end LedgerTx.Listing
