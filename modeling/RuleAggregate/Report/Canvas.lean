import RuleAggregate.Report.Diagnostic

/-!
# Rows of styled characters

## What is here

* `Style`, `Cell`, `Row` — a row of characters, each with a style.
* `Row.put` — writes a text at a column.
* `Row.elide` — writes a text in place of the characters between two columns.
* `Row.write` — the characters of a row, with the control sequences for its styles if wanted.
-/

set_option autoImplicit false

namespace RuleAggregate

/-- How a character is printed. -/
inductive Style where
  | plain
  /-- Titles. -/
  | title
  /-- Line numbers and what separates them from the source. -/
  | margin
  /-- Whatever points at the place of a diagnostic. -/
  | mark (s : Severity)
  deriving DecidableEq, Repr

namespace Style

/-- The control sequence that switches the style on. -/
def on : Style → String
  | plain => ""
  | title => "\x1b[1m"
  | margin => "\x1b[1m\x1b[94m"
  | mark .error => "\x1b[1m\x1b[91m"
  | mark .warning => "\x1b[1m\x1b[33m"

/-- The control sequence that switches the style off. -/
def off : Style → String
  | plain => ""
  | _ => "\x1b[0m"

end Style

/-- A character with a style. -/
structure Cell where
  style : Style
  char : Char
  deriving DecidableEq, Repr

/-- A row of styled characters. -/
abbrev Row := List Cell

namespace Row

/-- A text of one style. -/
def ofText (style : Style) (text : List Char) : Row := text.map (⟨style, ·⟩)

/-- Blanks. -/
def blanks (n : Nat) : Row := List.replicate n ⟨.plain, ' '⟩

/-- The row with a text written at a column, over what was there.  Blanks fill the row up to the
column, unless there is nothing to write. -/
def put (row : Row) (column : Nat) (style : Style) (text : List Char) : Row :=
  if text.isEmpty then row
  else
    let row := row ++ blanks (column - row.length)
    row.take column ++ ofText style text ++ row.drop (column + text.length)

/-- The row with a text in place of the characters from one column up to another.  A row that ends
before the second column stays as it is. -/
def elide (row : Row) (start stop : Nat) (style : Style) (text : List Char) : Row :=
  if start < stop ∧ stop ≤ row.length then
    row.take start ++ ofText style text ++ row.drop stop
  else row

/-- The row with a text appended. -/
def add (row : Row) (style : Style) (text : List Char) : Row := row ++ ofText style text

/-- The characters of a row with control sequences, after a character of style `s`. -/
def writeFrom (s : Style) : Row → String
  | [] => s.off
  | c :: row =>
    if c.style = s then String.singleton c.char ++ writeFrom s row
    else s.off ++ c.style.on ++ String.singleton c.char ++ writeFrom c.style row

/-- The characters of a row, with control sequences if it is colored. -/
def write (colored : Bool) (row : Row) : String :=
  if colored then writeFrom .plain row else String.ofList (row.map Cell.char)

end Row
end RuleAggregate
