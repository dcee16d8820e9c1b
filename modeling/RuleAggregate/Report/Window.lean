import RuleAggregate.Report.Canvas
import RuleAggregate.Text.Columns

/-!
# Windows onto wide lines

A line that is wider than the terminal, or that is indented very far, is shown in part.  Dots
stand for what is left out at either end.

## What is here

* `Window` — the columns of the source that are shown.
* `Window.of` — the window that shows as much as possible of a marked place.
* `Window.draw` — writes the visible part of a line into a row.
-/

set_option autoImplicit false

namespace RuleAggregate

/-- The columns of the source that are shown. -/
structure Window where
  /-- The first column. -/
  left : Nat
  /-- The column after the last one. -/
  right : Nat
  /-- How many columns there is room for. -/
  room : Nat
  deriving DecidableEq, Repr

namespace Window

/-- What stands for the part that is left out. -/
def dots : List Char := ['.', '.', '.']

/-- Room for dots around a marked place. -/
def clearance : Nat := 6

/-- The window onto lines of which the longest has `longest` columns.  All of them are indented by
`indent` columns at least, the marks reach from `first` to `last`, and with their label to
`labelled`.  Only the indentation in front of the marks counts, and if it has more than twenty
columns it is cut to four; if the lines still do not fit, the window is placed around the marks
and the label, or at least around the marks. -/
def of (indent first last labelled longest room : Nat) : Window :=
  let indent := min indent first - clearance
  let first := first - clearance
  let last := last + clearance
  let labelled := labelled + clearance
  let left := if 20 < indent then indent - 16 else 0
  let right := max longest left
  if right - left ≤ room then ⟨left, right, room⟩
  else if labelled - indent ≤ room then ⟨indent, indent + room, room⟩
  else if labelled - first ≤ room then
    let left := first - (room - (labelled - first)) / 2
    ⟨left, left + room, room⟩
  else if last - first ≤ room then
    let left := first - (room - (last - first)) / 5 * 2
    ⟨left, left + room, room⟩
  else ⟨first, last, room⟩

/-- The first visible column of a line of `length` columns. -/
def leftOf (w : Window) (length : Nat) : Nat := min w.left length

/-- The column after the last visible one of a line of `length` columns. -/
def rightOf (w : Window) (length : Nat) : Nat :=
  if max length w.left - w.left ≤ w.room then length else min length w.right

/-- How many columns are left out at the front of a line. -/
def cut (w : Window) (line : List Char) : Nat :=
  let line := Text.printed line
  max (w.leftOf (Text.printedWidth line))
    (Text.dropColumns (w.leftOf (Text.printedWidth line)) line).1

/-- Writes the visible part of a line into a row, from a column on. -/
def draw (w : Window) (row : Row) (column : Nat) (line : List Char) : Row :=
  let line := Text.printed line
  let length := Text.printedWidth line
  let left := w.leftOf length
  let right := w.rightOf length
  let code := Text.takeColumns (right - left) (Text.dropColumns left line).2
  let (hidden, rest) := if 0 < w.left then Text.dropColumns dots.length code else (0, code)
  let row := if 0 < w.left then row.put column .margin dots else row
  let row := row.put (column + hidden) .plain rest
  if right < length then
    let kept := (Text.dropColumns dots.length code.reverse).2.length
    row.put (column + hidden + rest.length - (code.length - kept)) .margin dots
  else row

end Window
end RuleAggregate
