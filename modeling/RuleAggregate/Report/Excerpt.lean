import RuleAggregate.Report.Window
import RuleAggregate.Text.Blank
import RuleAggregate.Text.Lines

/-!
# Excerpts of the rule source

A diagnostic is shown with the lines that its span covers.  A span within one line is underlined.
A span over several lines is bracketed along their left edge: of the lines between its first and
its last one, at most four are shown after the first, and one before the last.  Dots stand for the
middle of a span within one line that is much wider than the terminal.

## What is here

* `Extent` — a span in terms of lines and columns.
* `Extent.shownLines` — the numbers of the lines that are shown.
* `Extent.rows` — the excerpt, row by row.
-/

set_option autoImplicit false

namespace RuleAggregate

open Text (Line)

/-- Where a span starts and ends on the screen. -/
structure Extent where
  first : Line
  last : Line
  /-- The number of the character in the first line at which the span starts, from 1 on. -/
  character : Nat
  /-- The column of the first line at which the span starts. -/
  start : Nat
  /-- The column of the last line before which the span ends. -/
  stop : Nat

namespace Extent

/-- The extent of a span.  An end beyond the characters of its line counts as one more character
or column, so that it can be told apart from the end of the characters. -/
def of (ls : List Line) (s : Text.Span) : Extent :=
  let first := Text.lineAt ls s.start
  let last := if s.isEmpty then first else Text.lineAt ls s.stop
  let start := Text.width (first.before s.start)
  let beyond := if first.textStop < s.start then 1 else 0
  let stop :=
    if s.isEmpty then start
    else if last.number ≠ first.number ∧ last.textStop < s.stop then
      Text.width (last.before s.stop) + 1
    else Text.width (last.before s.stop)
  { first, last, character := (first.before s.start).length + beyond + 1, start
    stop := if last.number = first.number ∧ start = stop then stop + 1 else stop }

/-- Whether the span lies within one line. -/
def isSingle (e : Extent) : Bool := e.first.number == e.last.number

/-! ## The lines that are shown -/

/-- Whether a line says something: it is not blank, not a comment, and not a single delimiter. -/
def saysSomething (text : List Char) : Bool :=
  let t := Text.trim text
  let isComment := "//".toList.isPrefixOf t
    && !"///".toList.isPrefixOf t && !"//!".toList.isPrefixOf t
  !isComment && !([[], ['{'], ['}'], ['('], [')'], ['['], [']']].contains t)

/-- Whether the line of a number says something. -/
def numberSaysSomething (ls : List Line) (n : Nat) : Bool :=
  (ls[n - 1]?).any fun l => saysSomething l.text

/-- The numbers of the lines between the first and the last that are marked: up to three after the
first one, except that those at the end which say nothing are left out, and the one before the
last, if it says something. -/
def middleLines (ls : List Line) (first last : Nat) : List Nat :=
  let middle := min (first + 4) last
  let candidates := (List.range (middle - first)).map (first + ·)
  let limit := match candidates.reverse.find? (numberSaysSomething ls) with
    | some n => n + 1
    | none => first
  let head := (List.range (limit - (first + 1))).map (first + 1 + ·)
  let tail := if middle < last - 1 ∧ numberSaysSomething ls (last - 1) = true then [last - 1]
    else []
  head ++ tail

/-- The numbers of the marked lines, the first and the last included. -/
def markedLines (ls : List Line) (e : Extent) : List Nat :=
  if e.isSingle then [e.first.number]
  else e.first.number :: middleLines ls e.first.number e.last.number ++ [e.last.number]

/-- A shown line, or a place where lines are left out. -/
inductive Shown where
  | line (n : Nat)
  | gap
  deriving DecidableEq, Repr

/-- What is shown for the marked lines: a single line between two of them is shown as well, and
more than one are left out. -/
def withGaps : List Nat → List Shown
  | [] => []
  | [n] => [.line n]
  | m :: n :: rest =>
    if n = m + 2 then .line m :: .line (m + 1) :: withGaps (n :: rest)
    else if m + 2 < n then .line m :: .gap :: withGaps (n :: rest)
    else .line m :: withGaps (n :: rest)

/-- The numbers of the lines that are shown, and the gaps between them. -/
def shownLines (ls : List Line) (e : Extent) : List Shown := withGaps (markedLines ls e)

/-! ## Rows -/

/-- How an excerpt is laid out. -/
structure Layout where
  /-- The columns for line numbers. -/
  digits : Nat
  /-- The column at which the source begins. -/
  code : Nat
  window : Window

/-- The columns of a terminal. -/
def terminalWidth : Nat := 140

/-- By how many columns a line is indented; a tabulator counts as four. -/
def indentation : List Char → Nat
  | [] => 0
  | c :: text =>
    if Text.isBlank c then (if c = '\t' then 4 else 1) + indentation text else 0

/-- The layout of an excerpt with a label. -/
def layout (ls : List Line) (e : Extent) (digits : Nat) (label : List Char) : Layout :=
  let marked := (markedLines ls e).filterMap fun n => ls[n - 1]?
  let indent := ((marked.filter fun l => !l.text.all Text.isBlank).map
    fun l => indentation l.text).min?.getD 0
  let longest := (marked.map fun l => Text.width l.text).foldl max 0
  let code := if e.isSingle then digits + 3 else digits + 5
  let window := Window.of indent (min e.start (e.stop - 1)) (max (e.start + 1) e.stop)
    (max (e.start + 1) (e.stop + Text.width label + 1)) longest (terminalWidth - code)
  ⟨digits, code, window⟩

namespace Layout

/-- The column of the bracket along the left edge. -/
def rail (y : Layout) : Nat := y.digits + 3

/-- A row without a line number. -/
def bare (y : Layout) : Row := Row.put [] (y.digits + 1) .margin ['|']

/-- A line of the source with its number. -/
def source (y : Layout) (l : Line) : Row :=
  let number := (toString l.number).toList
  let row := Row.put [] 0 .margin (List.replicate (y.digits - number.length) ' ' ++ number)
  y.window.draw (row.put (y.digits + 1) .margin ['|']) y.code l.text

/-- The row that stands for lines that are left out. -/
def gap : Row := Row.ofText .margin Window.dots

/-- The row with an underline from one column of a line to another. -/
def underline (y : Layout) (row : Row) (style : Style) (l : Line) (start stop : Nat) : Row :=
  row.put (y.code + start - y.window.cut l.text) style (List.replicate (stop - start) '^')

/-- The row with a line from the bracket to a column of a line. -/
def lead (y : Layout) (row : Row) (style : Style) (l : Line) (column : Nat) : Row :=
  row.put (y.rail + 1) style
    (List.replicate (y.code + column - y.window.cut l.text - (y.rail + 1)) '_')

/-- The row with the label behind a mark that ends at a column of a line. -/
def labelled (y : Layout) (row : Row) (style : Style) (l : Line) (stop : Nat)
    (label : List Char) : Row :=
  let column := if stop = 0 then 2 else stop + 1
  row.put (y.code + (column - y.window.cut l.text)) style label

/-- How many columns are shown at either end of a span that is too long to be shown whole. -/
def keptAtEnds (y : Layout) : Nat := max (y.window.room / 3) 5

/-- Whether a span takes more than twice the room that there is. -/
def isTooLong (y : Layout) (start stop : Nat) : Bool :=
  y.window.room * 2 < stop - start && 10 < stop - start

/-- The row with dots in place of the middle of a span of a line that is too long to be shown
whole. -/
def shorten (y : Layout) (l : Line) (start stop : Nat) (row : Row) : Row :=
  if y.isTooLong start stop then
    row.elide (y.code + start + y.keptAtEnds - y.window.cut l.text)
      (y.code + stop - y.keptAtEnds - y.window.cut l.text) .margin Window.dots
  else row

end Layout

/-- The rows for a span within one line. -/
def singleRows (e : Extent) (y : Layout) (style : Style) (label : List Char) : List Row :=
  let marks := y.labelled y.bare style e.first e.stop label
  [y.source e.first, y.underline marks style e.first e.start e.stop].map
    (y.shorten e.first e.start e.stop)

/-- The rows for the first line of a span over several lines.  If only blanks stand before the
span, the bracket starts at the line itself. -/
def firstRows (e : Extent) (y : Layout) (style : Style) : List Row :=
  if ((Text.printed e.first.text).take e.start).all Text.isBlank then
    [(y.source e.first).put y.rail style ['/']]
  else
    let lead := y.lead (y.bare.put y.rail style [' ']) style e.first e.start
    [y.source e.first, y.underline lead style e.first e.start (e.start + 1)]

/-- The rows for the last line of a span over several lines. -/
def lastRows (e : Extent) (y : Layout) (style : Style) (label : List Char) : List Row :=
  let start := e.stop - 1
  let lead := y.lead (y.bare.put y.rail style ['|']) style e.last start
  let marks := y.labelled lead style e.last e.stop label
  [(y.source e.last).put y.rail style ['|'],
    y.underline marks style e.last start (start + 1)]

/-- The rows between the first and the last line. -/
def middleRows (y : Layout) (style : Style) (ls : List Line) : List Shown → List Row
  | [] => []
  | .gap :: rest => Layout.gap.put y.rail style ['|'] :: middleRows y style ls rest
  | .line n :: rest =>
    ((ls[n - 1]?).toList.map fun l => (y.source l).put y.rail style ['|'])
      ++ middleRows y style ls rest

/-- The excerpt, row by row. -/
def rows (e : Extent) (ls : List Line) (digits : Nat) (style : Style) (label : List Char) :
    List Row :=
  let y := layout ls e digits label
  if e.isSingle then singleRows e y style label
  else
    let between := ((shownLines ls e).drop 1).dropLast
    firstRows e y style ++ middleRows y style ls between ++ lastRows e y style label

end Extent
end RuleAggregate
