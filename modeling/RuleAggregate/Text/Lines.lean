import RuleAggregate.Text.Slice

/-!
# Lines of a text

## What is here

* `Text.startingBefore` — the characters of a text that start before an offset.
* `Text.Line` — a line with its number and the byte offsets of its ends.
* `Text.lines` — the lines of a text; even an empty text has one.
* `Text.lineAt` — the line on which an offset lies.
-/

set_option autoImplicit false

namespace RuleAggregate
namespace Text

/-- The characters of a text that start within its first `n` bytes. -/
def startingBefore (n : Nat) : List Char → List Char
  | [] => []
  | c :: s => if n = 0 then [] else c :: startingBefore (n - c.utf8Size) s

/-- A line of a text. -/
structure Line where
  /-- The number of the line; the first one is 1. -/
  number : Nat
  /-- The characters of the line without its line end. -/
  text : List Char
  /-- The offset of its first byte. -/
  start : Nat
  /-- The offset after its line end. -/
  stop : Nat
  deriving DecidableEq, Repr, Inhabited

namespace Line

/-- The offset after the last character of the line. -/
def textStop (l : Line) : Nat := l.start + byteLength l.text

/-- The characters of the line that start before an offset. -/
def before (l : Line) (offset : Nat) : List Char := startingBefore (offset - l.start) l.text

end Line

/-- The line of the given characters, at an offset.  A carriage return before the line end belongs
to the line end. -/
def lineOf (number start : Nat) (characters : List Char) (ended : Bool) : Line where
  number := number
  text :=
    if ended && characters.getLast? == some '\r' then characters.dropLast else characters
  start := start
  stop := start + byteLength characters + if ended then 1 else 0

/-- The lines of a text.  The line that has begun has a number, an offset and the characters
`begun`. -/
def linesFrom (number start : Nat) (begun : List Char) : List Char → List Line
  | [] => if begun.isEmpty then [] else [lineOf number start begun false]
  | c :: s =>
    if c = '\n' then
      let l := lineOf number start begun true
      l :: linesFrom (number + 1) l.stop [] s
    else linesFrom number start (begun ++ [c]) s

/-- The lines of a text; an empty text has one empty line. -/
def lines (s : List Char) : List Line :=
  match linesFrom 1 0 [] s with
  | [] => [lineOf 1 0 [] false]
  | ls => ls

/-- The line on which an offset lies, or else the last line. -/
def lineAt (ls : List Line) (offset : Nat) : Line :=
  match ls.find? fun l => l.start ≤ offset && offset < l.stop with
  | some l => l
  | none => ls.getLastD (lineOf 1 0 [] false)

end Text
end RuleAggregate
