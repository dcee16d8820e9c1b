import RuleAggregate.Report.Excerpt
import RuleAggregate.Value.Display

/-!
# Printing diagnostics

Without the rule source every diagnostic takes one line.  With the source it is printed as a title,
the place in the source, an excerpt with the place marked, and its hints.

## What is here

* `Rendering` — whether the source is shown, under which name, and whether in color.
* `Rendering.render` — the text of a list of diagnostics.
-/

set_option autoImplicit false

namespace RuleAggregate

/-- How diagnostics are printed. -/
structure Rendering where
  /-- The rule source, if it is to be shown. -/
  source : Option String
  /-- The name of the rule source, if it has one. -/
  path : Option String
  colored : Bool

namespace Rendering

/-- The part of a span that lies within a source of `limit` bytes.  An empty span is widened by a
byte if there is one. -/
def clip (limit : Nat) (s : Text.Span) : Text.Span :=
  let start := min s.start limit
  let stop := min s.stop limit
  if start = stop then ⟨start, min (start + 1) limit⟩ else ⟨start, stop⟩

/-- How many digits line numbers need in an excerpt that ends at an offset. -/
def numberWidth (source : List Char) (offset : Nat) : Nat :=
  let before := Text.startingBefore offset source
  let ends := before.count '\n'
  let number := if before.getLast? = some '\n' then ends else ends + 1
  (toString number).length

/-- The title: the severity and the message. -/
def titleRows (d : Diagnostic) : List Row :=
  let word := d.severity.display.toList
  match (Text.printed d.message.toList).splitOn '\n' with
  | [] => []
  | first :: rest =>
    ((Row.ofText (.mark d.severity) word).add .title (": ".toList ++ first))
      :: rest.map fun line => (Row.blanks (word.length + 2)).add .title line

/-- The name of the source and the place in it. -/
def placeRow (digits : Nat) (path : String) (e : Extent) : Row :=
  ((Row.blanks digits).add .margin "--> ".toList).add .plain
    (path ++ s!":{e.first.number}:{e.character}").toList

/-- A diagnostic with an excerpt of the source. -/
def renderWith (r : Rendering) (source : String) (d : Diagnostic) : String :=
  let text := source.toList
  let ls := Text.lines text
  let span := clip (Text.byteLength text) d.span
  let e := Extent.of ls span
  let digits := numberWidth text span.stop
  let label := ("in rule `" ++ d.rule ++ "`").toList
  let place := r.path.toList.map fun path => placeRow digits path e
  let bar := Row.put [] (digits + 1) .margin ['|']
  let rows := titleRows d ++ place ++ bar :: e.rows ls digits (.mark d.severity) label
  joinWith "\n" (rows.map (Row.write r.colored) ++ d.hints.map fun h => "  = help: " ++ h)

/-- The text of diagnostics. -/
def render (r : Rendering) (ds : List Diagnostic) : String :=
  match r.source with
  | none => joinWith "\n" (ds.map Diagnostic.display)
  | some source => joinWith "\n" (ds.map (r.renderWith source))

end Rendering
end RuleAggregate
