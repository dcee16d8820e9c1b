import RuleAggregate.Code.Locals

/-!
# Turning local variables into attributes

The local variables of init code outlive it: they become attributes of the accumulator, and each
declaration `Type a = x, b;` becomes the assignments `a = x;b;`.

## What is here

* `Attribute` — an attribute with the type that its declaration gives it.
* `Fragment.hoist?` — the code with the declarations rewritten, and the attributes.
-/

set_option autoImplicit false

namespace RuleAggregate

/-- A variable that init code declares. -/
structure Attribute where
  name : String
  typeName : String
  deriving DecidableEq, Repr

/-- Init code without declarations, and the attributes that they became. -/
structure Hoisted where
  code : String
  /-- One for every declared name, in source order. -/
  attributes : List Attribute
  deriving DecidableEq, Repr

namespace Fragment

/-- How many bytes at the front of a text are blanks and semicolons. -/
def trailingBlanks (s : List Char) : Nat := (s.takeWhile (" \t\n\x0c\r;".toList.contains ·)).length

/-- Where the code goes on after a declared name that ends at `stop`: after the blanks and
semicolons that follow it. -/
def resume (code : List Char) (stop : Nat) : Nat :=
  match Text.dropBytes? stop code with
  | some rest => stop + trailingBlanks rest
  | none => stop

/-- The assignments of one declaration, and where the code goes on after them.  `next` is where it
went on so far. -/
def hoistNames? (code : List Char) (next : Nat) : List LocalName → Option (List Char × Nat)
  | [] => some ([], next)
  | n :: ns => do
    let text ← Text.slice? code n.span.start n.span.stop
    let (out, next) ← hoistNames? code (resume code n.span.stop) ns
    return (text ++ ';' :: out, next)

/-- Rewrites declarations one after the other.  `next` is where the code goes on after the last
one. -/
def hoistFrom? (code : List Char) (next : Nat) : List Local → Option (List Char)
  | [] => Text.slice? code next (Text.byteLength code)
  | l :: ls => do
    let between ←
      if next ≤ l.span.start then Text.slice? code next l.span.start else some []
    let (assignments, next) ← hoistNames? code (max next l.span.stop) l.names
    let out ← hoistFrom? code next ls
    return between ++ assignments ++ out

/-- Whether a span does not run backwards. -/
def isForward (s : Text.Span) : Bool := decide (s.start ≤ s.stop)

/-- Rewrites declarations to assignments, in source order.  There is no result if a span runs
backwards, leaves the code, or cuts through a character. -/
def hoist? (code : String) (ls : List Local) : Option Hoisted :=
  if ls.all fun l => isForward l.span && l.names.all fun n => isForward n.span then
    let sorted := ls.mergeSort fun l m => decide (l.span.start ≤ m.span.start)
    (hoistFrom? code.toList 0 sorted).map fun out =>
      ⟨String.ofList out, sorted.flatMap fun l => l.names.map fun n => ⟨n.name, l.typeName⟩⟩
  else none

end Fragment
end RuleAggregate
