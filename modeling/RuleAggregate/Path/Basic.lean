import RuleAggregate.Decimal.Reading
import RuleAggregate.Text.Blank
import RuleAggregate.Value.Basic

/-!
# Path expressions

The argument of an aggregate function is a literal, or a name followed by any number of fields:
`$o.customer.name`.  Blanks may surround the expression and the dots.

## What is here

* `PathExpr` — literals and paths.
* `PathExpr.read` — reads an expression.
* `PathError` — what can be wrong with an expression.
-/

set_option autoImplicit false

namespace RuleAggregate

/-- A literal, or the fields that lead from a name to a value. -/
inductive PathExpr where
  | literal (v : Value)
  | path (root : String) (fields : List String)
  deriving Inhabited

/-- What can be wrong with an expression, and with the names in it. -/
inductive PathError where
  /-- There is nothing but blanks. -/
  | empty
  /-- There is a quote inside a quoted text. -/
  | quoteInside (text : String)
  /-- It starts like a number and is none. -/
  | badNumber (text : String)
  /-- It is neither a literal nor a path. -/
  | malformed (text : String)
  /-- The global exists, but nobody gave it a value. -/
  | globalWithoutValue (name : String)
  /-- The name is bound nowhere. -/
  | unknownName (name : String)
  deriving DecidableEq, Repr

namespace PathError

/-- The wording of the error. -/
def message : PathError → String
  | empty => "empty expression"
  | quoteInside text => "unsupported string literal " ++ text
  | badNumber text => "invalid number `" ++ text ++ "`"
  | malformed text => "expected `name` or `name.field`, found `" ++ text ++ "`"
  | globalWithoutValue name => "global `" ++ name ++ "` has no value"
  | unknownName name => "unknown name `" ++ name ++ "`"

end PathError

/-! ## Identifiers -/

/-- Whether an identifier may start with the character. -/
def isIdentifierStart (c : Char) : Bool :=
  ('A' ≤ c && c ≤ 'Z') || ('a' ≤ c && c ≤ 'z') || c = '_' || c = '$'

/-- Whether an identifier may go on with the character. -/
def isIdentifierPart (c : Char) : Bool := isIdentifierStart c || Decimal.isDigit c

/-- Whether a text is an identifier. -/
def isIdentifier : List Char → Bool
  | [] => false
  | c :: s => isIdentifierStart c && s.all isIdentifierPart

namespace PathExpr

/-! ## Reading -/

/-- The parts between the dots, the first one apart. -/
def splitDots : List Char → List Char × List (List Char)
  | [] => ([], [])
  | c :: s =>
    let (first, rest) := splitDots s
    if c = '.' then ([], first :: rest) else (c :: first, rest)

/-- The text between a quote at the front and another one at the end. -/
def unquote? : List Char → Option (List Char)
  | '"' :: s => if s.getLast? = some '"' then some s.dropLast else none
  | _ => none

/-- Whether a text starts like a number. -/
def startsLikeNumber : List Char → Bool
  | [] => false
  | c :: _ => Decimal.isDigit c || c = '-'

/-- Reads a number: an integer if it is one of 64 bits, else a floating-point number. -/
def readNumber (text : List Char) : Except PathError PathExpr :=
  match Decimal.readInt64? text with
  | some n => .ok (literal (.int n))
  | none =>
    match Decimal.readFloat? text with
    | some x => .ok (literal (.float x))
    | none => .error (.badNumber (String.ofList text))

/-- Reads a name and the fields after it. -/
def readPath (text : List Char) : Except PathError PathExpr :=
  let (first, rest) := splitDots text
  let root := Text.trim first
  let fields := rest.map Text.trim
  if isIdentifier root && fields.all isIdentifier then
    .ok (path (String.ofList root) (fields.map String.ofList))
  else .error (.malformed (String.ofList text))

/-- Reads an expression. -/
def read (expression : String) : Except PathError PathExpr :=
  let text := Text.trim expression.toList
  if text.isEmpty then .error .empty
  else
    match unquote? text with
    | some inner =>
      if inner.contains '"' then .error (.quoteInside (String.ofList text))
      else .ok (literal (.text (String.ofList inner)))
    | none =>
      if text = "null".toList then .ok (literal .null)
      else if text = "true".toList then .ok (literal (.bool true))
      else if text = "false".toList then .ok (literal (.bool false))
      else if startsLikeNumber text then readNumber text
      else readPath text

end PathExpr
end RuleAggregate
