import RuleAggregate.Code.Token

/-!
# Splitting fragments into tokens

At every place the longest text that has the shape of some kind of token is taken.  A block
comment or a string that is never closed therefore falls apart into shorter tokens where it can,
and is an error where it cannot.

## What is here

* `Fragment.munch?` — the kind and the length of the longest token at the front of a text.
* `Fragment.lexemes` — all tokens of a text, blanks and comments included.
* `Fragment.tokens` — the tokens that carry meaning.
-/

set_option autoImplicit false

namespace RuleAggregate

/-- Why a fragment could not be analyzed.  Offsets are kept in 32 bits, which hold every offset
into a text of less than 2³² bytes; of a larger offset the lower bits are left. -/
inductive AnalyzeError where
  /-- No token starts at the offset. -/
  | unexpected (offset : UInt32) (message : String)
  /-- A delimiter has no partner. -/
  | unbalanced (delimiter : Char) (offset : UInt32)
  deriving DecidableEq, Repr

namespace AnalyzeError

/-- The wording of the error. -/
def message : AnalyzeError → String
  | unexpected offset message => s!"unexpected input at offset {offset}: " ++ message
  | unbalanced delimiter offset =>
    "unbalanced `" ++ String.singleton delimiter ++ s!"` at offset {offset}"

end AnalyzeError

namespace Fragment

/-- Of two candidates, the one with the longer text; of equally long ones the first. -/
def longer (a b : Option (TokenKind × Nat)) : Option (TokenKind × Nat) :=
  match a, b with
  | none, b => b
  | a, none => a
  | some (k, m), some (l, n) => if m < n then some (l, n) else some (k, m)

/-- The kind of the longest token that starts with `c`, and how many characters of `rest` belong
to it. -/
def munch? (c : Char) (rest : List Char) : Option (TokenKind × Nat) :=
  TokenKind.all.foldl
    (fun best k => longer best (((k.shape.derivative c).longest? rest).map (k, ·))) none

/-- How many characters at the front of a text could start a token that never ends; at least
one. -/
def unfinished (s : List Char) : Nat :=
  TokenKind.all.foldl (fun n k => max n (k.shape.reach s)) 1

/-- All tokens of a text that starts at a byte offset, blanks and comments included. -/
def lexemes (offset : Nat) : List Char → Except AnalyzeError (List Token)
  | [] => .ok []
  | c :: rest =>
    match munch? c rest with
    | none =>
      .error (.unexpected offset.toUInt32
        ("unrecognized input `" ++ String.ofList ((c :: rest).take (unfinished (c :: rest)))
          ++ "`"))
    | some (k, n) =>
      let text := c :: rest.take n
      (lexemes (offset + Text.byteLength text) (rest.drop n)).map (⟨k, offset, text⟩ :: ·)
termination_by s => s.length
decreasing_by
  simp only [List.length_drop, List.length_cons]
  omega

/-- The tokens of a fragment without blanks and comments. -/
def tokens (code : List Char) : Except AnalyzeError (List Token) :=
  (lexemes 0 code).map fun ts => ts.filter fun t => !t.kind.isTrivia

end Fragment
end RuleAggregate
