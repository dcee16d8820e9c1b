import RuleAggregate.Code.Lexer

/-!
# Matching delimiters

## What is here

* `Fragment.unmatched?` — the first closing delimiter that does not match the innermost open one,
  or else the innermost delimiter that is left open.
* `Fragment.checkBalance` — the same as an error, with the offset in 32 bits.
-/

set_option autoImplicit false

namespace RuleAggregate
namespace Fragment

/-- The delimiter without a partner that is reported, with its offset.  `stack` holds the open
delimiters, the innermost first. -/
def unmatched? (stack : List (Bracket × Nat)) : List Token → Option (Char × Nat)
  | [] => stack.head?.map fun (b, offset) => (b.opening, offset)
  | t :: ts =>
    match t.kind with
    | .opener b => unmatched? ((b, t.start) :: stack) ts
    | .closer b =>
      match stack with
      | (b', _) :: stack => if b' = b then unmatched? stack ts else some (b.closing, t.start)
      | [] => some (b.closing, t.start)
    | _ => unmatched? stack ts

/-- Fails if some delimiter has no partner. -/
def checkBalance (ts : List Token) : Except AnalyzeError Unit :=
  match unmatched? [] ts with
  | some (delimiter, offset) => .error (.unbalanced delimiter offset.toUInt32)
  | none => .ok ()

end Fragment
end RuleAggregate
