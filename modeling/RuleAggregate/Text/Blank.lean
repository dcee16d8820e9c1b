/-!
# Blank characters

The characters with the Unicode property `White_Space`.

## What is here

* `Text.blankRanges`, `Text.isBlank` — the characters.
* `Text.trim` — a text without the blanks at its ends.
-/

set_option autoImplicit false

namespace RuleAggregate
namespace Text

/-- The code points of blank characters, as ranges in increasing order. -/
def blankRanges : List (Nat × Nat) :=
  [(0x9, 0xd), (0x20, 0x20), (0x85, 0x85), (0xa0, 0xa0), (0x1680, 0x1680), (0x2000, 0x200a),
   (0x2028, 0x2029), (0x202f, 0x202f), (0x205f, 0x205f), (0x3000, 0x3000)]

/-- Whether a character is blank. -/
def isBlank (c : Char) : Bool := blankRanges.any fun r => r.1 ≤ c.toNat && c.toNat ≤ r.2

/-- The text without the blanks at its ends. -/
def trim (s : List Char) : List Char :=
  ((s.dropWhile isBlank).reverse.dropWhile isBlank).reverse

end Text
end RuleAggregate
