import RuleAggregate.Text.Unmarked

/-!
# Quoted text

A text is quoted so that it can be read on one line: between double quotes, with a backslash
before a quote or a backslash, short escapes for the common controls, and the code point in
hexadecimal for every other character that leaves no mark of its own.

## What is here

* `Text.escape` — the spelling of one character.
* `Text.quote` — the quoted text.
-/

set_option autoImplicit false

namespace RuleAggregate
namespace Text

/-- A code point in lower-case hexadecimal between braces. -/
def codePoint (c : Char) : List Char :=
  ['\\', 'u', '{'] ++ Nat.toDigits 16 c.toNat ++ ['}']

/-- How a character is spelt between the quotes. -/
def escape (c : Char) : List Char :=
  if c = '\x00' then ['\\', '0']
  else if c = '\t' then ['\\', 't']
  else if c = '\n' then ['\\', 'n']
  else if c = '\r' then ['\\', 'r']
  else if c = '"' then ['\\', '"']
  else if c = '\\' then ['\\', '\\']
  else if isUnmarked c then codePoint c
  else [c]

/-- The text between double quotes. -/
def quote (s : String) : String :=
  String.ofList ('"' :: s.toList.flatMap escape ++ ['"'])

end Text
end RuleAggregate
