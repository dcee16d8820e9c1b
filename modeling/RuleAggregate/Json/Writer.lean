import RuleAggregate.Decimal.Format
import RuleAggregate.Decimal.Integer
import RuleAggregate.Value.Basic

/-!
# Values as JSON

A fact is written as an object whose first member, `$type`, holds its type name; the fields follow
in their order.  Nothing is written between tokens.  Numbers that are not finite become `null`.

## What is here

* `Json.escape`, `Json.writeString` — strings, with only the characters escaped that must be.
* `Json.writtenFloat` — the layout of floating-point numbers.
* `Json.write` — the JSON text of a value, as characters.
* `Value.json`, `Fact.json` — the same as strings.
-/

set_option autoImplicit false

namespace RuleAggregate
namespace Json

/-- Numbers from `0.00001` up and below `10 ^ 16` are written with a decimal point, exponents
always carry a sign, and of two equally near decimals the even one is written. -/
def writtenFloat : FloatFormat := ⟨-5, 16, true, .even⟩

/-- A hexadecimal digit, in lower case. -/
def hexDigit (n : Nat) : Char := if n < 10 then Char.ofNat (48 + n) else Char.ofNat (87 + n)

/-- How a character is spelt inside a string: quotes, backslashes and controls are escaped, all
others stand for themselves. -/
def escape (c : Char) : List Char :=
  if c = '"' then ['\\', '"']
  else if c = '\\' then ['\\', '\\']
  else if c = '\n' then ['\\', 'n']
  else if c = '\r' then ['\\', 'r']
  else if c = '\t' then ['\\', 't']
  else if c = '\x08' then ['\\', 'b']
  else if c = '\x0c' then ['\\', 'f']
  else if c.toNat < 32 then
    ['\\', 'u', '0', '0', hexDigit (c.toNat / 16), hexDigit (c.toNat % 16)]
  else [c]

/-- A string between its quotes. -/
def writeString (s : String) : List Char := '"' :: s.toList.flatMap escape ++ ['"']

/-- A floating-point number; `null` if it is not finite. -/
def writeFloat (x : Float) : List Char :=
  if x.isFinite then writtenFloat.write x else ['n', 'u', 'l', 'l']

mutual

/-- The JSON text of a value. -/
def write : Value → List Char
  | .null => ['n', 'u', 'l', 'l']
  | .bool b => if b then ['t', 'r', 'u', 'e'] else ['f', 'a', 'l', 's', 'e']
  | .int n => Decimal.writeInt n.toInt
  | .float x => writeFloat x
  | .text s => writeString s
  | .list [] => ['[', ']']
  | .list (v :: vs) => '[' :: write v ++ writeItems vs
  | .fact t fields => '\x7b' :: writeString "$type" ++ ':' :: writeString t ++ writeMembers fields

/-- The items of an array after its first one, and the closing bracket. -/
def writeItems : List Value → List Char
  | [] => [']']
  | v :: vs => ',' :: write v ++ writeItems vs

/-- The members of an object after its first one, and the closing brace. -/
def writeMembers : List (String × Value) → List Char
  | [] => ['\x7d']
  | (name, v) :: fs => ',' :: writeString name ++ ':' :: write v ++ writeMembers fs

end

end Json

/-- The JSON text of a value. -/
def Value.json (v : Value) : String := String.ofList (Json.write v)

/-- The JSON text of a fact. -/
def Fact.json (f : Fact) : String := f.toValue.json

end RuleAggregate
