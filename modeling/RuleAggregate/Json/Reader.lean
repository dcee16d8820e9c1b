import RuleAggregate.Json.Number
import RuleAggregate.Value.Basic

/-!
# Reading JSON

JSON is read straight into values: an array becomes a list, an object a fact of type `object`
whose fields are sorted by name.  When a name is repeated the last member counts.  Containers may
be nested 127 deep.

## What is here

* `Json.takeString?` — the rest of a string after its opening quote.
* `Json.takeValue?` — splits a value off the front of a text.
* `Json.read?` — the value that a whole text stands for.
* `Fact.ofJson` — a fact of a given type from an object.
-/

set_option autoImplicit false

namespace RuleAggregate
namespace Json

/-- The blanks that may stand between tokens. -/
def isBlank (c : Char) : Bool := c = ' ' || c = '\n' || c = '\t' || c = '\r'

def skipBlank (s : List Char) : List Char := s.dropWhile isBlank

/-! ## Strings -/

/-- The number that a hexadecimal digit stands for. -/
def hexValue? (c : Char) : Option Nat :=
  if Decimal.isDigit c then some (c.toNat - 48)
  else if 'a' ≤ c ∧ c ≤ 'f' then some (c.toNat - 87)
  else if 'A' ≤ c ∧ c ≤ 'F' then some (c.toNat - 55)
  else none

/-- The number that four hexadecimal digits stand for. -/
def hexWord? (a b c d : Char) : Option Nat :=
  match hexValue? a, hexValue? b, hexValue? c, hexValue? d with
  | some a, some b, some c, some d => some (((a * 16 + b) * 16 + c) * 16 + d)
  | _, _, _, _ => none

/-- The character behind a backslash and a single letter. -/
def unescape? (c : Char) : Option Char :=
  if c = '"' then some '"'
  else if c = '\\' then some '\\'
  else if c = '/' then some '/'
  else if c = 'b' then some '\x08'
  else if c = 'f' then some '\x0c'
  else if c = 'n' then some '\n'
  else if c = 'r' then some '\r'
  else if c = 't' then some '\t'
  else none

/-- The rest of a string after its opening quote, and what follows the closing one.  A code point
above U+FFFF is escaped as a pair of surrogates; a surrogate that is not part of such a pair, and
a control that is not escaped, are refused. -/
def takeString? : List Char → Option (List Char × List Char)
  | [] => none
  | '"' :: r => some ([], r)
  | '\\' :: 'u' :: a :: b :: c :: d :: r =>
    match hexWord? a b c d with
    | none => none
    | some n =>
      if 0xD800 ≤ n ∧ n < 0xDC00 then
        match r with
        | '\\' :: 'u' :: a :: b :: c :: d :: r =>
          match hexWord? a b c d with
          | none => none
          | some m =>
            if 0xDC00 ≤ m ∧ m < 0xE000 then
              (takeString? r).map fun (s, r) =>
                (Char.ofNat (0x10000 + (n - 0xD800) * 0x400 + (m - 0xDC00)) :: s, r)
            else none
        | _ => none
      else if 0xDC00 ≤ n ∧ n < 0xE000 then none
      else (takeString? r).map fun (s, r) => (Char.ofNat n :: s, r)
  | '\\' :: c :: r =>
    match unescape? c with
    | none => none
    | some c => (takeString? r).map fun (s, r) => (c :: s, r)
  | c :: r =>
    if c.toNat < 32 ∨ c = '\\' then none
    else (takeString? r).map fun (s, r) => (c :: s, r)

/-! ## Objects -/

/-- Stores a member at its place in a list sorted by name, replacing one of the same name. -/
def insertMember (name : String) (v : Value) : List (String × Value) → List (String × Value)
  | [] => [(name, v)]
  | (n, w) :: fs =>
    if name < n then (name, v) :: (n, w) :: fs
    else if name = n then (name, v) :: fs
    else (n, w) :: insertMember name v fs

/-- The members sorted by name; of members with one name the last counts. -/
def sortMembers (members : List (String × Value)) : List (String × Value) :=
  members.foldl (fun fs p => insertMember p.1 p.2 fs) []

/-! ## Values -/

mutual

/-- Splits a value off the front of a text.  `depth` containers may be nested in it; `fuel` bounds
the number of steps. -/
def takeValue? (fuel depth : Nat) (s : List Char) : Option (Value × List Char) :=
  match fuel with
  | 0 => none
  | fuel + 1 =>
    match skipBlank s with
    | 'n' :: 'u' :: 'l' :: 'l' :: r => some (.null, r)
    | 't' :: 'r' :: 'u' :: 'e' :: r => some (.bool true, r)
    | 'f' :: 'a' :: 'l' :: 's' :: 'e' :: r => some (.bool false, r)
    | '"' :: r => (takeString? r).map fun (t, r) => (.text (String.ofList t), r)
    | '[' :: r =>
      match depth with
      | 0 => none
      | depth + 1 =>
        match skipBlank r with
        | ']' :: r => some (.list [], r)
        | r => (takeItems? fuel depth r).map fun (vs, r) => (.list vs, r)
    | '\x7b' :: r =>
      match depth with
      | 0 => none
      | depth + 1 =>
        match skipBlank r with
        | '\x7d' :: r => some (.fact "object" [], r)
        | r => (takeMembers? fuel depth r).map fun (fs, r) => (.fact "object" (sortMembers fs), r)
    | r =>
      (takeNumeral? r).bind fun (n, r) =>
        n.value?.map fun
          | .int i => (.int i, r)
          | .float x => (.float x, r)

/-- The items of an array, of which there is at least one, up to the closing bracket. -/
def takeItems? (fuel depth : Nat) (s : List Char) : Option (List Value × List Char) :=
  match fuel with
  | 0 => none
  | fuel + 1 =>
    (takeValue? fuel depth s).bind fun (v, r) =>
      match skipBlank r with
      | ']' :: r => some ([v], r)
      | ',' :: r => (takeItems? fuel depth r).map fun (vs, r) => (v :: vs, r)
      | _ => none

/-- The members of an object, of which there is at least one, up to the closing brace. -/
def takeMembers? (fuel depth : Nat) (s : List Char) :
    Option (List (String × Value) × List Char) :=
  match fuel with
  | 0 => none
  | fuel + 1 =>
    match skipBlank s with
    | '"' :: r =>
      (takeString? r).bind fun (name, r) =>
        match skipBlank r with
        | ':' :: r =>
          (takeValue? fuel depth r).bind fun (v, r) =>
            match skipBlank r with
            | '\x7d' :: r => some ([(String.ofList name, v)], r)
            | ',' :: r =>
              (takeMembers? fuel depth r).map fun (fs, r) => ((String.ofList name, v) :: fs, r)
            | _ => none
        | _ => none
    | _ => none

end

/-- How deep containers may be nested. -/
def maxDepth : Nat := 127

/-- The value that a whole text stands for.  Of any two steps in a row at least one consumes a
character, which bounds their number. -/
def read? (text : String) : Option Value :=
  let s := text.toList
  (takeValue? (2 * s.length + 2) maxDepth s).bind fun (v, r) =>
    if (skipBlank r).isEmpty then some v else none

end Json

/-! ## Facts -/

/-- Why a text could not be read as a fact. -/
inductive FactError where
  /-- The text is not JSON. -/
  | json
  /-- The text is JSON, but no object; `found` names what it is. -/
  | notAnObject (found : String)

namespace FactError

/-- The wording of the error. -/
def message : FactError → String
  | json => "invalid fact JSON"
  | notAnObject found => "fact JSON must be an object, found " ++ found

end FactError

/-- What JSON calls the values of a kind. -/
def Json.kindName : Value → String
  | .null => "null"
  | .bool _ => "boolean"
  | .int _ | .float _ => "number"
  | .text _ => "string"
  | .list _ => "array"
  | .fact .. => "object"

/-- Reads a fact of the given type from a JSON object. -/
def Fact.ofJson (objectType : String) (text : String) : Except FactError Fact :=
  match Json.read? text with
  | none => .error .json
  | some (.fact _ fields) => .ok ⟨objectType, .ofList fields⟩
  | some v => .error (.notAnObject (Json.kindName v))

end RuleAggregate
