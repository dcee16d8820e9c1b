import RuleAggregate.Scope.Declaration

/-!
# Scopes

## What is here

* `Scope` — the declarations visible at one point of a rule, by name.
* `sortByName` — declarations in the alphabetical order of their names.
* `References` — the names that a fragment of code mentions: declarations, and globals with their
  types.
* `Required` — the declarations that a node must keep for every partial match.
* `requireAll` — looks the mentioned declarations up in a scope.
-/

set_option autoImplicit false

namespace RuleAggregate

/-! ## Visible declarations -/

/-- The declarations visible at one point of a rule, by name, in binding order. -/
abbrev Scope := OrderedMap String Declaration

namespace Scope

/-- Makes a declaration visible.  One of the same name is shadowed. -/
def declare (s : Scope) (d : Declaration) : Scope := s.put d.name d

/-- Makes declarations visible, one after the other. -/
def declareAll (s : Scope) (ds : List Declaration) : Scope := ds.foldl declare s

/-- Makes all declarations of a pattern visible. -/
def declarePattern (s : Scope) (p : Pattern) : Scope := s.declareAll p.declarations

end Scope

/-! ## Alphabetical order -/

/-- Inserts a declaration before the first one whose name does not come before its own. -/
def insertByName (d : Declaration) : List Declaration → List Declaration
  | [] => [d]
  | e :: es => if d.name ≤ e.name then d :: e :: es else e :: insertByName d es

/-- The declarations by name in alphabetical order.  Those of one name keep their order. -/
def sortByName : List Declaration → List Declaration
  | [] => []
  | d :: ds => insertByName d (sortByName ds)

theorem insertByName_perm (d : Declaration) (ds : List Declaration) :
    (insertByName d ds).Perm (d :: ds) := by
  induction ds with
  | nil => exact .refl _
  | cons e es ih =>
    rw [insertByName]
    split
    · exact .refl _
    · exact (ih.cons e).trans (.swap d e es)

theorem sortByName_perm (ds : List Declaration) : (sortByName ds).Perm ds := by
  induction ds with
  | nil => exact .nil
  | cons d ds ih => exact (insertByName_perm d _).trans (ih.cons d)

/-! ## Mentioned names -/

/-- The names that a fragment of code mentions, in the order of their first mention. -/
structure References where
  /-- Names of declarations, without repetition. -/
  declarations : OrderedMap String Unit
  /-- Names of globals with their types. -/
  globals : OrderedMap String ValueType

namespace References

/-- No names at all. -/
def empty : References := ⟨.empty, .empty⟩

instance : Inhabited References := ⟨empty⟩

/-- The names of the declarations, in the order of their first mention. -/
def names (r : References) : List String := r.declarations.keys

/-- Adds the name of a declaration. -/
def addDeclaration (r : References) (name : String) : References :=
  { r with declarations := r.declarations.put name () }

/-- Adds a global.  One that is there already keeps its place and gets the new type. -/
def addGlobal (r : References) (name : String) (t : ValueType) : References :=
  { r with globals := r.globals.put name t }

/-- Adds everything that `s` mentions.  A global that is there already keeps its type. -/
def merge (r s : References) : References where
  declarations := s.names.foldl (fun m name => m.put name ()) r.declarations
  globals := s.globals.entries.foldl (fun m p => m.putNew p.1 p.2) r.globals

/-- Whether a declaration is mentioned. -/
def mentions (r : References) (name : String) : Bool := r.declarations.contains name

def isEmpty (r : References) : Bool := r.declarations.isEmpty && r.globals.isEmpty

end References

/-! ## Required declarations -/

/-- The declarations that a node must keep for every partial match, by name, in the order of
their first mention. -/
abbrev Required := OrderedMap String Declaration

/-- Adds a declaration unless one of its name is there already. -/
def Required.insert (r : Required) (d : Declaration) : Required := r.putNew d.name d

/-- Looks names up in a scope, one after the other, and adds what is found to the required
declarations.  The look-up ends at the first unknown name; what was added before it stays. -/
def requireNames (visible : Scope) :
    List String → Required → Except String (List Declaration) × Required
  | [], required => (.ok [], required)
  | name :: names, required =>
    match visible.get? name with
    | none => (.error name, required)
    | some d =>
      let (found, required) := requireNames visible names (required.insert d)
      (found.map (d :: ·), required)

/-- The declarations behind the mentioned names, in the order of their first mention, and the
required declarations with them added.  The error names the first one that is not visible. -/
def requireAll (visible : Scope) (r : References) (required : Required) :
    Except String (List Declaration) × Required :=
  requireNames visible r.names required

end RuleAggregate
