import RuleAggregate.Path.Compiler
import RuleAggregate.Proofs.Value.Equality

/-!
# What arguments evaluate to

Reading takes values apart and never puts any together.  So an argument that is evaluated for
well-formed objects has a well-formed value, and the only other values it can have are the literals
and the globals.

## What is here

* `Tuple.WellFormed` — every object of a tuple is well formed.
* `Argument.wellFormed_of_evaluate` — **evaluation keeps well-formedness**.
* `Argument.wellFormed_of_resolve` — an argument whose root is a constant got it from a literal or
  from a global.
-/

set_option autoImplicit false

namespace RuleAggregate

/-- No object of the tuple repeats the name of a field. -/
def Tuple.WellFormed (t : Tuple) : Prop := ∀ v ∈ t.objects, v.WellFormed

/-! ## Reading -/

theorem wellFormed_readField {v w : Value} {name : String} (hv : v.WellFormed)
    (h : readField v name = .ok w) : w.WellFormed := by
  cases v with
  | fact t fields =>
    rw [readField] at h
    split at h
    · next hget =>
      cases h
      exact Value.wellFormedFields_iff.1 hv.2 _ (Assoc.mem_of_get?_eq_some hget)
    · cases h
  | _ => cases h

theorem wellFormed_readElement {v w : Value} {index : Nat} (hv : v.WellFormed)
    (h : readElement v index = .ok w) : w.WellFormed := by
  cases v with
  | list items =>
    rw [readElement] at h
    split at h
    · next hget =>
      cases h
      exact Value.wellFormedItems_iff.1 hv _ (List.mem_of_getElem? hget)
    · cases h
  | _ => cases h

theorem Accessor.wellFormed_of_read {a : Accessor} {v w : Value} (hv : v.WellFormed)
    (h : a.read v = .ok w) : w.WellFormed := by
  induction a generalizing w with
  | itself => exact Except.ok.inj h ▸ hv
  | field name => exact wellFormed_readField hv h
  | element array index _ ih =>
    rw [read] at h
    split at h
    · next u hread => exact wellFormed_readElement (ih hread) h
    · cases h

theorem Tuple.wellFormed_of_object {t : Tuple} {offset : Nat} {v : Value} (ht : t.WellFormed)
    (h : t.object offset = .ok v) : v.WellFormed := by
  rw [object] at h
  split at h
  · next hget =>
    cases h
    exact ht v (List.mem_of_getElem? hget)
  · cases h

theorem Declaration.wellFormed_of_value {d : Declaration} {t : Tuple} {v : Value}
    (ht : t.WellFormed) (h : d.value t = .ok v) : v.WellFormed := by
  rw [value] at h
  split at h
  · next u hobject => exact Accessor.wellFormed_of_read (Tuple.wellFormed_of_object ht hobject) h
  · cases h

namespace Argument

/-! ## Evaluation -/

theorem wellFormed_of_follow {fields : List String} {v w : Value} (hv : v.WellFormed)
    (h : follow v fields = .ok w) : w.WellFormed := by
  induction fields generalizing v with
  | nil => exact Except.ok.inj h ▸ hv
  | cons name names ih =>
    rw [follow] at h
    split at h
    · next u hread => exact ih (wellFormed_readField hv hread) h
    · cases h

/-- The root is well formed if it is a constant; other roots are read from the objects. -/
def Root.WellFormed : Root → Prop
  | .constant v => v.WellFormed
  | .inner _ | .outer _ => True

theorem wellFormed_of_rootValue {a : Argument} (ha : a.root.WellFormed) {t : Tuple}
    {fact v : Value} (ht : t.WellFormed) (hfact : fact.WellFormed)
    (h : a.rootValue t fact = .ok v) : v.WellFormed := by
  obtain ⟨root, fields, fromTuple⟩ := a
  rcases root with w | d | d
  · exact Except.ok.inj h ▸ ha
  · cases fromTuple with
    | true => exact Declaration.wellFormed_of_value ht h
    | false => exact Accessor.wellFormed_of_read hfact h
  · exact Declaration.wellFormed_of_value ht h

/-- **Evaluation keeps well-formedness.** -/
theorem wellFormed_of_evaluate {a : Argument} (ha : a.root.WellFormed) {t : Tuple}
    {fact v : Value} (ht : t.WellFormed) (hfact : fact.WellFormed)
    (h : a.evaluate t fact = .ok v) : v.WellFormed := by
  rw [evaluate] at h
  split at h
  · next u hroot => exact wellFormed_of_follow (wellFormed_of_rootValue ha ht hfact hroot) h
  · cases h

end Argument

/-! ## Literals and globals -/

namespace PathExpr

theorem wellFormed_of_readNumber {text : List Char} {v : Value}
    (h : readNumber text = .ok (.literal v)) : v.WellFormed := by
  rw [readNumber] at h
  split at h
  · cases h
    trivial
  · split at h <;> cases h
    trivial

theorem readPath_ne_literal (text : List Char) (v : Value) :
    readPath text ≠ .ok (.literal v) := by
  intro h
  simp only [readPath] at h
  split at h <;> cases h

/-- Literals hold no facts. -/
theorem wellFormed_of_read {e : String} {v : Value} (h : read e = .ok (.literal v)) :
    v.WellFormed := by
  rw [read] at h
  split at h
  · cases h
  split at h
  · split at h <;> cases h
    trivial
  split at h
  · cases h
    trivial
  split at h
  · cases h
    trivial
  split at h
  · cases h
    trivial
  split at h
  · exact wellFormed_of_readNumber h
  · exact absurd h (readPath_ne_literal _ v)

end PathExpr

namespace Argument

variable {σ : Type} {values : OrderedMap String Value} {request : Request σ}

theorem wellFormed_of_rootOf {name : String} {root : Root}
    (hvalues : ∀ name v, values.get? name = some v → v.WellFormed)
    (h : rootOf values request name = .ok root) : root.WellFormed := by
  rw [rootOf] at h
  split at h
  · cases h
    trivial
  · split at h
    · cases h
      trivial
    · split at h
      · split at h
        · next v hv =>
          cases h
          exact hvalues name v hv
        · cases h
      · cases h

/-- The root of an argument is well formed if the values of the globals are. -/
theorem wellFormed_of_resolve {expression : String} {a : Argument}
    (hvalues : ∀ name v, values.get? name = some v → v.WellFormed)
    (h : resolve values request expression = .ok a) : a.root.WellFormed := by
  rw [resolve] at h
  split at h
  · cases h
  · next v hread =>
    cases h
    exact PathExpr.wellFormed_of_read hread
  · next name fields hread =>
    cases hroot : rootOf values request name with
    | error e =>
      rw [hroot] at h
      cases h
    | ok root =>
      rw [hroot] at h
      cases h
      exact wellFormed_of_rootOf hvalues hroot

end Argument
end RuleAggregate
