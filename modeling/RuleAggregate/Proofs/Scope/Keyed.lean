import RuleAggregate.Scope.Basic
import Mathlib.Data.List.Perm.Basic

/-!
# Scopes under their names

A scope stores every declaration under its own name, since that is how declarations are made
visible.  So looking a name up in a scope, searching the declarations for it, and asking which of
them was declared last all come to the same.

## What is here

* `Scope.Keyed` — every declaration stands under its own name; `declare` keeps it so.
* `lastNamed?`, `Scope.get?_declareAll` — **the last declaration of a name shadows all others.**
* `Scope.Keyed.find?_eq_get?` — the declarations of a scope can be searched in any order.
-/

set_option autoImplicit false

namespace RuleAggregate

/-- The last hit in a list is the last one after the head, or else the head. -/
theorem getLast?_filter_cons {α : Type} (p : α → Bool) (x : α) (xs : List α) :
    ((x :: xs).filter p).getLast? = ((xs.filter p).getLast? <|> if p x then some x else none) := by
  rw [List.filter_cons]
  split
  · rw [List.getLast?_cons]
    cases (xs.filter p).getLast? <;> rfl
  · cases (xs.filter p).getLast? <;> rfl

/-- The last of the declarations that has the name. -/
def lastNamed? (name : String) (ds : List Declaration) : Option Declaration :=
  (ds.filter fun d => d.name = name).getLast?

namespace Scope

/-- Every declaration stands under its own name. -/
def Keyed (s : Scope) : Prop := ∀ p ∈ s.entries, p.2.name = p.1

theorem keyed_empty : Keyed .empty := nofun

theorem Keyed.name_eq {s : Scope} (hs : s.Keyed) {name : String} {d : Declaration}
    (h : s.get? name = some d) : d.name = name := hs _ (OrderedMap.get?_eq_some_iff.1 h)

theorem Keyed.declare {s : Scope} (hs : s.Keyed) (d : Declaration) : (s.declare d).Keyed := by
  intro p hp
  have hget : (s.declare d).get? p.1 = some p.2 := OrderedMap.get?_eq_some_iff.2 hp
  rw [Scope.declare, OrderedMap.get?_put] at hget
  split at hget
  · next h =>
    rw [Option.some_inj] at hget
    rw [← hget]
    exact h
  · exact hs.name_eq hget

theorem Keyed.declareAll {s : Scope} (hs : s.Keyed) (ds : List Declaration) :
    (s.declareAll ds).Keyed := by
  induction ds generalizing s with
  | nil => exact hs
  | cons d ds ih => exact ih (hs.declare d)

/-- **The last declaration of a name shadows all others**, those that were visible before
included. -/
theorem get?_declareAll (s : Scope) (ds : List Declaration) (name : String) :
    (s.declareAll ds).get? name = (lastNamed? name ds <|> s.get? name) := by
  induction ds generalizing s with
  | nil => rfl
  | cons d ds ih =>
    show ((s.declare d).declareAll ds).get? name = _
    rw [ih, lastNamed?, lastNamed?, getLast?_filter_cons, Scope.declare, OrderedMap.get?_put]
    by_cases hd : d.name = name <;> cases (ds.filter fun d => d.name = name).getLast? <;> simp [hd]

/-- At most one declaration of a scope has a given name, and that is the one found under it. -/
theorem Keyed.filter_values {s : Scope} (hs : s.Keyed) (name : String) :
    s.values.filter (fun d => d.name = name) = (s.get? name).toList := by
  obtain ⟨entries, hnodup⟩ := s
  show (Assoc.values entries).filter _ = (Assoc.get? name entries).toList
  induction entries with
  | nil => rfl
  | cons p entries ih =>
    have hp : p.2.name = p.1 := hs p List.mem_cons_self
    rw [Assoc.keys_cons, List.nodup_cons] at hnodup
    have hrest := ih hnodup.2 fun q hq => hs q (List.mem_cons_of_mem p hq)
    rw [Assoc.get?_cons]
    show (p.2 :: Assoc.values entries).filter _ = _
    rw [List.filter_cons, hrest]
    by_cases h : p.1 = name
    · have hnone : Assoc.get? name entries = none := Assoc.get?_eq_none_iff.2 (h ▸ hnodup.1)
      simp [hp, h, hnone]
    · simp [hp, h]

theorem Keyed.lastNamed?_values {s : Scope} (hs : s.Keyed) (name : String) :
    lastNamed? name s.values = s.get? name := by
  rw [lastNamed?, hs.filter_values]
  cases s.get? name <;> rfl

/-- The declarations of a scope can be searched for a name in any order. -/
theorem Keyed.find?_eq_get? {s : Scope} (hs : s.Keyed) {ds : List Declaration}
    (hds : ds.Perm s.values) (name : String) : ds.find? (fun d => d.name = name) = s.get? name := by
  have hfilter : ds.filter (fun d => d.name = name) = (s.get? name).toList := by
    have hperm := hds.filter fun d => decide (d.name = name)
    rw [hs.filter_values] at hperm
    cases hget : s.get? name with
    | none =>
      rw [hget] at hperm
      exact hperm.eq_nil
    | some d =>
      rw [hget] at hperm
      exact hperm.eq_singleton
  rw [← List.head?_filter, hfilter]
  cases s.get? name <;> rfl

end Scope
end RuleAggregate
