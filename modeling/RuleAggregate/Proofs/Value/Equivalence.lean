import RuleAggregate.Proofs.Json.Members
import RuleAggregate.Proofs.Value.NanFree

/-!
# Equality of the values that can be built

Values are built from lists and from facts whose fields are assigned one after the other.  For these
values equality is symmetric and transitive, and only NaN keeps it from being reflexive.  Facts are
compared as maps: the order in which their fields were assigned does not show.

## What is here

* `Fact.assigned`, `Fact.lastAssigned?` — a fact by the assignments of its fields, and what was
  assigned to a field last.
* `Value.Built`, `Value.built_iff` — the values that can be built are the well-formed ones.
* `Fact.eq_toValue_iff` — **two facts are equal if their types agree and equal names carry equal
  values.**
* `Value.eq_built` — the laws together.
-/

set_option autoImplicit false

namespace RuleAggregate

/-! ## Assigned fields -/

namespace OrderedMap

variable {κ α : Type} [DecidableEq κ]

/-- What was stored last at a key counts. -/
theorem get?_putAll (m : OrderedMap κ α) (ps : List (κ × α)) (k : κ) :
    (m.putAll ps).get? k = (Assoc.get? k ps.reverse <|> m.get? k) := by
  induction ps generalizing m with
  | nil => rfl
  | cons p ps ih =>
    show ((m.put p.1 p.2).putAll ps).get? k = _
    rw [ih, get?_put, List.reverse_cons, Assoc.get?_append, Assoc.get?_cons, Assoc.get?_nil]
    cases Assoc.get? k ps.reverse with
    | some a => rfl
    | none =>
      split
      · rfl
      · rfl

end OrderedMap

namespace Fact

variable {f g : Fact} {name : String}

/-- The fact whose fields are assigned one after the other. -/
def assigned (objectType : String) (fields : List (String × Value)) : Fact :=
  fields.foldl (fun f p => f.set p.1 p.2) (ofType objectType)

/-- What is assigned to a field last. -/
def lastAssigned? (name : String) (fields : List (String × Value)) : Option Value :=
  Assoc.get? name fields.reverse

theorem assigned_eq (objectType : String) (fields : List (String × Value)) :
    assigned objectType fields = ⟨objectType, .ofList fields⟩ := by
  have hall : ∀ f : Fact, fields.foldl (fun f p => f.set p.1 p.2) f =
      ⟨f.objectType, f.fields.putAll fields⟩ := by
    induction fields with
    | nil => exact fun _ => rfl
    | cons p fields ih =>
      intro f
      rw [List.foldl_cons, ih]
      rfl
  exact hall (ofType objectType)

theorem objectType_assigned (objectType : String) (fields : List (String × Value)) :
    (assigned objectType fields).objectType = objectType := by rw [assigned_eq]

/-- A field has the value that was assigned to it last. -/
theorem field?_assigned (objectType : String) (fields : List (String × Value)) (name : String) :
    (assigned objectType fields).field? name = lastAssigned? name fields := by
  rw [assigned_eq, field?, OrderedMap.ofList, OrderedMap.get?_putAll, OrderedMap.get?_empty,
    lastAssigned?]
  cases Assoc.get? name fields.reverse <;> rfl

/-- Every fact is one whose fields are assigned one after the other. -/
theorem assigned_entries (f : Fact) : assigned f.objectType f.fields.entries = f := by
  rw [assigned_eq]
  congr
  exact OrderedMap.ext_entries (OrderedMap.entries_ofList f.fields.nodup)

/-- Facts have the same names if equal names carry equal values. -/
theorem keys_perm
    (h : ∀ name, Option.Rel (fun v w => v.eq w = true) (f.field? name) (g.field? name)) :
    f.fields.keys.Perm g.fields.keys := by
  refine (List.perm_ext_iff_of_nodup f.fields.nodup g.fields.nodup).2 fun name => ?_
  have hname := h name
  have hnone : f.field? name = none ↔ g.field? name = none := by
    generalize f.field? name = a, g.field? name = b at hname ⊢
    cases hname with
    | none => exact Iff.rfl
    | some => exact iff_of_false nofun nofun
  rwa [field?, field?, OrderedMap.get?_eq_none_iff, OrderedMap.get?_eq_none_iff, not_iff_not]
    at hnone

/-- **When facts are equal**: their types agree, and equal names carry equal values. -/
theorem eq_toValue_iff : f.toValue.eq g.toValue = true ↔ f.objectType = g.objectType ∧
    ∀ name, Option.Rel (fun v w => v.eq w = true) (f.field? name) (g.field? name) := by
  rw [toValue, toValue, Value.eq, Bool.and_eq_true, Bool.and_eq_true, beq_iff_eq, beq_iff_eq,
    and_assoc]
  refine and_congr_right fun _ => ?_
  constructor
  · rintro ⟨hlength, hfields⟩ name
    rcases hv : f.field? name with - | v
    · -- No name is left over on the other side, because there are equally many on both.
      have hsub : g.fields.keys ⊆ f.fields.keys :=
        Value.keys_subset_of_length f.fields.nodup hlength (Value.keys_subset_of_eqFields hfields)
      have hw : g.field? name = none := by
        rw [field?, OrderedMap.get?_eq_none_iff] at hv ⊢
        exact fun hk => hv (hsub hk)
      rw [hw]
      exact .none
    · obtain ⟨w, hw, heq⟩ := Value.eqFields_iff.1 hfields _ (OrderedMap.get?_eq_some_iff.1 hv)
      have hw : g.field? name = some w := hw
      rw [hw]
      exact .some heq
  · intro h
    refine ⟨?_, Value.eqFields_iff.2 fun p hp => ?_⟩
    · have hlength := (keys_perm h).length_eq
      rwa [OrderedMap.keys, OrderedMap.keys, Assoc.keys, Assoc.keys, List.length_map,
        List.length_map] at hlength
    · have hname := h p.1
      rw [field?, OrderedMap.get?_eq_some_iff.2 hp] at hname
      rcases hw : g.field? p.1 with - | w
      · rw [hw] at hname
        cases hname
      · rw [hw, Option.rel_some_some] at hname
        exact ⟨w, hw, hname⟩

end Fact

/-! ## Built values -/

namespace Value

/-- **The values that can be built**: the simple ones, lists of built values, and facts with built
values assigned to their fields, in any order and again and again. -/
inductive Built : Value → Prop
  | null : Built null
  | bool (b : Bool) : Built (bool b)
  | int (n : Int64) : Built (int n)
  | float (x : Float) : Built (float x)
  | text (s : String) : Built (text s)
  | list {items : List Value} (h : ∀ v ∈ items, Built v) : Built (list items)
  | fact (objectType : String) {fields : List (String × Value)} (h : ∀ p ∈ fields, Built p.2) :
      Built (Fact.assigned objectType fields).toValue

theorem Built.wellFormed {v : Value} (h : v.Built) : v.WellFormed := by
  induction h with
  | null | bool | int | float | text => trivial
  | list _ ih => exact wellFormedItems_iff.2 ih
  | @fact objectType fields _ ih =>
    refine ⟨OrderedMap.nodup _, wellFormedFields_iff.2 fun p hp => ?_⟩
    have hlast := Fact.field?_assigned objectType fields p.1
    rw [Fact.field?, OrderedMap.get?_eq_some_iff.2 hp] at hlast
    exact ih _ (List.mem_reverse.1 (Assoc.mem_of_get?_eq_some hlast.symm))

mutual

theorem WellFormed.built : ∀ {v : Value}, v.WellFormed → v.Built
  | null, _ => .null
  | bool b, _ => .bool b
  | int n, _ => .int n
  | float x, _ => .float x
  | text s, _ => .text s
  | list _, h => .list (WellFormedItems.built h)
  | fact t fs, h => by
    have hfact := Built.fact t (WellFormedFields.built h.2)
    rwa [Fact.assigned_entries ⟨t, fs, h.1⟩] at hfact

theorem WellFormedItems.built : ∀ {vs : List Value}, WellFormedItems vs → ∀ v ∈ vs, v.Built
  | [], _ => nofun
  | _ :: _, h => List.forall_mem_cons.2 ⟨WellFormed.built h.1, WellFormedItems.built h.2⟩

theorem WellFormedFields.built : ∀ {fs : List (String × Value)}, WellFormedFields fs →
    ∀ p ∈ fs, p.2.Built
  | [], _ => nofun
  | (_, _) :: _, h => List.forall_mem_cons.2 ⟨WellFormed.built h.1, WellFormedFields.built h.2⟩

end

/-- **What can be built is well formed**, and the other way round. -/
theorem built_iff {v : Value} : v.Built ↔ v.WellFormed := ⟨Built.wellFormed, WellFormed.built⟩

/-- **The laws of equality**, for values nested to any depth.  Equality is symmetric; a value equals
itself exactly if there is no NaN in it; equality is transitive, whether there is NaN or not.  Facts
are equal exactly if their types agree and equal names carry equal values, where a name carries what
was assigned to it last, whatever the order of all other assignments. -/
theorem eq_built :
    (∀ v w : Value, v.Built → w.Built → v.eq w = w.eq v) ∧
    (∀ v : Value, v.Built → (v.eq v = true ↔ v.NanFree)) ∧
    (∀ u v w : Value, u.eq v = true → v.eq w = true → u.eq w = true) ∧
    (∀ f g : Fact, f.toValue.eq g.toValue = true ↔ f.objectType = g.objectType ∧
      ∀ name, Option.Rel (fun v w => v.eq w = true) (f.field? name) (g.field? name)) ∧
    (∀ (s t : String) (fs gs : List (String × Value)),
      (Fact.assigned s fs).toValue.eq (Fact.assigned t gs).toValue = true ↔ s = t ∧
        ∀ name, Option.Rel (fun v w => v.eq w = true) (Fact.lastAssigned? name fs)
          (Fact.lastAssigned? name gs)) := by
  refine ⟨fun v w hv hw => ?_, fun v hv => eq_self_iff (built_iff.1 hv), fun u v w => eq_trans,
    fun f g => Fact.eq_toValue_iff, fun s t fs gs => ?_⟩
  · rw [built_iff] at hv hw
    exact Bool.eq_iff_iff.2 ⟨eq_symm hv hw, eq_symm hw hv⟩
  · simp only [Fact.eq_toValue_iff, Fact.objectType_assigned, Fact.field?_assigned]

/-- Two equal zeros, and fields that were assigned in another order, one of them twice. -/
theorem eq_built_of_zeros :
    let part := (Fact.assigned "Part" [("n", .int 1)]).toValue
    let fs := [("price", .float (-0.0)), ("parts", .list [part])]
    let gs := [("parts", .null), ("price", .float 0.0), ("parts", .list [part])]
    let v := (Fact.assigned "Order" fs).toValue
    let w := (Fact.assigned "Order" gs).toValue
    v.Built ∧ w.Built ∧ v ≠ w ∧ v.eq w = true ∧ w.eq v = true ∧ v.eq v = true ∧ v.NanFree ∧
      ∀ name, Option.Rel (fun v w => v.eq w = true) (Fact.lastAssigned? name fs)
        (Fact.lastAssigned? name gs) := by
  intro part fs gs v w
  have hparts : (list [part]).Built := .list (by simp [part, Built.fact, Built.int])
  have hv : v.Built := .fact "Order" (by simp [fs, Built.float, hparts])
  have hw : w.Built := .fact "Order" (by simp [gs, Built.null, Built.float, hparts])
  obtain ⟨hsymm, hrefl, htrans, -, hassigned⟩ := eq_built
  have hvw : v.eq w = true := by decide +kernel
  have hwv : w.eq v = true := by rw [← hsymm v w hv hw, hvw]
  have hvv : v.eq v = true := htrans v w v hvw hwv
  exact ⟨hv, hw, by decide +kernel, hvw, hwv, hvv, (hrefl v hv).1 hvv,
    ((hassigned "Order" "Order" fs gs).1 hvw).2⟩

end Value
end RuleAggregate
