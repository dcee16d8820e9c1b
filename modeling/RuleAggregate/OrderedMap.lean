/-!
# Maps that remember insertion order

Fields of a fact, declarations in a scope, registered functions and held matches all answer in
the order in which their keys first arrived.  Replacing the value of a key leaves it where it is.

## What is here

* `Assoc κ α` — plain lists of pairs, with `get?`, `put` and `erase`.
* `OrderedMap κ α` — an association list none of whose keys occurs twice.  Every operation keeps
  that invariant, so it lives in the type.
* `get?_put`, `keys_put`, `get?_erase` — how each operation shows through `get?` and `keys`.
-/

set_option autoImplicit false

namespace RuleAggregate

variable {κ α β : Type}

/-- Pairs of a key and a value, oldest first. -/
abbrev Assoc (κ α : Type) := List (κ × α)

namespace Assoc

/-- The keys, oldest first. -/
def keys (m : Assoc κ α) : List κ := m.map Prod.fst

/-- The values, in the order of their keys. -/
def values (m : Assoc κ α) : List α := m.map Prod.snd

@[simp] theorem keys_nil : keys ([] : Assoc κ α) = [] := rfl

@[simp] theorem keys_cons (p : κ × α) (m : Assoc κ α) : keys (p :: m) = p.1 :: keys m := rfl

variable [DecidableEq κ]

/-- The value stored at the first occurrence of `k`. -/
def get? (k : κ) : Assoc κ α → Option α
  | [] => none
  | (k', a) :: m => if k' = k then some a else get? k m

/-- Stores `a` at `k`: in place if `k` is there already, at the end otherwise. -/
def put (k : κ) (a : α) : Assoc κ α → Assoc κ α
  | [] => [(k, a)]
  | (k', b) :: m => if k' = k then (k', a) :: m else (k', b) :: put k a m

/-- Removes the first occurrence of `k`; the other pairs keep their order. -/
def erase (k : κ) : Assoc κ α → Assoc κ α
  | [] => []
  | (k', b) :: m => if k' = k then m else (k', b) :: erase k m

/-! ## Keys and look-up -/

@[simp] theorem get?_nil (k : κ) : get? k ([] : Assoc κ α) = none := rfl

theorem get?_cons (k : κ) (p : κ × α) (m : Assoc κ α) :
    get? k (p :: m) = if p.1 = k then some p.2 else get? k m := rfl

theorem get?_eq_none_iff {k : κ} {m : Assoc κ α} : get? k m = none ↔ k ∉ keys m := by
  induction m with
  | nil => simp
  | cons p m ih =>
    by_cases h : p.1 = k
    · simp [get?_cons, h]
    · simp [get?_cons, h, ih, Ne.symm h]

theorem mem_of_get?_eq_some {k : κ} {a : α} {m : Assoc κ α} (h : get? k m = some a) :
    (k, a) ∈ m := by
  induction m with
  | nil => simp at h
  | cons p m ih =>
    rw [get?_cons] at h
    split at h
    · next hk => cases h; cases hk; simp
    · exact List.mem_cons_of_mem _ (ih h)

theorem get?_eq_some_of_mem {k : κ} {a : α} {m : Assoc κ α} (hm : (keys m).Nodup)
    (h : (k, a) ∈ m) : get? k m = some a := by
  induction m with
  | nil => simp at h
  | cons p m ih =>
    simp only [keys_cons, List.nodup_cons] at hm
    rw [get?_cons]
    rcases List.mem_cons.1 h with rfl | h
    · simp
    · have : p.1 ≠ k := fun e => hm.1 (e ▸ List.mem_map_of_mem (f := Prod.fst) h)
      rw [if_neg this]
      exact ih hm.2 h

/-! ## Storing -/

theorem get?_put (k l : κ) (a : α) (m : Assoc κ α) :
    get? l (put k a m) = if k = l then some a else get? l m := by
  induction m with
  | nil => simp [put, get?_cons]
  | cons p m ih =>
    by_cases h : p.1 = k
    · simp only [put, h, if_true, get?_cons]
      split <;> rfl
    · simp only [put, h, if_false, get?_cons, ih]
      by_cases hl : p.1 = l
      · have : k ≠ l := fun e => h (hl.trans e.symm)
        simp [hl, this]
      · simp [hl]

theorem keys_put (k : κ) (a : α) (m : Assoc κ α) :
    keys (put k a m) = if k ∈ keys m then keys m else keys m ++ [k] := by
  induction m with
  | nil => simp [put]
  | cons p m ih =>
    by_cases h : p.1 = k
    · simp [put, h]
    · have hk : k ≠ p.1 := fun e => h e.symm
      simp only [put, h, if_false, keys_cons, ih, List.mem_cons, hk, false_or]
      split <;> simp

theorem nodup_keys_put {k : κ} {a : α} {m : Assoc κ α} (h : (keys m).Nodup) :
    (keys (put k a m)).Nodup := by
  rw [keys_put]
  split
  · exact h
  · next hk =>
    rw [List.nodup_append]
    refine ⟨h, by simp, fun a ha b hb => ?_⟩
    simp only [List.mem_singleton] at hb
    exact fun e => hk (hb ▸ e ▸ ha)

theorem put_of_not_mem {k : κ} {a : α} {m : Assoc κ α} (h : k ∉ keys m) :
    put k a m = m ++ [(k, a)] := by
  induction m with
  | nil => rfl
  | cons p m ih =>
    simp only [keys_cons, List.mem_cons, not_or] at h
    simp only [put, if_neg (Ne.symm h.1), ih h.2, List.cons_append]

/-! ## Removing -/

/-- Removing a key takes its pair out of the middle of the others. -/
theorem exists_erase_of_get? {k : κ} {a : α} {m : Assoc κ α} (h : get? k m = some a) :
    ∃ ps qs, m = ps ++ (k, a) :: qs ∧ erase k m = ps ++ qs := by
  induction m with
  | nil => simp at h
  | cons p m ih =>
    rw [get?_cons] at h
    split at h
    · next hk =>
      cases h
      exact ⟨[], m, by rw [← hk]; rfl, by rw [erase, if_pos hk]; rfl⟩
    · next hk =>
      obtain ⟨ps, qs, hm, he⟩ := ih h
      refine ⟨p :: ps, qs, by rw [hm, List.cons_append], ?_⟩
      rw [erase, if_neg hk, he, List.cons_append]

theorem erase_sublist (k : κ) (m : Assoc κ α) : (erase k m).Sublist m := by
  induction m with
  | nil => simp [erase]
  | cons p m ih =>
    simp only [erase]
    split
    · exact List.sublist_cons_self _ _
    · exact ih.cons_cons _

theorem nodup_keys_erase {k : κ} {m : Assoc κ α} (h : (keys m).Nodup) :
    (keys (erase k m)).Nodup :=
  h.sublist ((erase_sublist k m).map Prod.fst)

theorem erase_eq_filter {k : κ} {m : Assoc κ α} (h : (keys m).Nodup) :
    erase k m = m.filter (fun p => p.1 ≠ k) := by
  induction m with
  | nil => rfl
  | cons p m ih =>
    simp only [keys_cons, List.nodup_cons] at h
    simp only [erase, List.filter_cons]
    by_cases hk : p.1 = k
    · simp only [hk, if_true, ne_eq, not_true, decide_false, Bool.false_eq_true, if_false]
      refine (List.filter_eq_self.2 fun q hq => ?_).symm
      have : q.1 ≠ k := fun e => h.1 (hk ▸ e ▸ List.mem_map_of_mem (f := Prod.fst) hq)
      simp [this]
    · simp [hk, ih h.2]

theorem get?_erase (k l : κ) {m : Assoc κ α} (h : (keys m).Nodup) :
    get? l (erase k m) = if k = l then none else get? l m := by
  induction m with
  | nil => simp [erase]
  | cons p m ih =>
    simp only [keys_cons, List.nodup_cons] at h
    by_cases hk : p.1 = k
    · simp only [erase, hk, if_true, get?_cons]
      by_cases hl : k = l
      · subst hl
        simpa using get?_eq_none_iff.2 (hk ▸ h.1)
      · simp [hl]
    · simp only [erase, hk, if_false, get?_cons, ih h.2]
      by_cases hl : p.1 = l
      · have : k ≠ l := fun e => hk (hl.trans e.symm)
        simp [hl, this]
      · simp [hl]

end Assoc

/-- A map with distinct keys, in the order in which the keys first arrived. -/
structure OrderedMap (κ α : Type) where
  /-- The pairs, oldest first. -/
  entries : Assoc κ α
  /-- No key occurs twice. -/
  nodup : entries.keys.Nodup

namespace OrderedMap

/-- The map without keys. -/
def empty : OrderedMap κ α := ⟨[], List.nodup_nil⟩

instance : Inhabited (OrderedMap κ α) := ⟨empty⟩

instance : EmptyCollection (OrderedMap κ α) := ⟨empty⟩

/-- The keys, oldest first. -/
def keys (m : OrderedMap κ α) : List κ := m.entries.keys

/-- The values, in the order of their keys. -/
def values (m : OrderedMap κ α) : List α := m.entries.values

/-- How many keys there are. -/
def size (m : OrderedMap κ α) : Nat := m.entries.length

def isEmpty (m : OrderedMap κ α) : Bool := m.entries.isEmpty

theorem ext_entries {m n : OrderedMap κ α} (h : m.entries = n.entries) : m = n := by
  cases m; cases n; cases h; rfl

@[simp] theorem keys_empty : (empty : OrderedMap κ α).keys = [] := rfl

/-- Applies `f` to every value. -/
def mapValues (f : α → β) (m : OrderedMap κ α) : OrderedMap κ β where
  entries := m.entries.map fun p => (p.1, f p.2)
  nodup := by
    have : Assoc.keys (m.entries.map fun p => (p.1, f p.2)) = m.entries.keys := by
      simp [Assoc.keys, Function.comp_def]
    rw [this]
    exact m.nodup

@[simp] theorem keys_mapValues (f : α → β) (m : OrderedMap κ α) :
    (m.mapValues f).keys = m.keys := by
  simp [keys, mapValues, Assoc.keys, Function.comp_def]

variable [DecidableEq κ]

/-- The value stored at `k`. -/
def get? (m : OrderedMap κ α) (k : κ) : Option α := m.entries.get? k

def contains (m : OrderedMap κ α) (k : κ) : Bool := (m.get? k).isSome

/-- Stores `a` at `k`: in place if `k` is there already, at the end otherwise. -/
def put (m : OrderedMap κ α) (k : κ) (a : α) : OrderedMap κ α :=
  ⟨m.entries.put k a, Assoc.nodup_keys_put m.nodup⟩

/-- Stores `a` at `k` unless `k` is there already. -/
def putNew (m : OrderedMap κ α) (k : κ) (a : α) : OrderedMap κ α :=
  if m.contains k then m else m.put k a

/-- Removes `k`; the other keys keep their order. -/
def erase (m : OrderedMap κ α) (k : κ) : OrderedMap κ α :=
  ⟨m.entries.erase k, Assoc.nodup_keys_erase m.nodup⟩

/-- Stores every pair of the list, one after the other. -/
def putAll (m : OrderedMap κ α) (pairs : List (κ × α)) : OrderedMap κ α :=
  pairs.foldl (fun m p => m.put p.1 p.2) m

/-- The map that storing the pairs one after the other builds. -/
def ofList (pairs : List (κ × α)) : OrderedMap κ α := empty.putAll pairs

/-! ## How the operations show through `get?` and `keys` -/

@[simp] theorem get?_empty (k : κ) : (empty : OrderedMap κ α).get? k = none := rfl

theorem get?_eq_none_iff {m : OrderedMap κ α} {k : κ} : m.get? k = none ↔ k ∉ m.keys :=
  Assoc.get?_eq_none_iff

theorem contains_iff {m : OrderedMap κ α} {k : κ} : m.contains k = true ↔ k ∈ m.keys := by
  rw [contains, Option.isSome_iff_ne_none, ne_eq, get?_eq_none_iff, Decidable.not_not]

theorem get?_eq_some_iff {m : OrderedMap κ α} {k : κ} {a : α} :
    m.get? k = some a ↔ (k, a) ∈ m.entries :=
  ⟨Assoc.mem_of_get?_eq_some, Assoc.get?_eq_some_of_mem m.nodup⟩

theorem get?_put (m : OrderedMap κ α) (k l : κ) (a : α) :
    (m.put k a).get? l = if k = l then some a else m.get? l :=
  Assoc.get?_put k l a m.entries

theorem keys_put (m : OrderedMap κ α) (k : κ) (a : α) :
    (m.put k a).keys = if k ∈ m.keys then m.keys else m.keys ++ [k] :=
  Assoc.keys_put k a m.entries

theorem get?_erase (m : OrderedMap κ α) (k l : κ) :
    (m.erase k).get? l = if k = l then none else m.get? l :=
  Assoc.get?_erase k l m.nodup

theorem entries_erase (m : OrderedMap κ α) (k : κ) :
    (m.erase k).entries = m.entries.filter (fun p => p.1 ≠ k) :=
  Assoc.erase_eq_filter m.nodup

theorem keys_erase (m : OrderedMap κ α) (k : κ) :
    (m.erase k).keys = m.keys.filter (fun l => l ≠ k) := by
  rw [keys, entries_erase, keys, Assoc.keys, Assoc.keys, List.filter_map]
  rfl

theorem values_erase_sublist (m : OrderedMap κ α) (k : κ) :
    (m.erase k).values.Sublist m.values :=
  (Assoc.erase_sublist k m.entries).map Prod.snd

/-- A new key goes to the end. -/
theorem values_put_of_not_contains {m : OrderedMap κ α} {k : κ} (a : α)
    (h : m.contains k = false) : (m.put k a).values = m.values ++ [a] := by
  have hk : k ∉ m.entries.keys := by
    rw [← keys, ← contains_iff, h]
    exact Bool.false_ne_true
  show (m.entries.put k a).values = m.entries.values ++ [a]
  rw [Assoc.put_of_not_mem hk, Assoc.values, List.map_append]
  rfl

/-- Removing a key takes its value out of the middle of the others. -/
theorem exists_values_erase {m : OrderedMap κ α} {k : κ} {a : α} (h : m.get? k = some a) :
    ∃ xs ys, m.values = xs ++ a :: ys ∧ (m.erase k).values = xs ++ ys := by
  obtain ⟨ps, qs, hm, he⟩ := Assoc.exists_erase_of_get? h
  refine ⟨ps.map Prod.snd, qs.map Prod.snd, ?_, ?_⟩
  · rw [values, hm, Assoc.values, List.map_append]
    rfl
  · show (m.entries.erase k).values = _
    rw [he, Assoc.values, List.map_append]

end OrderedMap
end RuleAggregate
