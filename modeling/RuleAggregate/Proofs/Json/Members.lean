import RuleAggregate.Json.Reader
import Mathlib.Data.List.Induction
import Mathlib.Data.List.Nodup
import Mathlib.Data.String.Basic

/-!
# Members sorted by name

Members are stored at their places one after the other.  A later one takes the place of an earlier
one with its name, so a name stands for the last of its members, and no name stands twice.

## What is here

* `Json.get?_sortMembers` — **the last member of a name counts.**
* `Json.nodup_keys_sortMembers` — **no name is left twice.**
* `OrderedMap.entries_ofList` — pairs with distinct keys are stored as they are.
-/

set_option autoImplicit false

namespace RuleAggregate

/-! ## Pairs with distinct keys -/

namespace Assoc

variable {κ α β : Type} [DecidableEq κ] {k : κ} {m : Assoc κ α}

theorem get?_append (k : κ) (m n : Assoc κ α) :
    get? k (m ++ n) = (get? k m <|> get? k n) := by
  induction m with
  | nil => rfl
  | cons p m ih =>
    rw [List.cons_append, get?_cons, get?_cons, ih]
    split <;> rfl

theorem get?_map (f : α → β) (k : κ) (m : Assoc κ α) :
    get? k (m.map fun p => (p.1, f p.2)) = (get? k m).map f := by
  induction m with
  | nil => rfl
  | cons p m ih =>
    rw [List.map_cons, get?_cons, get?_cons, ih]
    split <;> rfl

/-- The order of pairs with distinct keys does not matter. -/
theorem get?_reverse (hm : m.keys.Nodup) (k : κ) : get? k m.reverse = get? k m := by
  have hkeys : keys m.reverse = m.keys.reverse := List.map_reverse
  cases hget : get? k m with
  | none =>
    rw [get?_eq_none_iff, hkeys, List.mem_reverse]
    exact get?_eq_none_iff.1 hget
  | some a =>
    refine get?_eq_some_of_mem ?_ (List.mem_reverse.2 (mem_of_get?_eq_some hget))
    rw [hkeys]
    exact List.nodup_reverse.2 hm

end Assoc

namespace OrderedMap

variable {κ α : Type} [DecidableEq κ]

theorem entries_putAll (m : OrderedMap κ α) {ps : List (κ × α)}
    (hps : (m.keys ++ Assoc.keys ps).Nodup) : (m.putAll ps).entries = m.entries ++ ps := by
  induction ps generalizing m with
  | nil => exact (List.append_nil _).symm
  | cons p ps ih =>
    have hp : p.1 ∉ m.keys := fun hmem =>
      (List.nodup_append.1 hps).2.2 _ hmem _ List.mem_cons_self rfl
    have hentries : (m.put p.1 p.2).entries = m.entries ++ [p] := Assoc.put_of_not_mem hp
    have hkeys : (m.put p.1 p.2).keys = m.keys ++ [p.1] := by rw [keys_put, if_neg hp]
    show ((m.put p.1 p.2).putAll ps).entries = _
    rw [ih _ (by rwa [hkeys, List.append_assoc]), hentries, List.append_assoc]
    rfl

/-- Pairs with distinct keys are stored as they are. -/
theorem entries_ofList {ps : List (κ × α)} (hps : (Assoc.keys ps).Nodup) :
    (ofList ps).entries = ps := entries_putAll empty hps

end OrderedMap

namespace Json

/-! ## Storing members -/

variable {name : String} {v : Value} {fs : List (String × Value)}

theorem get?_insertMember (name : String) (v : Value) (fs : List (String × Value)) (k : String) :
    Assoc.get? k (insertMember name v fs) = if name = k then some v else Assoc.get? k fs := by
  induction fs with
  | nil => rfl
  | cons p fs ih =>
    obtain ⟨n, w⟩ := p
    rw [insertMember]
    split
    · rfl
    · split
      · next hname =>
        subst hname
        simp only [Assoc.get?_cons]
        split <;> rfl
      · next hname =>
        simp only [Assoc.get?_cons, ih]
        by_cases hn : n = k
        · rw [if_pos hn, if_pos hn, if_neg (hn ▸ hname)]
        · rw [if_neg hn, if_neg hn]

theorem mem_keys_insertMember {k : String} :
    k ∈ Assoc.keys (insertMember name v fs) ↔ k = name ∨ k ∈ Assoc.keys fs := by
  have hget := get?_insertMember name v fs k
  rw [← not_iff_not, not_or, ← Assoc.get?_eq_none_iff, ← Assoc.get?_eq_none_iff, hget]
  by_cases hname : name = k
  · simp [hname]
  · simp [hname, Ne.symm hname]

/-- Members stay sorted by name. -/
theorem sorted_insertMember (hfs : (Assoc.keys fs).Pairwise (· < ·)) :
    (Assoc.keys (insertMember name v fs)).Pairwise (· < ·) := by
  induction fs with
  | nil => exact List.pairwise_singleton _ _
  | cons p fs ih =>
    obtain ⟨n, w⟩ := p
    rw [Assoc.keys_cons, List.pairwise_cons] at hfs
    rw [insertMember]
    split
    · next hlt =>
      refine List.pairwise_cons.2 ⟨fun k hk => ?_, List.pairwise_cons.2 hfs⟩
      rcases List.mem_cons.1 hk with rfl | hk
      · exact hlt
      · exact hlt.trans (hfs.1 k hk)
    · next hlt =>
      split
      · next heq =>
        subst heq
        exact List.pairwise_cons.2 hfs
      · next hne =>
        have hgt : n < name := lt_of_le_of_ne (not_lt.1 hlt) (Ne.symm hne)
        refine List.pairwise_cons.2 ⟨fun k hk => ?_, ih hfs.2⟩
        rcases mem_keys_insertMember.1 hk with rfl | hk
        · exact hgt
        · exact hfs.1 k hk

/-! ## All members -/

theorem sortMembers_concat (ms : List (String × Value)) (p : String × Value) :
    sortMembers (ms ++ [p]) = insertMember p.1 p.2 (sortMembers ms) :=
  List.foldl_concat ..

/-- **The last member of a name counts.** -/
theorem get?_sortMembers (k : String) (ms : List (String × Value)) :
    Assoc.get? k (sortMembers ms) = Assoc.get? k ms.reverse := by
  induction ms using List.reverseRecOn with
  | nil => rfl
  | append_singleton ms p ih =>
    rw [sortMembers_concat, get?_insertMember, ih, List.reverse_concat, Assoc.get?_cons]

/-- **No name is left twice.** -/
theorem nodup_keys_sortMembers (ms : List (String × Value)) :
    (Assoc.keys (sortMembers ms)).Nodup := by
  have hsorted : (Assoc.keys (sortMembers ms)).Pairwise (· < ·) := by
    induction ms using List.reverseRecOn with
    | nil => exact .nil
    | append_singleton ms p ih =>
      rw [sortMembers_concat]
      exact sorted_insertMember ih
  exact hsorted.imp fun hlt => ne_of_lt hlt

/-- A first member counts if there is no other one with its name. -/
theorem get?_sortMembers_cons {ms : List (String × Value)} (hms : (Assoc.keys ms).Nodup)
    (p : String × Value) (k : String) :
    Assoc.get? k (sortMembers (p :: ms)) =
      (Assoc.get? k ms <|> if p.1 = k then some p.2 else none) := by
  rw [get?_sortMembers, List.reverse_cons, Assoc.get?_append, Assoc.get?_reverse hms]
  rfl

end Json
end RuleAggregate
