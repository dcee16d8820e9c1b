import Mathlib.Data.List.Basic
import RuleAggregate.OrderedMap

/-!
# Maps that list what was mentioned

The names that fragments mention are collected one after the other, and what is already there keeps
its place.  So the map that is collected only depends on the order of the first mentions, and
collecting in parts comes to the same as collecting all at once.

## What is here

* `eraseDups_filter`, `eraseDups_append_eraseDups` — how the first mentions of a list behave.
* `pairwise_eraseDups_map` — first mentions stand in the order of what is mentioned.
* `OrderedMap.Lists` — the map holds what a function says about the keys mentioned so far.
* `Lists.putNew`, `Lists.foldl` — one more mention, and many more.
* `Lists.append_keys` — **collecting in parts comes to the same as collecting all at once.**
-/

set_option autoImplicit false

namespace RuleAggregate

variable {κ α β : Type} [DecidableEq κ]

/-! ## First mentions -/

/-- What is left of a list after its head is taken out everywhere is shorter. -/
theorem length_filter_ne_lt (a : κ) (l : List κ) :
    (l.filter fun b => !b == a).length < (a :: l).length :=
  Nat.lt_succ_of_le (List.length_filter_le _ _)

/-- Dropping elements and dropping repetitions can be exchanged. -/
theorem eraseDups_filter (p : κ → Bool) : ∀ l : List κ,
    (l.filter p).eraseDups = l.eraseDups.filter p
  | [] => rfl
  | a :: l => by
    rw [List.eraseDups_cons, List.filter_cons, List.filter_cons, ← eraseDups_filter,
      List.filter_filter]
    split
    · simp only [List.eraseDups_cons, List.filter_filter, Bool.and_comm]
    · next ha =>
      congr 1
      refine List.filter_congr fun b _ => ?_
      by_cases hba : b = a
      · simp [hba, ha]
      · simp [hba]
termination_by l => l.length
decreasing_by exact length_filter_ne_lt a l

theorem eraseDups_eraseDups : ∀ l : List κ, l.eraseDups.eraseDups = l.eraseDups
  | [] => rfl
  | a :: l => by
    rw [List.eraseDups_cons, List.eraseDups_cons, ← eraseDups_filter, List.filter_filter]
    simp only [Bool.and_self, eraseDups_eraseDups (l.filter fun b => !b == a)]
termination_by l => l.length
decreasing_by exact length_filter_ne_lt a l

/-- Repetitions in the second part can be dropped beforehand. -/
theorem eraseDups_append_eraseDups (l m : List κ) :
    (l ++ m.eraseDups).eraseDups = (l ++ m).eraseDups := by
  simp only [List.eraseDups_append, List.removeAll, eraseDups_filter, eraseDups_eraseDups]

theorem eraseDups_concat (l : List κ) (a : κ) :
    (l ++ [a]).eraseDups = if a ∈ l then l.eraseDups else l.eraseDups ++ [a] := by
  rw [List.eraseDups_append, List.removeAll]
  split
  · next h => simp [h]
  · next h => simp [h, List.eraseDups_cons]

theorem eraseDups_singleton (a : κ) : [a].eraseDups = [a] := by
  rw [List.eraseDups_cons, List.filter_nil, List.eraseDups_nil]

/-- **First mentions stand in order**: if the elements of a list are ordered, then each label that is
listed belongs to an element before all elements of the labels after it. -/
theorem pairwise_eraseDups_map {f : α → κ} {lt : α → α → Prop} : ∀ {l : List α}, l.Pairwise lt →
    (l.map f).eraseDups.Pairwise fun a b => ∃ x ∈ l, f x = a ∧ ∀ y ∈ l, f y = b → lt x y
  | [], _ => by
    rw [List.map_nil, List.eraseDups_nil]
    exact .nil
  | x :: l, h => by
    obtain ⟨hx, hl⟩ := List.pairwise_cons.1 h
    have hfilter : (l.map f).filter (fun b => !b == f x) =
        (l.filter fun y => !f y == f x).map f := List.filter_map
    -- the labels after the first one are others
    have hother : ∀ b ∈ ((l.filter fun y => !f y == f x).map f).eraseDups,
        ∀ y ∈ x :: l, f y = b → y ∈ l ∧ (!f y == f x) = true := by
      intro b hb y hy hyb
      obtain ⟨z, hz, rfl⟩ := List.mem_map.1 (List.mem_eraseDups.1 hb)
      have hne := (List.mem_filter.1 hz).2
      rw [← hyb] at hne
      rcases List.mem_cons.1 hy with rfl | hy
      · simp at hne
      · exact ⟨hy, hne⟩
    rw [List.map_cons, List.eraseDups_cons, hfilter]
    refine .cons (fun b hb => ⟨x, List.mem_cons_self, rfl, fun y hy hyb =>
      hx y (hother b hb y hy hyb).1⟩) ((pairwise_eraseDups_map (hl.filter _)).imp_of_mem ?_)
    rintro a b - hb ⟨z, hz, hza, hall⟩
    refine ⟨z, List.mem_cons_of_mem x (List.mem_of_mem_filter hz), hza, fun y hy hyb => ?_⟩
    exact hall y (List.mem_filter.2 (hother b hb y hy hyb)) hyb
termination_by l => l.length
decreasing_by exact Nat.lt_succ_of_le (List.length_filter_le _ _)

/-- Elements at which a function is not defined can be left out beforehand, and so can
repetitions. -/
theorem filterMap_eraseDups_append (l m : List κ) {f : κ → Option β} {p : κ → Bool}
    (h : ∀ k, p k = false → f k = none) :
    (l ++ m.eraseDups.filter p).eraseDups.filterMap f = (l ++ m).eraseDups.filterMap f := by
  have hfilter : ∀ k : List κ, k.eraseDups.filterMap f = (k.filter p).eraseDups.filterMap f := by
    intro k
    rw [eraseDups_filter, List.filterMap_filter]
    refine List.filterMap_congr fun a _ => ?_
    split
    · rfl
    · next hp => exact h a (Bool.eq_false_iff.2 hp)
  rw [hfilter, hfilter (l ++ m), List.filter_append, List.filter_append, List.filter_filter]
  simp only [Bool.and_self]
  rw [← eraseDups_filter, eraseDups_append_eraseDups]

/-! ## Maps -/

/-- What is there can be stored again. -/
theorem Assoc.put_of_get? {k : κ} {a : α} {m : Assoc κ α} (h : get? k m = some a) :
    put k a m = m := by
  induction m with
  | nil => cases h
  | cons p m ih =>
    rw [get?_cons] at h
    rw [put]
    split at h
    · next hp =>
      cases h
      rw [if_pos hp]
    · next hp => rw [if_neg hp, ih h]

namespace OrderedMap

/-- The map holds what `f` says about the keys that were mentioned, in the order in which they were
mentioned first; keys about which `f` says nothing are left out. -/
def Lists (m : OrderedMap κ α) (f : κ → Option α) (mentioned : List κ) : Prop :=
  m.entries = mentioned.eraseDups.filterMap fun k => (f k).map (k, ·)

variable {m : OrderedMap κ α} {f : κ → Option α} {mentioned : List κ}

theorem lists_empty (f : κ → Option α) : (empty : OrderedMap κ α).Lists f [] := rfl

theorem Lists.values_eq (h : m.Lists f mentioned) :
    m.values = mentioned.eraseDups.filterMap f := by
  rw [values, h, Assoc.values, List.map_filterMap]
  refine List.filterMap_congr fun k _ => ?_
  cases f k <;> rfl

theorem Lists.keys_eq (h : m.Lists f mentioned) :
    m.keys = mentioned.eraseDups.filter fun k => (f k).isSome := by
  rw [keys, h, Assoc.keys, List.map_filterMap, ← List.filterMap_eq_filter]
  refine List.filterMap_congr fun k _ => ?_
  cases hk : f k <;> simp [Option.guard, hk]

theorem Lists.get?_eq (h : m.Lists f mentioned) {k : κ} (hk : k ∈ mentioned) :
    m.get? k = f k := by
  cases hf : f k with
  | none =>
    rw [get?_eq_none_iff, h.keys_eq]
    simp [hf]
  | some a =>
    rw [get?_eq_some_iff, h, List.mem_filterMap]
    exact ⟨k, List.mem_eraseDups.2 hk, by rw [hf]; rfl⟩

theorem Lists.contains_iff (h : m.Lists f mentioned) (k : κ) :
    m.contains k = true ↔ k ∈ mentioned ∧ (f k).isSome = true := by
  rw [OrderedMap.contains_iff, h.keys_eq, List.mem_filter, List.mem_eraseDups]

/-- **One more mention**, of a key about which `f` says something. -/
theorem Lists.putNew (h : m.Lists f mentioned) {k : κ} {a : α} (hk : f k = some a) :
    (m.putNew k a).Lists f (mentioned ++ [k]) := by
  rw [Lists, eraseDups_concat, OrderedMap.putNew]
  by_cases hmem : k ∈ mentioned
  · have hcontains : m.contains k = true := by rw [contains, h.get?_eq hmem, hk]; rfl
    rw [if_pos hmem, if_pos hcontains, h]
  · have hcontains : m.contains k = false := by
      rw [← Bool.not_eq_true, h.contains_iff]
      exact fun hk => hmem hk.1
    have hnew : k ∉ m.entries.keys := by
      rw [← keys, ← OrderedMap.contains_iff, hcontains]
      exact Bool.false_ne_true
    have hentries : (m.put k a).entries = m.entries ++ [(k, a)] := Assoc.put_of_not_mem hnew
    rw [if_neg hmem, hcontains, if_neg Bool.false_ne_true, List.filterMap_append, ← h, hentries]
    simp [hk]

/-- A mention that replaces what is there replaces it by the same. -/
theorem Lists.put_eq_putNew (h : m.Lists f mentioned) {k : κ} {a : α} (hk : f k = some a) :
    m.put k a = m.putNew k a := by
  rw [OrderedMap.putNew]
  split
  · next hcontains =>
    refine ext_entries (Assoc.put_of_get? ?_)
    obtain ⟨hmem, -⟩ := (h.contains_iff k).1 hcontains
    exact (h.get?_eq hmem).trans hk
  · rfl

/-- A mention about which `f` says nothing. -/
theorem Lists.skip (h : m.Lists f mentioned) {k : κ} (hk : f k = none) :
    m.Lists f (mentioned ++ [k]) := by
  rw [Lists, eraseDups_concat, h]
  split
  · rfl
  · simp [hk]

/-- Many more mentions, each by a step that adds one. -/
theorem Lists.foldl {γ : Type} {step : OrderedMap κ α → γ → OrderedMap κ α} {key : γ → κ}
    {cs : List γ} (hstep : ∀ c ∈ cs, ∀ {m : OrderedMap κ α} {mentioned : List κ},
      m.Lists f mentioned → (step m c).Lists f (mentioned ++ [key c]))
    (h : m.Lists f mentioned) : (cs.foldl step m).Lists f (mentioned ++ cs.map key) := by
  induction cs generalizing m mentioned with
  | nil => simpa using h
  | cons c cs ih =>
    obtain ⟨hc, hcs⟩ := List.forall_mem_cons.1 hstep
    have hrest := ih hcs (hc h)
    rw [List.append_assoc] at hrest
    exact hrest

/-- **Collecting in parts comes to the same as collecting all at once**: what another map lists was
mentioned there. -/
theorem Lists.append_keys {g : κ → Option β} {n : OrderedMap κ β} {others : List κ}
    (h : m.Lists f (mentioned ++ n.keys)) (hn : n.Lists g others)
    (hfg : ∀ k, g k = none → f k = none) : m.Lists f (mentioned ++ others) := by
  rw [Lists, h, hn.keys_eq]
  refine filterMap_eraseDups_append mentioned others fun k hk => ?_
  rw [hfg k (Option.not_isSome_iff_eq_none.1 (Bool.eq_false_iff.1 hk))]
  rfl

end OrderedMap
end RuleAggregate
