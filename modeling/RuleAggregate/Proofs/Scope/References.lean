import RuleAggregate.Code.Analysis

/-!
# What fragments mention is visible

An analyzer that reads tokens only finds names mentioned that are available, and the names that are
available in a clause are those of its scope.  So the look-up of the declarations that a clause
requires cannot fail.

## What is here

* `Analyzer.contains_of_mem_lexical` — what a fragment mentions is available.
* `References.mem_names_merge`, `References.mem_names_mergeAll` — what several fragments mention.
* `requireNames_eq_ok` — **visible names are found**, each as the scope has it.
-/

set_option autoImplicit false

namespace RuleAggregate

/-! ## Mentioned names -/

theorem OrderedMap.mem_keys_put {κ α : Type} [DecidableEq κ] {m : OrderedMap κ α} {k l : κ}
    {a : α} : l ∈ (m.put k a).keys ↔ l ∈ m.keys ∨ l = k := by
  rw [OrderedMap.keys_put]
  split
  · next h => exact ⟨.inl, fun h' => h'.elim id (· ▸ h)⟩
  · rw [List.mem_append, List.mem_singleton]

theorem Available.contains_ofScope (visible : Scope) (globals : OrderedMap String ValueType)
    (name : String) :
    (ofScope visible globals).declarations.contains name = visible.contains name := by
  rw [Bool.eq_iff_iff, OrderedMap.contains_iff, OrderedMap.contains_iff, ofScope,
    OrderedMap.keys_mapValues]

namespace References

theorem mem_names_addDeclaration {r : References} {name added : String} :
    name ∈ (r.addDeclaration added).names ↔ name ∈ r.names ∨ name = added :=
  OrderedMap.mem_keys_put

theorem mem_names_merge {r s : References} {name : String} :
    name ∈ (r.merge s).names ↔ name ∈ r.names ∨ name ∈ s.names := by
  show name ∈ (s.names.foldl (fun m name => m.put name ()) r.declarations).keys ↔
    name ∈ r.declarations.keys ∨ _
  generalize r.declarations = m
  induction s.names generalizing m with
  | nil => simp
  | cons added names ih =>
    rw [List.foldl_cons, ih, OrderedMap.mem_keys_put, List.mem_cons, or_assoc]

/-- What several fragments mention together, one of them mentions. -/
theorem mem_names_mergeAll {rs : List References} {r : References} {name : String} :
    name ∈ (rs.foldl merge r).names ↔ name ∈ r.names ∨ ∃ s ∈ rs, name ∈ s.names := by
  induction rs generalizing r with
  | nil => simp
  | cons s rs ih =>
    rw [List.foldl_cons, ih, mem_names_merge, or_assoc]
    simp

end References

theorem Available.contains_of_mem_refer {available : Available} {name : String}
    (mentioned : List String) :
    ∀ {r : References}, name ∈ (mentioned.foldl available.refer r).names →
      name ∈ r.names ∨ available.declarations.contains name = true := by
  induction mentioned with
  | nil => exact .inl
  | cons k mentioned ih =>
    intro r h
    rcases ih h with h | h
    · rw [refer] at h
      split at h
      · next hk =>
        rcases References.mem_names_addDeclaration.1 h with h | rfl
        · exact .inl h
        · exact .inr hk
      · split at h <;> exact .inl h
    · exact .inr h

/-- **What a fragment mentions is available.** -/
theorem Analyzer.contains_of_mem_lexical {code : String} {kind : FragmentKind}
    {available : Available} {a : Analysis} (ha : lexical code kind available = .ok a)
    {name : String} (h : name ∈ a.references.names) :
    available.declarations.contains name = true := by
  rw [lexical] at ha
  split at ha
  · cases ha
  · split at ha
    · cases ha
    · cases ha
      exact (Available.contains_of_mem_refer _ h).resolve_left List.not_mem_nil

/-! ## Look-up -/

/-- **Visible names are found**, each as the scope has it, and are required from then on. -/
theorem requireNames_eq_ok {visible : Scope} {names : List String} (required : Required)
    (h : ∀ name ∈ names, visible.contains name = true) :
    requireNames visible names required =
      (.ok (names.filterMap visible.get?),
        (names.filterMap visible.get?).foldl Required.insert required) := by
  induction names generalizing required with
  | nil => rfl
  | cons name names ih =>
    obtain ⟨hname, hnames⟩ := List.forall_mem_cons.1 h
    obtain ⟨d, hd⟩ := Option.isSome_iff_exists.1 hname
    rw [requireNames, hd, List.filterMap_cons, hd]
    simp only [ih _ hnames]
    rfl

end RuleAggregate
