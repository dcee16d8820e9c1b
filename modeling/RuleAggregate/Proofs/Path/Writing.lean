import RuleAggregate.Proofs.Code.Splitting
import RuleAggregate.Proofs.Decimal.Digits
import RuleAggregate.Proofs.Path.Spelling

/-!
# Reading what was written

A path is written as names with dots between them, a literal as it stands in a rule.  Blanks may be
put around the whole and around the dots, since names neither start nor end with one.  Which of the
cases of an expression applies is seen from its first character, except for three words: alone, they
are literals.

## What is here

* `PathExpr.Spells.exists_strip` — the blanks around names with dots can be cut off.
* `PathExpr.trim_splitDots_of_spells` — what stands between the dots are the names.
* `PathExpr.read_eq_path_iff` — **which texts are read as a path.**
* `PathExpr.Written` — how literals are written.
* `PathExpr.read_of_written` — **a literal is read as it was written.**
* `PathExpr.read_undoes_writing` — both of them.
-/

set_option autoImplicit false

namespace RuleAggregate

/-! ## Names -/

theorem not_isBlank_of_isIdentifierPart {c : Char} (h : isIdentifierPart c = true) :
    Text.isBlank c = false := by
  rw [← Bool.not_eq_true]
  intro hblank
  rw [Fragment.isIdentifierPart_of_isBlank c hblank] at h
  cases h

theorem exists_of_isIdentifier {x : List Char} (h : isIdentifier x = true) :
    ∃ c s, x = c :: s ∧ isIdentifierStart c = true ∧ ∀ d ∈ x, isIdentifierPart d = true := by
  cases x with
  | nil => cases h
  | cons c s =>
    rw [isIdentifier, Bool.and_eq_true, List.all_eq_true] at h
    exact ⟨c, s, rfl, h.1,
      List.forall_mem_cons.2 ⟨isIdentifierPart_of_isIdentifierStart h.1, h.2⟩⟩

/-- There are no blanks in a name. -/
theorem noBlankEnds_of_isIdentifier {x : List Char} (h : isIdentifier x = true) :
    Text.NoBlankEnds x := by
  obtain ⟨-, -, -, -, hparts⟩ := exists_of_isIdentifier h
  exact Text.noBlankEnds_of_forall fun d hd => not_isBlank_of_isIdentifierPart (hparts d hd)

/-- There is no dot in a name with blanks around it. -/
theorem dot_not_mem_of_isIdentifier {x b b' : List Char} (h : isIdentifier x = true)
    (hb : Text.AllBlank b) (hb' : Text.AllBlank b') : '.' ∉ b ++ x ++ b' := by
  obtain ⟨-, -, -, -, hparts⟩ := exists_of_isIdentifier h
  have hblank : ∀ {s : List Char}, Text.AllBlank s → '.' ∉ s := fun hs hmem =>
    absurd (hs _ hmem) (by decide)
  rw [List.mem_append, List.mem_append, not_or, not_or]
  exact ⟨⟨hblank hb, fun hmem => absurd (hparts _ hmem) (by decide)⟩, hblank hb'⟩

namespace PathExpr

/-! ## Names with dots between them -/

theorem splitDots_of_not_mem {x : List Char} (hx : '.' ∉ x) : splitDots x = (x, []) := by
  induction x with
  | nil => rfl
  | cons c x ih =>
    rw [List.mem_cons, not_or] at hx
    rw [splitDots, ih hx.2]
    exact if_neg (Ne.symm hx.1)

theorem splitDots_append {x : List Char} (hx : '.' ∉ x) (s : List Char) :
    splitDots (x ++ '.' :: s) = (x, (splitDots s).1 :: (splitDots s).2) := by
  induction x with
  | nil => rfl
  | cons c x ih =>
    rw [List.mem_cons, not_or] at hx
    rw [List.cons_append, splitDots, ih hx.2]
    exact if_neg (Ne.symm hx.1)

variable {xs : List (List Char)} {s : List Char}

/-- **What stands between the dots are the names**, with blanks around them. -/
theorem trim_splitDots_of_spells (hxs : ∀ x ∈ xs, isIdentifier x = true) (h : Spells xs s) :
    Text.trim (splitDots s).1 :: (splitDots s).2.map Text.trim = xs := by
  induction h with
  | @last x b b' hb hb' =>
    have hx := hxs x List.mem_cons_self
    rw [splitDots_of_not_mem (dot_not_mem_of_isIdentifier hx hb hb'),
      Text.trim_blanks hb (noBlankEnds_of_isIdentifier hx) hb']
    rfl
  | @cons x b b' s xs hb hb' h ih =>
    rw [List.forall_mem_cons] at hxs
    rw [splitDots_append (dot_not_mem_of_isIdentifier hxs.1 hb hb'),
      Text.trim_blanks hb (noBlankEnds_of_isIdentifier hxs.1) hb', List.map_cons, ih hxs.2]

/-- The blanks around names with dots can be cut off. -/
theorem Spells.exists_strip (hxs : ∀ x ∈ xs, isIdentifier x = true) (h : Spells xs s) :
    ∃ b t b', s = b ++ t ++ b' ∧ Text.AllBlank b ∧ Text.AllBlank b' ∧ Spells xs t ∧
      Text.NoBlankEnds t ∧ ∃ c r, t = c :: r ∧ isIdentifierStart c = true := by
  have hnil : Text.AllBlank [] := nofun
  induction h with
  | @last x b b' hb hb' =>
    have hx := hxs x List.mem_cons_self
    obtain ⟨c, r, hcons, hc, -⟩ := exists_of_isIdentifier hx
    have hspells : Spells [x] x := by simpa using Spells.last (x := x) hnil hnil
    exact ⟨b, x, b', rfl, hb, hb', hspells, noBlankEnds_of_isIdentifier hx, c, r, hcons, hc⟩
  | @cons x b b' s xs hb hb' h ih =>
    rw [List.forall_mem_cons] at hxs
    obtain ⟨c, r, rfl, hc, -⟩ := exists_of_isIdentifier hxs.1
    obtain ⟨a, t, a', rfl, ha, ha', ht, hends, d, u, rfl, -⟩ := ih hxs.2
    refine ⟨b, c :: r ++ b' ++ '.' :: (a ++ d :: u), a', by simp, hb, ha',
      .cons hnil hb' (ht.prepend ha), ⟨fun e he => ?_, fun e he => ?_⟩, c, _, rfl, hc⟩
    · cases he
      exact not_isBlank_of_isIdentifierPart (isIdentifierPart_of_isIdentifierStart hc)
    · have hlast : (c :: r ++ b' ++ '.' :: (a ++ d :: u)).getLast? = (d :: u).getLast? := by
        simp [List.getLast?_append, List.getLast?_cons]
      exact hends.back e (hlast ▸ he)

/-! ## Paths -/

variable {e : String}

theorem readPath_of_spells {root : List Char} {fields : List (List Char)}
    (hroot : isIdentifier root = true) (hfields : ∀ x ∈ fields, isIdentifier x = true)
    (h : Spells (root :: fields) s) :
    readPath s = .ok (.path (String.ofList root) (fields.map String.ofList)) := by
  have hparts := trim_splitDots_of_spells (List.forall_mem_cons.2 ⟨hroot, hfields⟩) h
  rw [readPath]
  generalize splitDots s = parts at hparts
  obtain ⟨first, rest⟩ := parts
  rw [List.cons.injEq] at hparts
  simp only [hparts.1, hparts.2, hroot, List.all_eq_true.2 hfields, Bool.and_self, if_true]

/-- What starts like a name is read as a path, unless it is one of the words for literals. -/
theorem read_of_name {c : Char} {r : List Char} (ht : Text.trim e.toList = c :: r)
    (hc : isIdentifierStart c = true) (hword : c :: r ∉ literalWords) :
    read e = readPath (c :: r) := by
  have hquote : unquote? (c :: r) = none := by
    rw [unquote?.eq_def]
    split
    · next heq =>
      cases heq
      cases hc
    · rfl
  have hnumber : startsLikeNumber (c :: r) = false := by
    rw [startsLikeNumber, Bool.or_eq_false_iff, decide_eq_false_iff_not, ← Bool.not_eq_true]
    refine ⟨fun hdigit => ?_, ?_⟩
    · rw [not_isIdentifierStart_of_isDigit hdigit] at hc
      cases hc
    · rintro rfl
      cases hc
  simp only [literalWords, List.mem_cons, List.not_mem_nil, or_false, not_or] at hword
  rw [read]
  simp only [ht, hquote, hword.1, hword.2.1, hword.2.2, hnumber, List.isEmpty_cons,
    Bool.false_eq_true, if_false]

/-- A word for a literal is read as this literal. -/
theorem read_of_mem_literalWords (ht : Text.trim e.toList ∈ literalWords) :
    ∃ v, read e = .ok (.literal v) := by
  rw [read]
  simp only [literalWords, List.mem_cons, List.not_mem_nil, or_false] at ht
  rcases ht with ht | ht | ht <;> rw [ht]
  · exact ⟨_, rfl⟩
  · exact ⟨_, rfl⟩
  · exact ⟨_, rfl⟩

/-- Only a single name is written as a word for a literal. -/
theorem Spells.eq_of_mem_literalWords {t : List Char} (hxs : ∀ x ∈ xs, isIdentifier x = true)
    (h : Spells xs t) (ht : t ∈ literalWords) : xs = [t] := by
  have hdots : ∀ s ∈ literalWords,
      Text.trim (splitDots s).1 :: (splitDots s).2.map Text.trim = [s] := by decide
  rw [← trim_splitDots_of_spells hxs h, hdots t ht]

/-- A single name is what its spelling is without blanks. -/
theorem Spells.trim_eq {x : List Char} (hx : isIdentifier x = true) (h : Spells [x] s) :
    Text.trim s = x := by
  cases h with
  | last hb hb' => exact Text.trim_blanks hb (noBlankEnds_of_isIdentifier hx) hb'
  | cons _ _ h => cases h

/-- **Which texts are read as a path**: names with dots between them, with any blanks around the
whole and around the dots, but a single name must not be one of the words for literals. -/
theorem read_eq_path_iff {root : String} {fields : List String} :
    read e = .ok (.path root fields) ↔
      isIdentifier root.toList = true ∧ (∀ x ∈ fields, isIdentifier x.toList = true) ∧
        (fields = [] → root.toList ∉ literalWords) ∧
        Spells (root.toList :: fields.map String.toList) e.toList := by
  constructor
  · intro h
    obtain ⟨b, b', he, hb, hb'⟩ := Text.exists_eq_append_trim e.toList
    obtain ⟨hroot, hfields, hspells⟩ : isIdentifier root.toList = true ∧
        (∀ x ∈ fields, isIdentifier x.toList = true) ∧
        Spells (root.toList :: fields.map String.toList) (Text.trim e.toList) := by
      have hspelling := spelling_of_read h
      generalize Text.trim e.toList = t at hspelling
      generalize hp : PathExpr.path root fields = p at hspelling
      cases hspelling with
      | @path r fs _ hroot hfields hspells =>
        cases hp
        have hmap : (fs.map String.ofList).map String.toList = fs := by
          simp [Function.comp_def, String.toList_ofList]
        rw [String.toList_ofList, hmap]
        refine ⟨hroot, fun x hx => ?_, hspells⟩
        obtain ⟨y, hy, rfl⟩ := List.mem_map.1 hx
        rw [String.toList_ofList]
        exact hfields y hy
      | _ => cases hp
    have hall := (hspells.prepend hb).append hb'
    rw [← he] at hall
    refine ⟨hroot, hfields, fun hnil hword => ?_, hall⟩
    subst hnil
    rw [← hall.trim_eq hroot] at hword
    obtain ⟨v, hv⟩ := read_of_mem_literalWords hword
    cases h.symm.trans hv
  · rintro ⟨hroot, hfields, hword, hspells⟩
    have hids : ∀ x ∈ root.toList :: fields.map String.toList, isIdentifier x = true :=
      List.forall_mem_cons.2 ⟨hroot, List.forall_mem_map.2 hfields⟩
    obtain ⟨b, t, b', he, hb, hb', ht, hends, c, r, rfl, hc⟩ := hspells.exists_strip hids
    have htrim : Text.trim e.toList = c :: r := by rw [he, Text.trim_blanks hb hends hb']
    have hnot : c :: r ∉ literalWords := fun hmem => by
      have hsingle := ht.eq_of_mem_literalWords hids hmem
      rw [List.cons.injEq, List.map_eq_nil_iff] at hsingle
      exact hword hsingle.2 (hsingle.1 ▸ hmem)
    have hmap : (fields.map String.toList).map String.ofList = fields := by
      simp [Function.comp_def, String.ofList_toList]
    rw [read_of_name htrim hc hnot, readPath_of_spells hroot (List.forall_mem_map.2 hfields) ht,
      String.ofList_toList, hmap]

/-! ## Literals -/

/-- How the literals of path expressions are written. -/
inductive Written : Value → List Char → Prop
  | null : Written .null "null".toList
  | bool (b : Bool) : Written (.bool b) (if b then "true".toList else "false".toList)
  | int (n : Int64) : Written (.int n) (Decimal.writeInt n.toInt)
  | text (t : String) (ht : '"' ∉ t.toList) : Written (.text t) ('"' :: t.toList ++ ['"'])

theorem Written.noBlankEnds {v : Value} (h : Written v s) : Text.NoBlankEnds s := by
  have hdigit : ∀ {c : Char}, Decimal.isDigit c = true → Text.isBlank c = false := fun hc =>
    not_isBlank_of_isIdentifierPart (isIdentifierPart_of_isDigit hc)
  cases h with
  | null => exact noBlankEnds_of_isIdentifier (by decide)
  | bool b => cases b <;> exact noBlankEnds_of_isIdentifier (by decide)
  | int n =>
    refine Text.noBlankEnds_of_forall fun c hc => ?_
    rw [Decimal.writeInt] at hc
    split at hc
    · rcases List.mem_cons.1 hc with rfl | hc
      · decide
      · exact hdigit (Decimal.isDigit_of_mem_digits hc)
    · exact hdigit (Decimal.isDigit_of_mem_digits hc)
  | text t ht =>
    refine ⟨fun c hc => ?_, fun c hc => ?_⟩
    · cases hc
      decide
    · rw [List.getLast?_concat] at hc
      cases hc
      decide

theorem unquote?_quoted (s : List Char) : unquote? ('"' :: s ++ ['"']) = some s := by
  rw [List.cons_append, unquote?, List.getLast?_concat, if_pos rfl, List.dropLast_concat]

/-- The digits of an integer are read as a number. -/
theorem read_of_writeInt {n : Int64} (ht : Text.trim e.toList = Decimal.writeInt n.toInt) :
    read e = .ok (.literal (.int n)) := by
  obtain ⟨c, r, hcons, hc⟩ := Decimal.exists_writeInt_eq_cons n.toInt
  have hnumber : startsLikeNumber (c :: r) = true := by
    rw [startsLikeNumber, Bool.or_eq_true, decide_eq_true_eq]
    exact hc
  have hother : ∀ d s, Decimal.isDigit d = false → d ≠ '-' → c :: r ≠ d :: s :=
    fun d s hd hne heq => Decimal.ne_of_isDigit_or_minus hc hd hne (List.cons.inj heq).1
  have hquote : unquote? (c :: r) = none := by
    rw [unquote?.eq_def]
    split
    · next heq => exact absurd heq (hother '"' _ rfl (by decide))
    · rfl
  have hread : readNumber (c :: r) = .ok (.literal (.int n)) := by
    rw [readNumber, ← hcons, Decimal.readInt64?_writeInt]
  have hnull : c :: r ≠ "null".toList := hother 'n' _ rfl (by decide)
  have htrue : c :: r ≠ "true".toList := hother 't' _ rfl (by decide)
  have hfalse : c :: r ≠ "false".toList := hother 'f' _ rfl (by decide)
  rw [read]
  simp only [ht, hcons, hquote, hnull, htrue, hfalse, hnumber, hread, List.isEmpty_cons,
    Bool.false_eq_true, if_true, if_false]

/-- **A literal is read as it was written**, with any blanks around it. -/
theorem read_of_written {v : Value} {b b' : List Char} (h : Written v s) (hb : Text.AllBlank b)
    (hb' : Text.AllBlank b') (he : e.toList = b ++ s ++ b') : read e = .ok (.literal v) := by
  have ht : Text.trim e.toList = s := by rw [he, Text.trim_blanks hb h.noBlankEnds hb']
  cases h with
  | null =>
    rw [read, ht]
    rfl
  | bool x =>
    rw [read, ht]
    cases x <;> rfl
  | int n => exact read_of_writeInt ht
  | text t hquote =>
    have hcontains : t.toList.contains '"' = false := by simpa using hquote
    rw [read]
    simp only [ht, unquote?_quoted, hcontains, String.ofList_toList]
    rfl

/-- **Reading an expression undoes writing it.**  A text is read as a path exactly if it is written
as one, with any blanks around the whole and around the dots; a single name must not be a word for a
literal.  Literals are read as they are written, with any blanks around them. -/
theorem read_undoes_writing (e : String) :
    (∀ root fields, read e = .ok (.path root fields) ↔
      isIdentifier root.toList = true ∧ (∀ x ∈ fields, isIdentifier x.toList = true) ∧
        (fields = [] → root.toList ∉ literalWords) ∧
        Spells (root.toList :: fields.map String.toList) e.toList) ∧
      ∀ v s b b', Written v s → Text.AllBlank b → Text.AllBlank b' → e.toList = b ++ s ++ b' →
        read e = .ok (.literal v) :=
  ⟨fun _ _ => read_eq_path_iff, fun _ _ _ _ => read_of_written⟩

/-- A word for a literal with a field is a path, and the least integer is read within blanks. -/
theorem read_undoes_writing_of_blanks :
    read " null . x " = .ok (.path "null" ["x"]) ∧
      read "\t-9223372036854775808 " = .ok (.literal (.int Int64.minValue)) := by
  have hblank : Text.AllBlank [' '] := List.forall_mem_singleton.2 rfl
  have htab : Text.AllBlank ['\t'] := List.forall_mem_singleton.2 rfl
  refine ⟨((read_undoes_writing " null . x ").1 "null" ["x"]).2
      ⟨by decide, by decide, by decide, ?_⟩,
    (read_undoes_writing "\t-9223372036854775808 ").2 (.int Int64.minValue)
      "-9223372036854775808".toList ['\t'] [' '] ?_ htab hblank (by decide)⟩
  · exact .cons hblank hblank (.last hblank hblank)
  · have hwrite : Decimal.writeInt (Int64.minValue).toInt = "-9223372036854775808".toList := by
      decide +kernel
    rw [← hwrite]
    exact .int Int64.minValue

end PathExpr
end RuleAggregate
