import RuleAggregate.Text.Regex

/-!
# The longest prefix that matches

The longest prefix of a text is found by reading the text character by character while the
expression is replaced by its derivatives.  So an expression that a run of characters gives back
unchanged can be read along the whole run, and the reading stops where the derivative matches
nothing.

## What is here

* `Regex.longest?_cons`, `Regex.longest?_append` — one more character, and a run of characters that
  leave the expression as it is.
* `Regex.longest?_eq_zero`, `Regex.longest?_stop`, `Regex.longest?_eq_none` — nothing more can be
  read.
* `Regex.longest?_star_char` — any number of characters of a class.
* `Regex.matches_of_longest?` — **what is found matches.**
* `Regex.le_longest?_of_matches` — **nothing longer matches**, and something is found if anything
  matches.
* `Regex.longest?_append_eq` — a text that nothing longer matches is read as if it stood alone.
-/

set_option autoImplicit false

namespace RuleAggregate
namespace Regex

variable {r : Regex} {c : Char} {s : List Char} {n : Nat}

theorem longest?_never (s : List Char) : never.longest? s = none := by
  cases s <;> rfl

/-- One more character. -/
theorem longest?_cons (h : (r.derivative c).longest? s = some n) :
    r.longest? (c :: s) = some (n + 1) := by
  rw [longest?, h]
  split
  · next hr =>
    rw [hr, derivative, longest?_never] at h
    cases h
  · rfl

/-- At least one more character, if a text that matches cannot be empty. -/
theorem longest?_cons_eq (hr : r.nullable = false) (c : Char) (s : List Char) :
    r.longest? (c :: s) = ((r.derivative c).longest? s).map (· + 1) := by
  rcases h : (r.derivative c).longest? s with - | n
  · rw [longest?, h, hr]
    split <;> rfl
  · exact longest?_cons h

/-- A run of characters that leave the expression as it is. -/
theorem longest?_append {t : List Char} (ht : ∀ c ∈ t, r.derivative c = r)
    (h : r.longest? s = some n) : r.longest? (t ++ s) = some (t.length + n) := by
  induction t with
  | nil => rwa [List.length_nil, Nat.zero_add]
  | cons c t ih =>
    obtain ⟨hc, ht⟩ := List.forall_mem_cons.1 ht
    rw [List.cons_append, List.length_cons, Nat.add_right_comm]
    exact longest?_cons (hc.symm ▸ ih ht)

/-- The empty text is read if nothing longer can be read. -/
theorem longest?_eq_zero (hr : r.nullable = true) (h : (r.derivative c).longest? s = none) :
    r.longest? (c :: s) = some 0 := by
  have hne : r ≠ never := by
    rintro rfl
    cases hr
  rw [longest?, if_neg hne, h]
  exact if_pos hr

/-- The empty text is read if nothing longer starts with the next character. -/
theorem longest?_stop (hr : r.nullable = true)
    (hs : ∀ c, s.head? = some c → r.derivative c = never) : r.longest? s = some 0 := by
  cases s with
  | nil => rw [longest?, if_pos hr]
  | cons c s =>
    refine longest?_eq_zero hr ?_
    rw [hs c rfl, longest?_never]

/-- Nothing is read if a text that matches must go on, but not with the first character. -/
theorem longest?_eq_none (hr : r.nullable = false) (hc : r.derivative c = never) (s : List Char) :
    r.longest? (c :: s) = none := by
  rw [longest?_cons_eq hr, hc, longest?_never]
  rfl

theorem longest?_empty (s : List Char) : empty.longest? s = some 0 :=
  longest?_stop rfl fun _ _ => rfl

theorem derivative_star_char (k : CharClass) (c : Char) :
    (star (char k)).derivative c = if k.contains c then star (char k) else never := by
  rw [derivative, derivative]
  split <;> rfl

/-- Any number of characters of a class, as far as they go. -/
theorem longest?_star_char {k : CharClass} {t : List Char} (ht : ∀ c ∈ t, k.contains c = true)
    (hs : ∀ c, s.head? = some c → k.contains c = false) :
    (star (char k)).longest? (t ++ s) = some t.length := by
  refine longest?_append (fun c hc => ?_) (longest?_stop rfl fun c hc => ?_)
  · rw [derivative_star_char, if_pos (ht c hc)]
  · rw [derivative_star_char, hs c hc]
    rfl

/-- **What is found matches.** -/
theorem matches_of_longest? (h : r.longest? s = some n) :
    n ≤ s.length ∧ Matches r (s.take n) := by
  induction s generalizing r n with
  | nil =>
    rw [longest?] at h
    split at h
    · next hr =>
      cases h
      exact ⟨Nat.le_refl 0, nullable_iff.1 hr⟩
    · cases h
  | cons c s ih =>
    rw [longest?] at h
    split at h
    · cases h
    · split at h
      · next m hm =>
        cases h
        obtain ⟨hle, hmatches⟩ := ih hm
        exact ⟨Nat.succ_le_succ hle, matches_derivative_iff.1 hmatches⟩
      · split at h
        · next hr =>
          cases h
          exact ⟨Nat.zero_le _, nullable_iff.1 hr⟩
        · cases h

/-- Something is found if anything matches, and it is at least as long. -/
theorem le_longest?_of_matches {m : Nat} (hm : m ≤ s.length) (h : Matches r (s.take m)) :
    ∃ n, r.longest? s = some n ∧ m ≤ n := by
  induction s generalizing r m with
  | nil =>
    obtain rfl : m = 0 := Nat.le_zero.1 hm
    rw [longest?, if_pos (nullable_iff.2 h)]
    exact ⟨0, rfl, Nat.le_refl 0⟩
  | cons c s ih =>
    have hne : r ≠ never := by
      rintro rfl
      exact not_matches_never h
    rw [longest?, if_neg hne]
    rcases m with - | m
    · rw [if_pos (nullable_iff.2 h)]
      split
      · exact ⟨_, rfl, Nat.zero_le _⟩
      · exact ⟨0, rfl, Nat.le_refl 0⟩
    · obtain ⟨n, hn, hle⟩ := ih (Nat.le_of_succ_le_succ hm) (matches_derivative_iff.2 h)
      rw [hn]
      exact ⟨n + 1, rfl, Nat.succ_le_succ hle⟩

/-- If no text that goes on after `t` matches, then it does not matter what follows. -/
theorem longest?_append_eq {t : List Char}
    (h : ∀ v, v ≠ [] → v <+: s → ¬ Matches r (t ++ v)) : r.longest? (t ++ s) = r.longest? t := by
  induction t generalizing r with
  | nil =>
    have hzero : ∀ n, r.longest? s = some n → n = 0 := by
      intro n hn
      obtain ⟨hle, hmatches⟩ := matches_of_longest? hn
      rcases Nat.eq_zero_or_pos n with hzero | hpos
      · exact hzero
      · refine absurd hmatches (h (s.take n) (fun hnil => ?_) (s.take_prefix n))
        rcases List.take_eq_nil_iff.1 hnil with rfl | rfl
        · exact Nat.lt_irrefl 0 hpos
        · exact Nat.lt_irrefl 0 (Nat.lt_of_lt_of_le hpos hle)
    rw [List.nil_append, longest?]
    by_cases hr : r.nullable = true
    · obtain ⟨n, hn, -⟩ := le_longest?_of_matches (s := s) (Nat.zero_le _) (nullable_iff.1 hr)
      rw [if_pos hr, hn, hzero n hn]
    · rw [if_neg hr, ← Option.not_isSome_iff_eq_none]
      intro hsome
      obtain ⟨n, hn⟩ := Option.isSome_iff_exists.1 hsome
      have hmatches := (matches_of_longest? hn).2
      rw [hzero n hn] at hmatches
      exact hr (nullable_iff.2 hmatches)
  | cons c t ih =>
    have hrest : (r.derivative c).longest? (t ++ s) = (r.derivative c).longest? t :=
      ih fun v hv hprefix hmatches => h v hv hprefix (matches_derivative_iff.1 hmatches)
    rw [List.cons_append, longest?, longest?, hrest]

end Regex
end RuleAggregate
