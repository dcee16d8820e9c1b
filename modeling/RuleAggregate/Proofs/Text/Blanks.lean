import Mathlib.Data.Bool.AllAny
import Mathlib.Data.List.TakeWhile
import RuleAggregate.Text.Blank

/-!
# Blanks around a text

What is cut off the ends of a text is blank.  There are few blank characters, so what holds of all
of them can be checked one by one.

## What is here

* `Text.blankChars`, `Text.of_isBlank` — the blank characters as a list, and what can be checked for
  each of them.
* `Text.AllBlank`, `Text.StartsBlank` — texts of blanks, and texts that go on with a blank, if they
  go on at all.
* `Text.exists_eq_append_trim` — **what is cut off a text is blank.**
* `Text.trim_blanks` — **blanks around a text are cut off.**
-/

set_option autoImplicit false

namespace RuleAggregate
namespace Text

/-- All blank characters. -/
def blankChars : List Char :=
  blankRanges.flatMap fun r => (List.range' r.1 (r.2 + 1 - r.1)).map Char.ofNat

theorem mem_blankChars {c : Char} (h : isBlank c = true) : c ∈ blankChars := by
  rw [isBlank, List.any_eq_true] at h
  obtain ⟨r, hr, hc⟩ := h
  rw [Bool.and_eq_true, decide_eq_true_eq, decide_eq_true_eq] at hc
  refine List.mem_flatMap.2 ⟨r, hr, List.mem_map.2 ⟨c.toNat, ?_, Char.ofNat_toNat c⟩⟩
  rw [List.mem_range'_1]
  omega

/-- What has been checked for every blank character. -/
theorem of_isBlank {p : Char → Prop} [DecidablePred p]
    (h : (blankChars.all fun c => decide (p c)) = true) : ∀ c, isBlank c = true → p c :=
  fun c hc => List.all_iff_forall_prop.1 h c (mem_blankChars hc)

/-- All characters are blank. -/
def AllBlank (s : List Char) : Prop := ∀ c ∈ s, isBlank c = true

/-- The text is nothing or starts with a blank. -/
def StartsBlank (s : List Char) : Prop := ∀ c, s.head? = some c → isBlank c = true

namespace AllBlank

variable {s t : List Char}

theorem append (hs : AllBlank s) (ht : AllBlank t) : AllBlank (s ++ t) := by
  intro c hc
  rcases List.mem_append.1 hc with hc | hc
  · exact hs c hc
  · exact ht c hc

theorem startsBlank (h : AllBlank s) : StartsBlank s :=
  fun c hc => h c (List.mem_of_mem_head? hc)

end AllBlank

/-- What is cut off a text is blank. -/
theorem exists_eq_append_trim (s : List Char) :
    ∃ b b', s = b ++ trim s ++ b' ∧ AllBlank b ∧ AllBlank b' := by
  have htake : ∀ t : List Char, AllBlank (t.takeWhile isBlank) := fun t c => List.mem_takeWhile_imp
  refine ⟨s.takeWhile isBlank, ((s.dropWhile isBlank).reverse.takeWhile isBlank).reverse, ?_,
    htake s, fun c hc => htake _ c (List.mem_reverse.1 hc)⟩
  rw [trim, List.append_assoc, ← List.reverse_append, List.takeWhile_append_dropWhile,
    List.reverse_reverse, List.takeWhile_append_dropWhile]

/-- The text neither starts nor ends with a blank. -/
structure NoBlankEnds (s : List Char) : Prop where
  front : ∀ c, s.head? = some c → isBlank c = false
  back : ∀ c, s.getLast? = some c → isBlank c = false

/-- A text without blanks does not start or end with one. -/
theorem noBlankEnds_of_forall {s : List Char} (h : ∀ c ∈ s, isBlank c = false) : NoBlankEnds s :=
  ⟨fun c hc => h c (List.mem_of_mem_head? hc), fun c hc => h c (List.mem_of_mem_getLast? hc)⟩

/-- Of a text that does not start with a blank, only the blanks in front of it are dropped. -/
theorem dropWhile_blanks {b s : List Char} (hb : AllBlank b)
    (hs : ∀ c, s.head? = some c → isBlank c = false) : (b ++ s).dropWhile isBlank = s := by
  rw [List.dropWhile_append_of_pos hb]
  cases s with
  | nil => rfl
  | cons c s => rw [List.dropWhile_cons_of_neg (Bool.eq_false_iff.1 (hs c rfl))]

/-- **Blanks around a text are cut off.** -/
theorem trim_blanks {b s b' : List Char} (hb : AllBlank b) (hs : NoBlankEnds s)
    (hb' : AllBlank b') : trim (b ++ s ++ b') = s := by
  rw [trim, List.append_assoc]
  cases s with
  | nil =>
    have hnil := dropWhile_blanks (s := []) (hb.append hb') nofun
    rw [List.append_nil] at hnil
    rw [List.nil_append, hnil]
    rfl
  | cons c s =>
    rw [dropWhile_blanks (s := c :: s ++ b') hb hs.front, List.reverse_append, dropWhile_blanks,
      List.reverse_reverse]
    · exact fun d hd => hb' d (List.mem_reverse.1 hd)
    · intro d hd
      rw [List.head?_reverse] at hd
      exact hs.back d hd

end Text
end RuleAggregate
