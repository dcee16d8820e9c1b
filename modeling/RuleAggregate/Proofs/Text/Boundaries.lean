import Mathlib.Data.List.Basic
import RuleAggregate.Text.Slice

/-!
# Boundaries of characters

A slice of a text exists exactly if it does not run backwards and both of its ends lie between
characters.

## What is here

* `Text.IsBoundary` — an offset between two characters, or at an end of the text.
* `Text.Span.IsRange` — a span that cuts no character and does not run backwards.
* `Text.slice?_eq_some_iff` — what a slice is.
* `Text.exists_slice?_iff` — **when there is a slice.**
-/

set_option autoImplicit false

namespace RuleAggregate
namespace Text

variable {s t u v : List Char} {a b n : Nat}

/-- The offset lies between two characters of the text, or at one of its ends. -/
def IsBoundary (s : List Char) (n : Nat) : Prop := ∃ u v, s = u ++ v ∧ n = byteLength u

/-- The span is one of the text: it does not run backwards, and no character is cut. -/
structure Span.IsRange (s : List Char) (r : Span) : Prop where
  start : IsBoundary s r.start
  stop : IsBoundary s r.stop
  le : r.start ≤ r.stop

theorem isBoundary_append (u v : List Char) : IsBoundary (u ++ v) (byteLength u) :=
  ⟨u, v, rfl, rfl⟩

theorem isBoundary_zero (s : List Char) : IsBoundary s 0 := isBoundary_append [] s

theorem isBoundary_byteLength (s : List Char) : IsBoundary s (byteLength s) :=
  ⟨s, [], (List.append_nil s).symm, rfl⟩

theorem IsBoundary.le_byteLength (h : IsBoundary s n) : n ≤ byteLength s := by
  obtain ⟨u, v, rfl, rfl⟩ := h
  rw [byteLength_append]
  exact Nat.le_add_right _ _

/-- The offsets into a text of less than 2³² bytes fit into 32 bits. -/
theorem IsBoundary.toNat_toUInt32 (h : IsBoundary s n) (hs : byteLength s < UInt32.size) :
    n.toUInt32.toNat = n :=
  UInt32.toNat_ofNat_of_lt' (Nat.lt_of_le_of_lt h.le_byteLength hs)

theorem byteLength_pos (h : s ≠ []) : 0 < byteLength s := by
  obtain ⟨c, s, rfl⟩ := List.exists_cons_of_ne_nil h
  exact Nat.lt_of_lt_of_le c.utf8Size_pos (Nat.le_add_right _ _)

/-! ## Slices -/

theorem dropBytes?_eq_some (h : dropBytes? n s = some v) : ∃ u, s = u ++ v ∧ n = byteLength u := by
  induction s generalizing n with
  | nil =>
    rw [dropBytes?] at h
    split at h
    · next hn =>
      cases h
      exact ⟨[], rfl, hn⟩
    · cases h
  | cons c s ih =>
    rw [dropBytes?] at h
    split at h
    · next hn =>
      cases h
      exact ⟨[], rfl, hn⟩
    · split at h
      · next hle =>
        obtain ⟨u, rfl, hu⟩ := ih h
        exact ⟨c :: u, rfl, by rw [byteLength_cons]; omega⟩
      · cases h

theorem takeBytes?_eq_some (h : takeBytes? n s = some u) : ∃ v, s = u ++ v ∧ n = byteLength u := by
  induction s generalizing n u with
  | nil =>
    rw [takeBytes?] at h
    split at h
    · next hn =>
      cases h
      exact ⟨[], rfl, hn⟩
    · cases h
  | cons c s ih =>
    rw [takeBytes?] at h
    split at h
    · next hn =>
      cases h
      exact ⟨c :: s, rfl, hn⟩
    · split at h
      · next hle =>
        obtain ⟨w, hw, rfl⟩ := Option.map_eq_some_iff.1 h
        obtain ⟨v, rfl, hv⟩ := ih hw
        exact ⟨v, rfl, by rw [byteLength_cons]; omega⟩
      · cases h

/-- **What a slice is.** -/
theorem slice?_eq_some_iff : slice? s a b = some t ↔
    ∃ u v, s = u ++ t ++ v ∧ a = byteLength u ∧ b = byteLength u + byteLength t := by
  constructor
  · intro h
    rw [slice?] at h
    split at h
    · cases h
    · next hle =>
      obtain ⟨w, hdrop, htake⟩ := Option.bind_eq_some_iff.1 h
      obtain ⟨u, rfl, ha⟩ := dropBytes?_eq_some hdrop
      obtain ⟨v, rfl, hb⟩ := takeBytes?_eq_some htake
      exact ⟨u, v, (List.append_assoc u t v).symm, ha, by omega⟩
  · rintro ⟨u, v, rfl, rfl, rfl⟩
    exact slice?_append u t v

/-- **When there is a slice**: it does not run backwards, and no character is cut. -/
theorem exists_slice?_iff {r : Span} : (∃ t, slice? s r.start r.stop = some t) ↔ r.IsRange s := by
  simp only [slice?_eq_some_iff]
  constructor
  · rintro ⟨t, u, v, hs, hstart, hstop⟩
    refine ⟨⟨u, t ++ v, by rw [hs, List.append_assoc], hstart⟩, ⟨u ++ t, v, hs, ?_⟩, by omega⟩
    rw [byteLength_append, hstop]
  · rintro ⟨⟨u, v, rfl, hstart⟩, ⟨w, z, hs, hstop⟩, hle⟩
    rcases List.append_eq_append_iff.1 hs with ⟨t, rfl, rfl⟩ | ⟨t, rfl, rfl⟩
    · exact ⟨t, u, z, (List.append_assoc u t z).symm, hstart, by rw [hstop, byteLength_append]⟩
    · -- the span is empty
      rw [hstart, hstop, byteLength_append] at hle
      obtain rfl : t = [] := by
        by_contra ht
        have := byteLength_pos ht
        omega
      exact ⟨[], w, v, by simp, by rw [hstart, List.append_nil], by rw [hstop]; rfl⟩

theorem isRange_of_slice? {start stop : Nat} (h : slice? s start stop = some t) :
    Span.IsRange s ⟨start, stop⟩ :=
  exists_slice?_iff.1 ⟨t, h⟩

end Text
end RuleAggregate
