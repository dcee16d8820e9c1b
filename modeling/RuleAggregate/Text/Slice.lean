/-!
# Slices by byte offset

Offsets into a text count the bytes of its UTF-8 encoding.  A slice exists when both ends lie
between two characters.

## What is here

* `Text.Span` — two byte offsets, and `Text.Span.truncate` what 32 bits hold of them.
* `Text.byteLength` — how many bytes a text takes.
* `Text.dropBytes?`, `Text.takeBytes?`, `Text.slice?` — parts of a text; `none` if an end lies
  inside a character or beyond the text.
* `byteLength_toList`, `slice?_append` — these are the bytes of strings, and slices are the parts
  that they cut out.
-/

set_option autoImplicit false

namespace RuleAggregate
namespace Text

/-- A range of byte offsets, the end excluded. -/
structure Span where
  start : Nat
  stop : Nat
  deriving DecidableEq, Repr, Inhabited

/-- Whether the span holds no byte. -/
def Span.isEmpty (s : Span) : Bool := s.start == s.stop

/-- The span with both offsets in 32 bits. -/
def Span.truncate (s : Span) : Span := ⟨s.start.toUInt32.toNat, s.stop.toUInt32.toNat⟩

theorem Span.truncate_eq {s : Span} (hstart : s.start < UInt32.size)
    (hstop : s.stop < UInt32.size) : s.truncate = s := by
  rw [truncate, UInt32.toNat_ofNat_of_lt' hstart, UInt32.toNat_ofNat_of_lt' hstop]

/-- How many bytes the characters take. -/
def byteLength : List Char → Nat
  | [] => 0
  | c :: s => c.utf8Size + byteLength s

/-- The text after its first `n` bytes. -/
def dropBytes? (n : Nat) : List Char → Option (List Char)
  | [] => if n = 0 then some [] else none
  | c :: s =>
    if n = 0 then some (c :: s)
    else if c.utf8Size ≤ n then dropBytes? (n - c.utf8Size) s
    else none

/-- The first `n` bytes of the text. -/
def takeBytes? (n : Nat) : List Char → Option (List Char)
  | [] => if n = 0 then some [] else none
  | c :: s =>
    if n = 0 then some []
    else if c.utf8Size ≤ n then (takeBytes? (n - c.utf8Size) s).map (c :: ·)
    else none

/-- The text between two byte offsets. -/
def slice? (s : List Char) (start stop : Nat) : Option (List Char) :=
  if stop < start then none
  else (dropBytes? start s).bind (takeBytes? (stop - start))

@[simp] theorem byteLength_nil : byteLength [] = 0 := rfl

@[simp] theorem byteLength_cons (c : Char) (s : List Char) :
    byteLength (c :: s) = c.utf8Size + byteLength s := rfl

@[simp] theorem byteLength_append (s t : List Char) :
    byteLength (s ++ t) = byteLength s + byteLength t := by
  induction s with
  | nil => simp
  | cons c s ih => simp [ih, Nat.add_assoc]

theorem byteLength_ofList (s : List Char) : byteLength s = (String.ofList s).utf8ByteSize := by
  induction s with
  | nil => simp
  | cons c s ih =>
    have hc : (String.ofList [c]).utf8ByteSize = c.utf8Size := by
      rw [← String.singleton_eq_ofList, String.utf8ByteSize_singleton]
    rw [byteLength_cons, ih, ← hc, ← String.utf8ByteSize_append, ← String.ofList_append]
    rfl

/-- The bytes of a string are those of its characters. -/
theorem byteLength_toList (s : String) : byteLength s.toList = s.utf8ByteSize := by
  rw [byteLength_ofList, String.ofList_toList]

theorem dropBytes?_zero (s : List Char) : dropBytes? 0 s = some s := by
  cases s <;> simp [dropBytes?]

theorem takeBytes?_zero (s : List Char) : takeBytes? 0 s = some [] := by
  cases s <;> simp [takeBytes?]

theorem dropBytes?_append (s t : List Char) : dropBytes? (byteLength s) (s ++ t) = some t := by
  induction s with
  | nil => exact dropBytes?_zero t
  | cons c s ih =>
    have : c.utf8Size ≠ 0 := Nat.pos_iff_ne_zero.1 c.utf8Size_pos
    simp [dropBytes?, this, ih]

theorem takeBytes?_append (s t : List Char) : takeBytes? (byteLength s) (s ++ t) = some s := by
  induction s with
  | nil => exact takeBytes?_zero t
  | cons c s ih =>
    have : c.utf8Size ≠ 0 := Nat.pos_iff_ne_zero.1 c.utf8Size_pos
    simp [takeBytes?, this, ih]

theorem slice?_append (s t u : List Char) :
    slice? (s ++ t ++ u) (byteLength s) (byteLength s + byteLength t) = some t := by
  have h : ¬ byteLength s + byteLength t < byteLength s := by omega
  simp [slice?, h, List.append_assoc, dropBytes?_append, takeBytes?_append]

end Text
end RuleAggregate
