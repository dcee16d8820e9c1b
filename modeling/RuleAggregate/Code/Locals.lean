import RuleAggregate.Code.Lexer

/-!
# Local variables of a block

A block may declare local variables: `[final] Type name [= value] (, name [= value])* ;`, where the
type may be qualified, have type arguments, and end in array dimensions.  Declarations are
recognised where a statement starts.

## What is here

* `LocalName`, `Local` — a declared name, and a declaration statement with all its names.
* `Fragment.takeLocal?` — splits a declaration off the front of a token list.
* `Fragment.localsFrom` — all declarations of a block, in source order.
* `Fragment.locals` — the same with their offsets in 32 bits.
-/

set_option autoImplicit false

namespace RuleAggregate

/-- A name that a declaration introduces, with the span of the name and its value. -/
structure LocalName where
  name : String
  span : Text.Span
  deriving DecidableEq, Repr

/-- A declaration of local variables. -/
structure Local where
  /-- The type as written. -/
  typeName : String
  /-- From the start of the type to the end of the last name or its value. -/
  span : Text.Span
  names : List LocalName
  deriving DecidableEq, Repr

/-- The name with its offsets in 32 bits. -/
def LocalName.truncate (n : LocalName) : LocalName := ⟨n.name, n.span.truncate⟩

/-- The declaration with all its offsets in 32 bits. -/
def Local.truncate (l : Local) : Local :=
  ⟨l.typeName, l.span.truncate, l.names.map LocalName.truncate⟩

namespace Fragment

/-- Words that may start a statement but never name a type. -/
def statementWords : List String :=
  ["return", "new", "throw", "else", "case", "do", "if", "for", "while", "switch", "break",
    "continue", "this", "super", "true", "false", "null", "instanceof"]

/-! ## The parts of a declaration -/

/-- Skips a leading `final`. -/
def skipFinal : List Token → List Token
  | t :: ts => if t.kind = .identifier ∧ t.name = "final" then ts else t :: ts
  | [] => []

/-- Skips `.name` as often as possible.  `stop` is where the type ends so far. -/
def skipQualifiers (stop : Nat) : List Token → Nat × List Token
  | t :: u :: ts =>
    if t.kind = .dot ∧ u.kind = .identifier then skipQualifiers u.stop ts
    else (stop, t :: u :: ts)
  | ts => (stop, ts)

/-- Skips type arguments up to the `>` that closes the outermost `<`; `depth` are open. -/
def skipArguments? (depth : Nat) : List Token → Option (Nat × List Token)
  | [] => none
  | t :: ts =>
    match t.kind with
    | .less => skipArguments? (depth + 1) ts
    | .greater => if depth ≤ 1 then some (t.stop, ts) else skipArguments? (depth - 1) ts
    | .identifier | .comma | .dot | .punctuation => skipArguments? depth ts
    | _ => none

/-- Skips type arguments if there are any. -/
def skipGeneric? (stop : Nat) : List Token → Option (Nat × List Token)
  | t :: ts => if t.kind = .less then skipArguments? 1 ts else some (stop, t :: ts)
  | [] => some (stop, [])

/-- Skips `[]` as often as possible. -/
def skipDimensions (stop : Nat) : List Token → Nat × List Token
  | t :: u :: ts =>
    if t.kind = .opener .square ∧ u.kind = .closer .square then skipDimensions u.stop ts
    else (stop, t :: u :: ts)
  | ts => (stop, ts)

/-- Skips a value up to the comma or semicolon after it that stands outside all brackets, of
which `depth` are open. -/
def skipValue (stop depth : Nat) : List Token → Nat × List Token
  | [] => (stop, [])
  | t :: ts =>
    match t.kind with
    | .opener _ => skipValue t.stop (depth + 1) ts
    | .closer _ => skipValue t.stop (depth - 1) ts
    | .comma | .semicolon => if depth = 0 then (stop, t :: ts) else skipValue t.stop depth ts
    | _ => skipValue t.stop depth ts

theorem length_skipFinal_le (ts : List Token) : (skipFinal ts).length ≤ ts.length := by
  cases ts with
  | nil => simp [skipFinal]
  | cons t ts =>
    simp only [skipFinal]
    split <;> simp

theorem length_skipQualifiers_le (stop : Nat) (ts : List Token) :
    (skipQualifiers stop ts).2.length ≤ ts.length := by
  fun_induction skipQualifiers stop ts with
  | case1 stop t u ts h ih => simp; omega
  | case2 => simp
  | case3 => simp

theorem length_skipArguments?_le {depth : Nat} {ts : List Token} {p : Nat × List Token}
    (h : skipArguments? depth ts = some p) : p.2.length < ts.length := by
  fun_induction skipArguments? depth ts with
  | case1 => simp at h
  | case2 depth t ts hk ih => have := ih h; simp; omega
  | case3 depth t ts hk hd => cases h; simp
  | case4 depth t ts hk hd ih => have := ih h; simp; omega
  | case5 depth t ts hk ih => have := ih h; simp; omega
  | case6 depth t ts hk ih => have := ih h; simp; omega
  | case7 depth t ts hk ih => have := ih h; simp; omega
  | case8 depth t ts hk ih => have := ih h; simp; omega
  | case9 => simp at h

theorem length_skipGeneric?_le {stop : Nat} {ts : List Token} {p : Nat × List Token}
    (h : skipGeneric? stop ts = some p) : p.2.length ≤ ts.length := by
  cases ts with
  | nil => cases h; simp
  | cons t ts =>
    simp only [skipGeneric?] at h
    split at h
    · have := length_skipArguments?_le h
      simp; omega
    · cases h; simp

theorem length_skipDimensions_le (stop : Nat) (ts : List Token) :
    (skipDimensions stop ts).2.length ≤ ts.length := by
  fun_induction skipDimensions stop ts with
  | case1 stop t u ts h ih => simp; omega
  | case2 => simp
  | case3 => simp

theorem length_skipValue_le (stop depth : Nat) (ts : List Token) :
    (skipValue stop depth ts).2.length ≤ ts.length := by
  induction ts generalizing stop depth with
  | nil => simp [skipValue]
  | cons t ts ih =>
    have h₁ := ih t.stop (depth + 1)
    have h₂ := ih t.stop (depth - 1)
    have h₃ := ih t.stop depth
    simp only [skipValue, List.length_cons]
    repeat' split
    all_goals first | omega | simp

/-- The value of a declared name, if there is one, up to what follows it.  Fails if anything but
a value, a comma, a semicolon or the end follows the name. -/
def takeValue? (stop : Nat) : List Token → Option (Nat × List Token)
  | [] => some (stop, [])
  | t :: ts =>
    match t.kind with
    | .assign => some (skipValue stop 0 ts)
    | .comma | .semicolon => some (stop, t :: ts)
    | _ => none

theorem length_takeValue?_le {stop : Nat} {ts : List Token} {p : Nat × List Token}
    (h : takeValue? stop ts = some p) : p.2.length ≤ ts.length := by
  cases ts with
  | nil => cases h; simp
  | cons t ts =>
    simp only [takeValue?] at h
    split at h
    · cases h
      have := length_skipValue_le stop 0 ts
      simp; omega
    · cases h; simp
    · cases h; simp
    · cases h

/-- The names of a declaration with their values, and the tokens after its semicolon. -/
def takeNames? : List Token → Option (List LocalName × List Token)
  | [] => none
  | t :: ts =>
    if t.kind = .identifier then
      match _taken : takeValue? t.stop ts with
      | none => none
      | some (stop, rest) =>
        let n : LocalName := ⟨t.name, ⟨t.start, stop⟩⟩
        match rest with
        | [] => some ([n], [])
        | u :: us =>
          if u.kind = .comma then (takeNames? us).map fun (ns, r) => (n :: ns, r)
          else some ([n], if u.kind = .semicolon then us else u :: us)
    else none
termination_by ts => ts.length
decreasing_by
  have := length_takeValue?_le _taken
  simp at this ⊢
  omega

theorem length_takeNames?_lt {ts : List Token} {p : List LocalName × List Token}
    (h : takeNames? ts = some p) : p.2.length < ts.length := by
  fun_induction takeNames? ts generalizing p with
  | case1 => simp at h
  | case2 => simp at h
  | case3 => cases h; simp
  | case4 t ts ht stop n u us hv hu =>
    rename_i ih
    obtain ⟨q, hq, rfl⟩ := Option.map_eq_some_iff.1 h
    have h₁ := length_takeValue?_le hv
    have h₂ := ih hq
    simp only [List.length_cons] at h₁ ⊢
    omega
  | case5 t ts ht stop n u us hv hu =>
    cases h
    have h₁ := length_takeValue?_le hv
    simp only [List.length_cons] at h₁
    dsimp only
    split <;> simp only [List.length_cons] <;> omega
  | case6 => simp at h

/-! ## Declarations -/

/-- Splits a declaration off the front of a token list.  `code` is the text that the tokens were
taken from. -/
def takeLocal? (code : List Char) (ts : List Token) : Option (Local × List Token) :=
  match skipFinal ts with
  | [] => none
  | t :: rest =>
    if t.kind = .identifier ∧ t.name ∉ statementWords then
      let (stop, rest) := skipQualifiers t.stop rest
      (skipGeneric? stop rest).bind fun (stop, rest) =>
        let (stop, rest) := skipDimensions stop rest
        (takeNames? rest).map fun (names, rest) =>
          let typeName := (Text.slice? code t.start stop).getD []
          let last := (names.getLast?.map (·.span.stop)).getD stop
          (⟨String.ofList typeName, ⟨t.start, last⟩, names⟩, rest)
    else none

theorem length_takeLocal?_lt {code : List Char} {ts : List Token} {p : Local × List Token}
    (h : takeLocal? code ts = some p) : p.2.length < ts.length := by
  have hf := length_skipFinal_le ts
  unfold takeLocal? at h
  split at h
  · simp at h
  · next t rest heq =>
    rw [heq] at hf
    split at h
    · have hq := length_skipQualifiers_le t.stop rest
      obtain ⟨⟨stop₂, rest₂⟩, hg, h⟩ := Option.bind_eq_some_iff.1 h
      have hg := length_skipGeneric?_le hg
      have hd := length_skipDimensions_le stop₂ rest₂
      obtain ⟨⟨names, rest₃⟩, hn, rfl⟩ := Option.map_eq_some_iff.1 h
      have hn := length_takeNames?_lt hn
      simp only [List.length_cons] at hf ⊢
      simp only at hg hd hn ⊢
      omega
    · simp at h

/-- The declarations of a block, in source order.  `fresh` says whether a statement may start at
the first token. -/
def localsFrom (code : List Char) (fresh : Bool) : List Token → List Local
  | [] => []
  | t :: ts =>
    match _taken : if fresh then takeLocal? code (t :: ts) else none with
    | some (l, rest) => l :: localsFrom code true rest
    | none => localsFrom code t.kind.opensStatement ts
termination_by ts => ts.length
decreasing_by
  · split at _taken
    · exact length_takeLocal?_lt _taken
    · simp at _taken
  · simp

/-- The declarations of a block, in source order, with their offsets in 32 bits.  In a code of
less than 2³² bytes these are the offsets themselves.  In a longer one a span may run backwards;
the analysis then ends without a result, whereas here the span is kept for `hoist?` to refuse. -/
def locals (code : List Char) (ts : List Token) : List Local :=
  (localsFrom code true ts).map Local.truncate

end Fragment
end RuleAggregate
