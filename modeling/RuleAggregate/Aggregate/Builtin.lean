import RuleAggregate.Aggregate.Function
import RuleAggregate.Value.Display

/-!
# The built-in aggregate functions

Functions on numbers widen integers to floating-point numbers and skip `null`.  Counting and
collecting take every value, `null` included.

## What is here

* `State` — the states of the built-in functions.
* `AggregateFunction.count`, `sum`, `average`, `min`, `max`, `collectList`, `collectSet`.
* `AggregateFunction.builtins` — all of them, in the order in which they are registered.
-/

set_option autoImplicit false

namespace RuleAggregate

/-- A state of some built-in function. -/
inductive State where
  /-- How many values were folded in. -/
  | tally (n : Int64)
  /-- Their sum. -/
  | total (x : Float)
  /-- Their sum and how many there are. -/
  | mean (total : Float) (count : Nat)
  /-- The best value so far; `null` if there is none yet. -/
  | best (v : Value)
  /-- The values themselves, in the order in which they arrived. -/
  | items (values : List Value)
  /-- The distinct values in the order in which they first arrived, with how often they did. -/
  | tallies (entries : List (Value × Nat))
  deriving Inhabited

/-! ## Counted values -/

/-- Counts one more occurrence of a value. -/
def addOccurrence (v : Value) : List (Value × Nat) → List (Value × Nat)
  | [] => [(v, 1)]
  | (w, n) :: es => if w.eq v then (w, n + 1) :: es else (w, n) :: addOccurrence v es

/-- Counts one occurrence of a value less, and drops the value after the last one.  Fails if the
value does not occur. -/
def removeOccurrence? (v : Value) : List (Value × Nat) → Option (List (Value × Nat))
  | [] => none
  | (w, n) :: es =>
    if w.eq v then some (if n ≤ 1 then es else (w, n - 1) :: es)
    else (removeOccurrence? v es).map ((w, n) :: ·)

namespace AggregateFunction

/-! ## States and numbers -/

/-- The outcome of handing a function the state of another function. -/
def mismatch (function : String) (s : State) : Outcome State FunctionError :=
  .failed s (.stateMismatch function)

/-- The number in a value.  There is none in `null`; any other value is an error. -/
def numeric (function : String) (v : Value) : Except FunctionError (Option Float) :=
  if v.isNull then .ok none
  else match v.number? with
    | some x => .ok (some x)
    | none => .error (.notNumeric function v.valueType)

/-- A step of a function on numbers: skips `null` and fails on what is no number. -/
def onNumber (function : String) (step : State → Float → Outcome State FunctionError) (s : State)
    (v : Value) : Outcome State FunctionError :=
  match numeric function v with
  | .error e => .failed s e
  | .ok none => .success s
  | .ok (some x) => step s x

/-! ## Counting and adding up -/

/-- How many values there are. -/
def count : AggregateFunction State where
  name := "count"
  resultType := .integer
  init := .tally 0
  accumulate s _ := match s with
    | .tally n => .success (.tally (n + 1))
    | s => mismatch "count" s
  reverse s _ := match s with
    | .tally n => .success (.tally (n - 1))
    | s => mismatch "count" s
  result s := match s with
    | .tally n => .ok (.int n)
    | _ => .error (.stateMismatch "count")
  supportsReverse := true

/-- The sum of the numbers; zero if there are none. -/
def sum : AggregateFunction State where
  name := "sum"
  resultType := .numeric
  init := .total 0.0
  accumulate := onNumber "sum" fun s x => match s with
    | .total t => .success (.total (t + x))
    | s => mismatch "sum" s
  reverse := onNumber "sum" fun s x => match s with
    | .total t => .success (.total (t - x))
    | s => mismatch "sum" s
  result s := match s with
    | .total t => .ok (.float t)
    | _ => .error (.stateMismatch "sum")
  supportsReverse := true

/-- The arithmetic mean of the numbers; zero if there are none. -/
def average : AggregateFunction State where
  name := "average"
  resultType := .numeric
  init := .mean 0.0 0
  accumulate := onNumber "average" fun s x => match s with
    | .mean t n => .success (.mean (t + x) (n + 1))
    | s => mismatch "average" s
  reverse := onNumber "average" fun s x => match s with
    | .mean t n => .success (.mean (t - x) (n - 1))
    | s => mismatch "average" s
  result s := match s with
    | .mean t n => .ok (.float (if n = 0 then 0.0 else t / (UInt64.ofNat n).toFloat))
    | _ => .error (.stateMismatch "average")
  supportsReverse := true

/-! ## Extreme values -/

/-- The number that compares as `keep` to every other one, as it was written; `null` if there are
none.  It cannot be taken back: which number comes next is not in the state. -/
def extremum (name : String) (keep : Ordering) : AggregateFunction State where
  name := name
  resultType := .numeric
  init := .best .null
  accumulate s v := onNumber name (fun s _ => match s with
    | .best b =>
      .success (.best (if b.isNull || v.compare? b == some keep then v else b))
    | s => mismatch name s) s v
  reverse s _ := .failed s (.reverseUnsupported name)
  result s := match s with
    | .best b => .ok b
    | _ => .error (.stateMismatch name)
  supportsReverse := false

/-- The smallest number. -/
def min : AggregateFunction State := extremum "min" .lt

/-- The largest number. -/
def max : AggregateFunction State := extremum "max" .gt

/-! ## Collecting -/

/-- All values, in the order in which they arrived. -/
def collectList : AggregateFunction State where
  name := "collectList"
  resultType := .list
  init := .items []
  accumulate s v := match s with
    | .items vs => .success (.items (vs ++ [v]))
    | s => mismatch "collectList" s
  reverse s v := match s with
    | .items vs =>
      if vs.any (·.eq v) then .success (.items (vs.eraseP (·.eq v)))
      else .failed s (.notAccumulated "collectList" v.display)
    | s => mismatch "collectList" s
  result s := match s with
    | .items vs => .ok (.list vs)
    | _ => .error (.stateMismatch "collectList")
  supportsReverse := true

/-- The distinct values, in the order in which they first arrived.  Taking back one of several
equal values keeps it. -/
def collectSet : AggregateFunction State where
  name := "collectSet"
  resultType := .list
  init := .tallies []
  accumulate s v := match s with
    | .tallies es => .success (.tallies (addOccurrence v es))
    | s => mismatch "collectSet" s
  reverse s v := match s with
    | .tallies es =>
      match removeOccurrence? v es with
      | some es => .success (.tallies es)
      | none => .failed s (.notAccumulated "collectSet" v.display)
    | s => mismatch "collectSet" s
  result s := match s with
    | .tallies es => .ok (.list (es.map Prod.fst))
    | _ => .error (.stateMismatch "collectSet")
  supportsReverse := true

/-- All built-in functions, in the order in which they are registered. -/
def builtins : List (AggregateFunction State) :=
  [count, sum, average, min, max, collectList, collectSet]

end AggregateFunction
end RuleAggregate
