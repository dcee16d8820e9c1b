import RuleAggregate.Text.Slice

/-!
# Diagnostics

Whatever is wrong with a rule is reported as a diagnostic against the place where it is written.
Some kinds end the building of the clause, the others do not.

## What is here

* `DiagnosticKind` — the kinds, their severity, wording and default hint.
* `Diagnostic` — one report; `Diagnostic.display` is its text on one line.
-/

set_option autoImplicit false

namespace RuleAggregate

/-- How bad a diagnostic is. -/
inductive Severity where
  | error
  | warning
  deriving DecidableEq, Repr

/-- The word for the severity. -/
def Severity.display : Severity → String
  | error => "error"
  | warning => "warning"

/-- What a diagnostic is about. -/
inductive DiagnosticKind where
  /-- A function is called that nobody registered. -/
  | unknownFunction
  /-- A fragment could not be analyzed. -/
  | analysisFailed
  /-- A unit could not be compiled. -/
  | compileFailed
  /-- A result is bound to a name that is taken. -/
  | duplicateDeclaration
  /-- A function is called with more than one argument. -/
  | ignoredArguments
  deriving DecidableEq, Repr

namespace DiagnosticKind

/-- All kinds. -/
def all : List DiagnosticKind :=
  [unknownFunction, analysisFailed, compileFailed, duplicateDeclaration, ignoredArguments]

/-- Ignored arguments are a warning, everything else is an error. -/
def severity : DiagnosticKind → Severity
  | ignoredArguments => .warning
  | _ => .error

/-- Whether the clause cannot be built. -/
def aborts : DiagnosticKind → Bool
  | unknownFunction | analysisFailed | compileFailed => true
  | _ => false

/-- The hint that goes with every diagnostic of the kind. -/
def hint? : DiagnosticKind → Option String
  | unknownFunction =>
    some "all accumulate functions must be registered before building a resource"
  | duplicateDeclaration =>
    some "the function still runs, but its result cannot be referenced"
  | ignoredArguments => some "only the first argument is accumulated"
  | _ => none

/-- The message without details. -/
def summary : DiagnosticKind → String
  | unknownFunction => "unknown accumulate function"
  | analysisFailed => "accumulate code could not be analyzed"
  | compileFailed => "accumulate code could not be compiled"
  | duplicateDeclaration => "duplicate declaration"
  | ignoredArguments => "extra accumulate function arguments"

/-- What stands before and after the detail in a message. -/
def frame : DiagnosticKind → String × String
  | unknownFunction => ("unknown accumulate function `", "`")
  | duplicateDeclaration => ("duplicate declaration for variable `", "`")
  | ignoredArguments => ("extra arguments to `", "` are ignored")
  | kind => (kind.summary ++ ": ", "")

/-- The message with a detail. -/
def detailed (kind : DiagnosticKind) (detail : String) : String :=
  kind.frame.1 ++ detail ++ kind.frame.2

/-- The message with a pair of braces in place of the detail. -/
def template (kind : DiagnosticKind) : String := kind.detailed "\x7b\x7d"

/-- The message, with a detail if there is one. -/
def message (kind : DiagnosticKind) : Option String → String
  | none => kind.summary
  | some detail => kind.detailed detail

end DiagnosticKind

/-- Something to tell about a rule. -/
structure Diagnostic where
  kind : DiagnosticKind
  /-- The name of the rule. -/
  rule : String
  /-- Where in the rule source. -/
  span : Text.Span
  message : String
  hints : List String
  deriving DecidableEq, Repr

namespace Diagnostic

/-- The diagnostic of a kind, with a detail if there is one, and the default hint of the kind. -/
def of (rule : String) (kind : DiagnosticKind) (span : Text.Span) (detail : Option String) :
    Diagnostic :=
  ⟨kind, rule, span, kind.message detail, kind.hint?.toList⟩

/-- Adds hints after those that are there. -/
def withHints (d : Diagnostic) (hints : List String) : Diagnostic :=
  { d with hints := d.hints ++ hints }

def severity (d : Diagnostic) : Severity := d.kind.severity

def isError (d : Diagnostic) : Bool := d.severity = .error

def isWarning (d : Diagnostic) : Bool := d.severity = .warning

/-- The diagnostic on one line. -/
def display (d : Diagnostic) : String :=
  d.severity.display ++ " in rule `" ++ d.rule ++ s!"` at {d.span.start}..{d.span.stop}: "
    ++ d.message ++ String.join (d.hints.map fun h => " (hint: " ++ h ++ ")")

end Diagnostic
end RuleAggregate
