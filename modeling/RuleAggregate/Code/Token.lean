import RuleAggregate.Text.Regex
import RuleAggregate.Text.Slice

/-!
# Tokens of code fragments

Fragments are written in the usual notation of curly-brace languages.  Each kind of token is
described by one regular expression.

## What is here

* `Bracket`, `TokenKind` — the kinds of token, blanks and comments among them.
* `TokenKind.shape` — the regular expression of a kind.
* `Token` — a kind, the byte offset where it starts, and its text.
-/

set_option autoImplicit false

namespace RuleAggregate

/-- The three pairs of delimiters. -/
inductive Bracket where
  | round
  | square
  | curly
  deriving DecidableEq, Repr

namespace Bracket

/-- The delimiter that opens. -/
def opening : Bracket → Char
  | round => '('
  | square => '['
  | curly => '{'

/-- The delimiter that closes. -/
def closing : Bracket → Char
  | round => ')'
  | square => ']'
  | curly => '}'

end Bracket

/-- The kinds of token. -/
inductive TokenKind where
  | blank
  | identifier
  | number
  | quoted
  | lineComment
  | blockComment
  | dot
  | comma
  | semicolon
  | assign
  | opener (b : Bracket)
  | closer (b : Bracket)
  | less
  | greater
  /-- Operators of two characters. -/
  | operator
  /-- Single characters that are not listed above. -/
  | punctuation
  deriving DecidableEq, Repr

namespace TokenKind

/-- All kinds. -/
def all : List TokenKind :=
  [blank, identifier, number, quoted, lineComment, blockComment, dot, comma, semicolon, assign,
    opener .round, closer .round, opener .square, closer .square, opener .curly, closer .curly,
    less, greater, operator, punctuation]

/-- One of the digits. -/
def digit : Regex := .char ⟨false, [('0', '9')]⟩

/-- Between two of the given quotes: characters other than the quote and the backslash, and pairs
of a backslash and any character that does not end the line. -/
def quotedBy (q : Char) : Regex :=
  .sequence [.char (.single q),
    .star (.orElse (.char ⟨true, [(q, q), ('\\', '\\')]⟩)
      (.andThen (.char (.single '\\')) (.char (.except "\n")))),
    .char (.single q)]

/-- The texts of a kind. -/
def shape : TokenKind → Regex
  | blank => .plus (.char (.ofString " \t\n\r\x0c"))
  | identifier =>
    .andThen (.char ⟨false, [('A', 'Z'), ('a', 'z'), ('_', '_'), ('$', '$')]⟩)
      (.star (.char ⟨false, [('A', 'Z'), ('a', 'z'), ('0', '9'), ('_', '_'), ('$', '$')]⟩))
  | number =>
    .sequence [digit, .star (.char ⟨false, [('0', '9'), ('_', '_')]⟩),
      .optional (.andThen (.char (.single '.')) (.plus digit)),
      .optional (.sequence [.char (.ofString "eE"), .optional (.char (.ofString "+-")),
        .plus digit]),
      .optional (.char (.ofString "lLdDfF"))]
  | quoted => .orElse (quotedBy '"') (quotedBy '\'')
  | lineComment => .andThen (.literal "//") (.star (.char (.except "\n")))
  | blockComment =>
    .sequence [.literal "/*",
      .star (.orElse (.char (.except "*"))
        (.andThen (.char (.single '*')) (.char (.except "/")))),
      .literal "*/"]
  | dot => .literal "."
  | comma => .literal ","
  | semicolon => .literal ";"
  | assign => .literal "="
  | opener b => .char (.single b.opening)
  | closer b => .char (.single b.closing)
  | less => .literal "<"
  | greater => .literal ">"
  | operator =>
    .choice (["==", "!=", "<=", ">=", "+=", "-=", "*=", "/=", "&&", "||", "++", "--", "->"].map
      .literal)
  | punctuation => .char (.ofString "-+*/%!&|^?:~@#")

/-- Blanks and comments carry no meaning. -/
def isTrivia : TokenKind → Bool
  | blank | lineComment | blockComment => true
  | _ => false

/-- Whether a statement may start after a token of the kind. -/
def opensStatement : TokenKind → Bool
  | semicolon | opener .curly | closer .curly => true
  | _ => false

end TokenKind

/-- A token of a fragment. -/
structure Token where
  kind : TokenKind
  /-- The byte offset of its first character. -/
  start : Nat
  text : List Char
  deriving DecidableEq, Repr

namespace Token

/-- The byte offset after its last character. -/
def stop (t : Token) : Nat := t.start + Text.byteLength t.text

/-- The text of the token as a string. -/
def name (t : Token) : String := String.ofList t.text

end Token
end RuleAggregate
