import GoRefactor.Text.Span

/-!
# Tokens and comments

What the scanner hands to the parser. Terminators are written as semicolons or inserted at line
breaks; an inserted one covers no text.

Lines are counted without a bound. A counter of 32 bits, as positions have, keeps the same numbers
on every text of fewer than `2 ^ 32 - 1` lines.
-/

namespace GoRefactor

/-- Classes of tokens. -/
inductive TokenKind where
  /-- A name. -/
  | identifier
  /-- A reserved word. -/
  | keyword
  /-- A number, string, raw string or rune. -/
  | literal
  /-- An operator or bracket. -/
  | mark
  /-- A statement's end, written or inserted. -/
  | terminator
  /-- The end of the text. -/
  | finish
deriving DecidableEq, Repr, Inhabited

/-- A token with its place in the text. -/
structure Token where
  /-- Class of the token. -/
  kind : TokenKind
  /-- The characters it covers. -/
  text : String
  /-- Where it stands. -/
  span : Span
  /-- Line on which it starts, counted from one. -/
  line : Nat
deriving DecidableEq, Repr, Inhabited

/-- A comment without its delimiters and the blanks around it. -/
structure Comment where
  /-- The words of the comment. -/
  text : String
  /-- Line on which it starts. -/
  startLine : Nat
  /-- Line on which it ends. -/
  endLine : Nat
deriving DecidableEq, Repr, Inhabited

end GoRefactor
