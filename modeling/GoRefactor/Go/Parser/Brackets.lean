import GoRefactor.Go.Parser.Cursor

/-!
# Matching brackets

The brackets of a file must pair up before anything else is read from it. The check walks the
bracket tokens with the stack of those that are open.
-/

namespace GoRefactor

/-- The three kinds of brackets. -/
inductive Bracket where
  | round
  | square
  | curly
deriving DecidableEq, Repr, Inhabited

namespace Bracket

/-- The opening bracket as written. -/
def opening : Bracket → String
  | .round => "("
  | .square => "["
  | .curly => "\x7b"

/-- The closing bracket as written. -/
def closing : Bracket → String
  | .round => ")"
  | .square => "]"
  | .curly => "\x7d"

/-- All kinds. -/
def all : List Bracket := [.round, .square, .curly]

end Bracket

/-- A bracket token: its kind, whether it opens, and its line. -/
structure BracketToken where
  bracket : Bracket
  opens : Bool
  line : Nat
deriving DecidableEq, Repr, Inhabited

/-- The bracket that a token is, if any. -/
def Token.bracket? (token : Token) : Option BracketToken :=
  if token.kind == .mark then
    match Bracket.all.find? (fun bracket => bracket.opening == token.text) with
    | some bracket => some ⟨bracket, true, token.line⟩
    | none =>
      (Bracket.all.find? fun bracket => bracket.closing == token.text).map fun bracket =>
        ⟨bracket, false, token.line⟩
  else none

/-- How brackets fail to pair up. -/
inductive BracketFlaw where
  /-- A closing bracket that does not close the last open one. -/
  | unexpected (bracket : Bracket)
  /-- An opening bracket that nothing closes. -/
  | unclosed (bracket : Bracket)
deriving DecidableEq, Repr, Inhabited

/-- The first flaw in a list of brackets, with its line; `stack` holds the open ones, the last
one first. -/
def bracketFlaw? (stack : List BracketToken) :
    List BracketToken → Option (Nat × BracketFlaw)
  | [] => stack.head?.map fun token => (token.line, .unclosed token.bracket)
  | token :: rest =>
    if token.opens then bracketFlaw? (token :: stack) rest
    else
      match stack with
      | [] => some (token.line, .unexpected token.bracket)
      | last :: others =>
        if last.bracket = token.bracket then bracketFlaw? others rest
        else some (token.line, .unexpected token.bracket)

end GoRefactor
