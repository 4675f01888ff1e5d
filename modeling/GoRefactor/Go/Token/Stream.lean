import GoRefactor.Go.Token.Lexeme
import GoRefactor.Text.Blank

/-!
# The token stream of a text

Lexemes are laid out from the start of the text: blanks and comments only move the offset and the
line, the others become tokens. A terminator is inserted at a line break, or at the end of the
text, when the last token can end a statement.
-/

namespace GoRefactor

/-- Keywords that can end a statement. -/
def closingKeywords : List String := ["break", "continue", "fallthrough", "return"]

/-- Operators and brackets that can end a statement. -/
def closingMarks : List String := [")", "]", "\x7d", "++", "--"]

/-- A line break after the token ends the statement. -/
def Token.closes (token : Token) : Bool :=
  match token.kind with
  | .identifier => true
  | .literal => true
  | .keyword => closingKeywords.contains token.text
  | .mark => closingMarks.contains token.text
  | .terminator => false
  | .finish => false

namespace Lexeme

/-- The token a lexeme stands for, if any. -/
def token? (offset line : Nat) (lexeme : Lexeme) : Option Token :=
  let make (kind : TokenKind) (text : List Char) : Option Token :=
    some ⟨kind, String.ofList text, ⟨offset, offset + byteLength text⟩, line⟩
  match lexeme with
  | .word text =>
    make (if isKeyword (String.ofList text) then .keyword else .identifier) text
  | .number text => make .literal text
  | .quoted text => make .literal text
  | .raw text => make .literal text
  | .semicolon => make .terminator [';']
  | .mark text => make .mark text
  | _ => none

/-- The lexeme makes the statement before it end, when that can end. -/
def breaksLine : Lexeme → Bool
  | .newline => true
  | .blockComment body => lineBreaks body != 0
  | _ => false

/-- The terminator inserted at an offset, when the statement before can end. -/
def inserted (closable : Bool) (offset line : Nat) : List Token :=
  if closable then [⟨.terminator, "", Span.point offset, line⟩] else []

/-- Lay out tokens from an offset and a line; `closable` tells that the last token can end a
statement. The end of the text is a token of its own. -/
def tokensFrom (offset line : Nat) (closable : Bool) : List Lexeme → List Token
  | [] => inserted closable offset line ++ [⟨.finish, "", Span.point offset, line⟩]
  | lexeme :: rest =>
    let offset' := offset + byteLength lexeme.text
    let line' := line + lexeme.lines
    match lexeme.token? offset line with
    | some token => token :: tokensFrom offset' line' token.closes rest
    | none =>
      if lexeme.breaksLine then
        inserted closable offset line ++ tokensFrom offset' line' false rest
      else tokensFrom offset' line' closable rest

/-- Lay out comments from a line. -/
def commentsFrom (line : Nat) : List Lexeme → List Comment
  | [] => []
  | lexeme :: rest =>
    let following := commentsFrom (line + lexeme.lines) rest
    match lexeme with
    | .lineComment body => ⟨String.ofList (Blank.trim body), line, line⟩ :: following
    | .blockComment body =>
      ⟨String.ofList (Blank.trim body), line, line + lineBreaks body⟩ :: following
    | _ => following

end Lexeme

/-- The tokens and comments of a text. -/
structure TokenStream where
  /-- Tokens in order, the last one marking the end of the text. -/
  tokens : List Token
  /-- Comments in order. -/
  comments : List Comment
deriving DecidableEq, Repr, Inhabited

/-- Scan a text into tokens and comments, or report the line of the first flaw. -/
def TokenStream.ofChars? (content : List Char) :
    Except (Nat × LexemeFlaw) TokenStream :=
  match Lexeme.split 1 content with
  | .error failure => .error failure
  | .ok lexemes => .ok ⟨Lexeme.tokensFrom 0 1 false lexemes, Lexeme.commentsFrom 1 lexemes⟩

end GoRefactor
