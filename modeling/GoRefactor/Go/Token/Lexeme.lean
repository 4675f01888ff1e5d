import GoRefactor.Go.Identifier
import GoRefactor.Go.Token

/-!
# Lexemes

The text of a file is cut into lexemes that follow each other without gaps: blanks, line breaks,
comments, characters that mean nothing, and the texts of tokens. Each cut looks only at what is
left of the text, so the lexemes of a text, written one after the other, are the text.
-/

namespace GoRefactor

/-- A piece of source text. -/
inductive Lexeme where
  /-- A space, tab, form feed or carriage return. -/
  | blank (c : Char)
  /-- A line break. -/
  | newline
  /-- A comment up to the end of its line; the text past the two slashes. -/
  | lineComment (body : List Char)
  /-- A delimited comment; the text between the delimiters. -/
  | blockComment (body : List Char)
  /-- A character outside ASCII that belongs to no name. -/
  | foreign (c : Char)
  /-- A name or keyword. -/
  | word (text : List Char)
  /-- A number. -/
  | number (text : List Char)
  /-- A string or rune with its quotes. -/
  | quoted (text : List Char)
  /-- A raw string with its quotes. -/
  | raw (text : List Char)
  /-- A semicolon. -/
  | semicolon
  /-- An operator or bracket. -/
  | mark (text : List Char)
deriving DecidableEq, Repr, Inhabited

/-- Why a text cannot be cut into lexemes. -/
inductive LexemeFlaw where
  | openComment
  | openLiteral
  | openRawString
deriving DecidableEq, Repr, Inhabited

namespace Lexeme

/-- The characters a lexeme covers. -/
def text : Lexeme → List Char
  | .blank c => [c]
  | .newline => ['\n']
  | .lineComment body => '/' :: '/' :: body
  | .blockComment body => '/' :: '*' :: body ++ ['*', '/']
  | .foreign c => [c]
  | .word text => text
  | .number text => text
  | .quoted text => text
  | .raw text => text
  | .semicolon => [';']
  | .mark text => text

/-- Line breaks in a list of characters. -/
def lineBreaks (cs : List Char) : Nat := cs.count '\n'

/-- How far a lexeme moves the line count. An escaped line break in a string is not counted. -/
def lines : Lexeme → Nat
  | .newline => 1
  | .blockComment body => lineBreaks body
  | .raw text => lineBreaks text
  | _ => 0

/-- Blanks between tokens, line breaks apart. -/
def isSpace (c : Char) : Bool := c == ' ' || c == '\t' || c == '\x0c' || c == '\r'

/-- The text of a delimited comment up to its closing delimiter. -/
def commentBody? : List Char → Option (List Char)
  | [] => none
  | '*' :: '/' :: _ => some []
  | c :: cs => (commentBody? cs).map (c :: ·)

/-- The text of a string or rune past its opening quote, closing quote included. -/
def quotedBody? (quote : Char) : List Char → Option (List Char)
  | [] => none
  | '\\' :: c :: cs => (quotedBody? quote cs).map fun body => '\\' :: c :: body
  | c :: cs =>
    if c == '\n' || c == '\\' then none
    else if c == quote then some [c]
    else (quotedBody? quote cs).map (c :: ·)

/-- The text of a raw string past its opening quote, closing quote included. -/
def rawBody? : List Char → Option (List Char)
  | [] => none
  | c :: cs => if c == '\x60' then some [c] else (rawBody? cs).map (c :: ·)

/-- ASCII letters and digits. -/
def isAsciiAlphanumeric (c : Char) : Bool := c.isAlphanum

/-- The marks after which a sign belongs to a number's exponent. -/
def isExponentMark (c : Char) : Bool := c == 'e' || c == 'E' || c == 'p' || c == 'P'

/-- The further characters of a number after `last`. Signs belong to it after an exponent mark,
unless the number is hexadecimal. -/
def numberTail (hexadecimal : Bool) (last : Char) : List Char → List Char
  | [] => []
  | c :: cs =>
    let sign := (c == '+' || c == '-') && isExponentMark last && !hexadecimal
    if isAsciiAlphanumeric c || c == '.' || c == '_' || sign then c :: numberTail hexadecimal c cs
    else []

/-- Operators of three characters. -/
def longMarks : List (List Char) :=
  [['<', '<', '='], ['>', '>', '='], ['&', '^', '='], ['.', '.', '.'], ['&', '&', '='],
    ['|', '|', '=']]

/-- Operators of two characters. -/
def pairMarks : List (List Char) :=
  [[':', '='], ['=', '='], ['!', '='], ['<', '='], ['>', '='], ['&', '&'], ['|', '|'],
    ['<', '-'], ['+', '+'], ['-', '-'], ['+', '='], ['-', '='], ['*', '='], ['/', '='],
    ['%', '='], ['&', '='], ['|', '='], ['^', '='], ['<', '<'], ['>', '>'], ['&', '^']]

/-- The longest operator in front of a text, or its first character. -/
def markText (c : Char) (cs : List Char) : List Char :=
  match (longMarks ++ pairMarks).find? (fun known => known.isPrefixOf (c :: cs)) with
  | some known => known
  | none => [c]

/-- The text starts as a hexadecimal number. -/
def isHexadecimal (c : Char) (cs : List Char) : Bool := ['0', 'x'].isPrefixOf (c :: cs)

/-- A number starts here: a digit, or a point before a digit. -/
def startsNumber (c : Char) (cs : List Char) : Bool :=
  c.isDigit || (c == '.' && (cs.head?.any Char.isDigit))

/-- The lexeme in front of the non-empty text `c :: cs`. -/
def next (c : Char) (cs : List Char) : Except LexemeFlaw Lexeme :=
  if c == '\n' then .ok .newline
  else if isSpace c then .ok (.blank c)
  else if c == '/' && cs.head? == some '/' then
    .ok (.lineComment (cs.tail.takeWhile (· != '\n')))
  else if c == '/' && cs.head? == some '*' then
    match commentBody? cs.tail with
    | some body => .ok (.blockComment body)
    | none => .error .openComment
  else if c == '_' || c.isAlpha || 128 ≤ c.toNat then
    if isNameChar c then .ok (.word (c :: cs.takeWhile isNameChar)) else .ok (.foreign c)
  else if startsNumber c cs then .ok (.number (c :: numberTail (isHexadecimal c cs) c cs))
  else if c == '"' || c == '\x27' then
    match quotedBody? c cs with
    | some body => .ok (.quoted (c :: body))
    | none => .error .openLiteral
  else if c == '\x60' then
    match rawBody? cs with
    | some body => .ok (.raw (c :: body))
    | none => .error .openRawString
  else if c == ';' then .ok .semicolon
  else .ok (.mark (markText c cs))

/-- Cut a text that begins on line `line` into lexemes, or report the line of the first flaw. -/
def split (line : Nat) : List Char → Except (Nat × LexemeFlaw) (List Lexeme)
  | [] => .ok []
  | c :: cs =>
    match next c cs with
    | .error flaw => .error (line, flaw)
    | .ok lexeme =>
      match split (line + lexeme.lines) (cs.drop (lexeme.text.length - 1)) with
      | .error failure => .error failure
      | .ok rest => .ok (lexeme :: rest)
termination_by cs => cs.length
decreasing_by
  simp only [List.length_drop, List.length_cons]
  omega

end Lexeme

end GoRefactor
