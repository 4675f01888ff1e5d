import GoRefactor.Go.Token.Stream

/-!
# Reading tokens

A cursor is a place in a token stream: the tokens ahead, how many were taken, and where the last
one ended. Looking past the end always finds the token that marks it, which is never taken.
-/

namespace GoRefactor

/-- A place in a token stream. -/
structure Cursor where
  /-- Tokens ahead, without the one that marks the end. -/
  ahead : List Token
  /-- The token that marks the end. -/
  finish : Token
  /-- Number of tokens taken. -/
  taken : Nat
  /-- Where the last taken token ends, terminators apart. -/
  lastEnd : Nat
  /-- Comments on lines without code, the last one first. -/
  notes : List Comment
deriving DecidableEq, Repr, Inhabited

/-- The token is the keyword or mark with this text. -/
def Token.is (token : Token) (text : String) : Bool :=
  (token.kind == .keyword || token.kind == .mark) && token.text == text

/-- The token opens a bracket. -/
def Token.opensGroup (token : Token) : Bool :=
  token.kind == .mark && (token.text == "(" || token.text == "[" || token.text == "\x7b")

/-- The token closes a bracket. -/
def Token.closesGroup (token : Token) : Bool :=
  token.kind == .mark && (token.text == ")" || token.text == "]" || token.text == "\x7d")

/-- The token ends a statement or the text. -/
def Token.isTerminator (token : Token) : Bool := token.kind == .terminator

/-- Number of tokens up to the end of the bracketed group in which `depth` brackets are open. -/
def groupLength (depth : Nat) : List Token → Nat
  | [] => 0
  | token :: rest =>
    let depth' :=
      if token.opensGroup then depth + 1 else if token.closesGroup then depth - 1 else depth
    if depth' == 0 then 1 else 1 + groupLength depth' rest

/-- Number of tokens before the terminator of a statement, groups taken as a whole. -/
def statementLength : Nat → List Token → Nat
  | _, [] => 0
  | 0, token :: rest =>
    if token.isTerminator then 0
    else 1 + statementLength (if token.opensGroup then 1 else 0) rest
  | depth + 1, token :: rest =>
    1 + statementLength
      (if token.opensGroup then depth + 2 else if token.closesGroup then depth else depth + 1) rest

/-- The names in front, separated by commas, and the number of tokens they take. -/
def nameRun : List Token → List Token × Nat
  | [] => ([], 0)
  | token :: rest =>
    if token.kind == .identifier then
      match rest with
      | [] => ([token], 1)
      | comma :: more =>
        if comma.is "," then
          let (names, count) := nameRun more
          (token :: names, count + 2)
        else ([token], 1)
    else ([], 0)

/-- The names behind commas, and the number of tokens they take; a comma without a name is
passed over. -/
def furtherNames : List Token → List Token × Nat
  | [] => ([], 0)
  | comma :: rest =>
    if comma.is "," then
      match rest with
      | [] => ([], 1)
      | token :: more =>
        if token.kind == .identifier then
          let (names, count) := furtherNames more
          (token :: names, count + 2)
        else
          let (names, count) := furtherNames (token :: more)
          (names, count + 1)
    else ([], 0)

/-- Texts of the comments that stand directly above line `expected + 1`, nearest first. -/
def adjacentNotes (expected : Nat) : List Comment → List String
  | [] => []
  | comment :: rest =>
    if comment.endLine == expected then comment.text :: adjacentNotes (comment.startLine - 1) rest
    else []

/-- Doc comment of what starts on `line`: the comments on the lines just above it. -/
def docAbove (notes : List Comment) (line : Nat) : Option String :=
  match adjacentNotes (line - 1) (notes.filter fun comment => comment.endLine < line) with
  | [] => none
  | texts => some ("\n".intercalate texts.reverse)

namespace Cursor

/-- Comments that share no line with code, the last one first. -/
def loneComments (stream : TokenStream) : List Comment :=
  let code := (stream.tokens.filter fun token =>
    token.kind != .terminator && token.kind != .finish).map (·.line)
  (stream.comments.filter fun comment => !code.contains comment.startLine).reverse

/-- The cursor at the start of a stream. -/
def start (stream : TokenStream) : Cursor where
  ahead := stream.tokens.dropLast
  finish := stream.tokens.getLastD default
  taken := 0
  lastEnd := 0
  notes := loneComments stream

/-- The token `count` places ahead. -/
def peekAt (cursor : Cursor) (count : Nat) : Token := cursor.ahead[count]?.getD cursor.finish

/-- The cursor past the next token. -/
def advance (cursor : Cursor) : Cursor :=
  match cursor.ahead with
  | [] => cursor
  | token :: rest =>
    { cursor with
      ahead := rest
      taken := cursor.taken + 1
      lastEnd := if token.isTerminator then cursor.lastEnd else token.span.stop }

/-- The cursor past the next `count` tokens. -/
def advanceBy : Nat → Cursor → Cursor
  | 0, cursor => cursor
  | count + 1, cursor => advanceBy count cursor.advance

/-- Moving on twice is moving on by the sum. -/
theorem advanceBy_add (first second : Nat) (cursor : Cursor) :
    cursor.advanceBy (first + second) = (cursor.advanceBy first).advanceBy second := by
  induction first generalizing cursor with
  | zero => rw [Nat.zero_add, advanceBy]
  | succ first ih => rw [Nat.succ_add, advanceBy, ih, advanceBy]

end Cursor

/-- A computation that reads tokens. It gives a value and the place where it stops, and all that
it does to the place is to move on. -/
structure Parse (α : Type) where
  /-- Value and place at the end, from the place at the start. -/
  run : Cursor → α × Cursor
  /-- The computation only takes tokens. -/
  advances : ∀ cursor, ∃ count, (run cursor).2 = cursor.advanceBy count

namespace Parse

/-- Give a value and pass over some tokens, both found from the place. -/
def step {α : Type} (act : Cursor → α × Nat) : Parse α where
  run cursor :=
    let result := act cursor
    (result.1, cursor.advanceBy result.2)
  advances cursor := ⟨(act cursor).2, rfl⟩

/-- One computation after the other moves on by the sum of their tokens. -/
instance : Monad Parse where
  pure value := step fun _ => (value, 0)
  bind first following :=
    { run := fun cursor =>
        let result := first.run cursor
        (following result.1).run result.2
      advances := fun cursor => by
        obtain ⟨count, stops⟩ := first.advances cursor
        obtain ⟨more, ends⟩ := (following (first.run cursor).1).advances (first.run cursor).2
        exact ⟨count + more, by rw [Cursor.advanceBy_add, ← stops]; exact ends⟩ }

/-- What the place tells, without moving. -/
def query {α : Type} (answer : Cursor → α) : Parse α := step fun cursor => (answer cursor, 0)

/-- Pass over as many tokens as the place tells. -/
def pass (count : Cursor → Nat) : Parse Unit := step fun cursor => ((), count cursor)

/-- The next token. -/
def peek : Parse Token := query fun cursor => cursor.peekAt 0

/-- Where the next token stands. -/
def nextSpan : Parse Span := query fun cursor => (cursor.peekAt 0).span

/-- Where the next token starts. -/
def nextStart : Parse Nat := query fun cursor => (cursor.peekAt 0).span.start

/-- Whether the next token is the keyword or mark with this text. -/
def is (text : String) : Parse Bool := query fun cursor => (cursor.peekAt 0).is text

/-- Whether the next token is the keyword or mark with one of these texts. -/
def isAny (texts : List String) : Parse Bool := query fun cursor => texts.any (cursor.peekAt 0).is

/-- Whether the next token is of a kind. -/
def isKind (kind : TokenKind) : Parse Bool := query fun cursor => (cursor.peekAt 0).kind == kind

/-- Whether all tokens were taken. -/
def atEnd : Parse Bool := isKind .finish

/-- Take the next token. -/
def take : Parse Token := step fun cursor => (cursor.peekAt 0, 1)

/-- Take the next token if the test says so. -/
def takeIf (test : Parse Bool) : Parse (Option Token) := do
  if ← test then
    let token ← take
    return some token
  else return none

/-- Take the next token if it is the keyword or mark with this text. -/
def eat (text : String) : Parse Bool := do
  if ← is text then
    let _ ← take
    return true
  else return false

/-- Pass over an optional keyword or mark. -/
def skip (text : String) : Parse Unit := do
  let _ ← eat text

/-- Pass over terminators. -/
def skipTerminators : Parse Unit :=
  pass fun cursor => (cursor.ahead.takeWhile Token.isTerminator).length

/-- Pass over the group that the next token opens. -/
def skipGroup : Parse Unit := pass fun cursor => groupLength 0 cursor.ahead

/-- Pass over the tokens up to the end of the statement. -/
def skipStatement : Parse Unit := pass fun cursor => statementLength 0 cursor.ahead

/-- Number of tokens taken so far. -/
def taken : Parse Nat := query (·.taken)

/-- Take a token if none was taken since `before`. -/
def keepMoving (before : Nat) : Parse Unit :=
  pass fun cursor => if cursor.taken == before then 1 else 0

/-- The span from `start` to the last taken token. -/
def spanFrom (start : Nat) : Parse Span := query fun cursor => Span.upTo start cursor.lastEnd

/-- Doc comment of what starts with the next token. -/
def docHere : Parse (Option String) :=
  query fun cursor => docAbove cursor.notes (cursor.peekAt 0).line

/-- Take the names in front, separated by commas. -/
def names : Parse (List Token) := step fun cursor => nameRun cursor.ahead

/-- Take the names behind commas. -/
def moreNames : Parse (List Token) := step fun cursor => furtherNames cursor.ahead

end Parse

end GoRefactor
