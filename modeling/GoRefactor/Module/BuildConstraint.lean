import GoRefactor.Text.Blank
import GoRefactor.Text.Split

/-!
# Build constraints

A file may name in its leading comment lines the build tags it needs, as an expression of tags,
negation, conjunction, disjunction and parentheses. Reading an expression gives a tree; a file
takes part in a build unless its expression is false for the tags of the build.
-/

namespace GoRefactor

/-- An expression over build tags. -/
inductive TagExpr where
  | tag (name : List Char)
  | not (operand : TagExpr)
  | and (left right : TagExpr)
  | or (left right : TagExpr)
deriving DecidableEq, Repr, Inhabited

/-- The truth of an expression, when exactly the given tags are true. -/
def TagExpr.eval (tags : List (List Char)) : TagExpr → Bool
  | .tag name => tags.contains name
  | .not operand => !operand.eval tags
  | .and left right => left.eval tags && right.eval tags
  | .or left right => left.eval tags || right.eval tags

/-- A symbol of a constraint. -/
inductive TagToken where
  | word (name : List Char)
  | bang
  | both
  | either
  | opening
  | closing
deriving DecidableEq, Repr, Inhabited

namespace TagToken

/-- A word, if one is under way. Its characters are held last first. -/
def finish (word : List Char) : List TagToken :=
  if word.isEmpty then [] else [.word word.reverse]

/-- Cut a constraint into symbols; `word` holds the word under way, its characters last first.
A single ampersand or bar belongs to a word. -/
def scanFrom (word : List Char) : List Char → List TagToken
  | [] => finish word
  | '&' :: '&' :: rest => finish word ++ .both :: scanFrom [] rest
  | '|' :: '|' :: rest => finish word ++ .either :: scanFrom [] rest
  | c :: rest =>
    if c == '(' then finish word ++ .opening :: scanFrom [] rest
    else if c == ')' then finish word ++ .closing :: scanFrom [] rest
    else if c == '!' then finish word ++ .bang :: scanFrom [] rest
    else if isBlank c then finish word ++ scanFrom [] rest
    else scanFrom (c :: word) rest

/-- Cut a constraint into symbols. -/
def scan (text : List Char) : List TagToken := scanFrom [] text

end TagToken

namespace TagExpr

mutual

/-- A disjunction in front of the symbols. `fuel` bounds the depth of calls. -/
def readOr : Nat → List TagToken → Option (TagExpr × List TagToken)
  | 0, _ => none
  | fuel + 1, tokens => do
    let (left, rest) ← readAnd fuel tokens
    readOrTail fuel left rest

/-- Further operands of a disjunction. -/
def readOrTail : Nat → TagExpr → List TagToken → Option (TagExpr × List TagToken)
  | 0, _, _ => none
  | fuel + 1, left, tokens =>
    match tokens with
    | .either :: rest => do
      let (right, after) ← readAnd fuel rest
      readOrTail fuel (.or left right) after
    | _ => some (left, tokens)

/-- A conjunction in front of the symbols. -/
def readAnd : Nat → List TagToken → Option (TagExpr × List TagToken)
  | 0, _ => none
  | fuel + 1, tokens => do
    let (left, rest) ← readUnary fuel tokens
    readAndTail fuel left rest

/-- Further operands of a conjunction. -/
def readAndTail : Nat → TagExpr → List TagToken → Option (TagExpr × List TagToken)
  | 0, _, _ => none
  | fuel + 1, left, tokens =>
    match tokens with
    | .both :: rest => do
      let (right, after) ← readUnary fuel rest
      readAndTail fuel (.and left right) after
    | _ => some (left, tokens)

/-- A tag, a negation or a group in front of the symbols. -/
def readUnary : Nat → List TagToken → Option (TagExpr × List TagToken)
  | 0, _ => none
  | fuel + 1, tokens =>
    match tokens with
    | .word name :: rest => some (.tag name, rest)
    | .bang :: rest => do
      let (operand, after) ← readUnary fuel rest
      return (.not operand, after)
    | .opening :: rest => do
      let (inner, after) ← readOr fuel rest
      match after with
      | .closing :: behind => return (inner, behind)
      | _ => none
    | _ => none

end

/-- The expression in front of the symbols of a constraint; symbols behind it are left alone. -/
def read? (tokens : List TagToken) : Option TagExpr :=
  (readOr (4 * tokens.length + 4) tokens).map Prod.fst

end TagExpr

/-- Text behind which a line states a constraint. -/
def constraintMark : List Char := "//go:build".toList

/-- Text behind a given beginning. -/
def behindMark? (mark text : List Char) : Option (List Char) :=
  if mark.isPrefixOf text then some (text.drop mark.length) else none

/-- The text of the first constraint among the leading blank and comment lines. -/
def constraintText? (content : List Char) : Option (List Char) :=
  let leading := ((linesOf content).map Blank.trim).takeWhile fun line =>
    line.isEmpty || "//".toList.isPrefixOf line
  leading.findSome? (behindMark? constraintMark)

/-- The file takes part in a build with the given tags. A constraint that cannot be read excludes
nothing. -/
def buildSatisfied (content : String) (tags : List String) : Bool :=
  match constraintText? content.toList with
  | none => true
  | some text =>
    match TagExpr.read? (TagToken.scan text) with
    | none => true
    | some expr => expr.eval (tags.map String.toList)

end GoRefactor
