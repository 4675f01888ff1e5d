import GoRefactor.Go.File
import GoRefactor.Go.Parser.Brackets
import GoRefactor.Go.Parser.Expression

/-!
# Files

A file is a package clause followed by imports and declarations. Only unfinished lexemes,
brackets that do not pair up and a missing package clause are refused; anything else that is not
understood is passed over.
-/

namespace GoRefactor

/-- Why a text is no source file. -/
inductive ParseFlaw where
  /-- A lexeme has no end. -/
  | lexeme (flaw : LexemeFlaw)
  /-- Brackets do not pair up. -/
  | brackets (flaw : BracketFlaw)
  /-- The text does not start with a package clause. -/
  | noPackageClause
  /-- The package clause has no name; another token stands there. -/
  | noPackageName (found : String)
deriving DecidableEq, Repr, Inhabited

/-- The flaw in words. -/
def ParseFlaw.message : ParseFlaw → String
  | .lexeme .openComment => "unterminated block comment"
  | .lexeme .openLiteral => "unterminated literal"
  | .lexeme .openRawString => "unterminated raw string"
  | .brackets (.unexpected bracket) => s!"unexpected '{bracket.closing}'"
  | .brackets (.unclosed bracket) => s!"unclosed '{bracket.opening}'"
  | .noPackageClause => "expected package clause"
  | .noPackageName found => s!"expected package name, found '{found}'"

/-- A declaration at the top level of a file. -/
inductive TopDecl where
  | importing (decl : Import)
  | type (decl : TypeDecl)
  | function (decl : FuncDecl)
  | var (decl : ValueDecl)
  | const (decl : ValueDecl)

/-- Add a declaration to a file. -/
def SourceFile.add (file : SourceFile) : TopDecl → SourceFile
  | .importing decl => { file with imports := file.imports ++ [decl] }
  | .type decl => { file with types := file.types.insert decl.name decl }
  | .function decl =>
    if decl.isMethod then { file with methods := file.methods ++ [decl] }
    else { file with functions := file.functions.insert decl.name decl }
  | .var decl =>
    if decl.name == "_" then { file with blanks := file.blanks ++ [decl] }
    else { file with vars := file.vars.insert decl.name decl }
  | .const decl =>
    if decl.name == "_" then { file with blanks := file.blanks ++ [decl] }
    else { file with consts := file.consts.insert decl.name decl }

/-- Text without the quotes around a literal. -/
def unquoted (text : String) : String :=
  let isQuote (c : Char) := c == '"' || c == '\x60'
  String.ofList ((text.toList.dropWhile isQuote).reverse.dropWhile isQuote).reverse

/-- Values for each of the names: one each if their numbers agree, else all with the first. -/
def distribute (names : List Token) (values : List Node) : List (Option Node) :=
  if values.length == names.length then values.map some
  else
    match names with
    | [] => []
    | _ :: rest =>
      (if values.isEmpty then none else some (Node.list values)) :: rest.map fun _ => none

/-- The type of a specification for each of the names: with the first only. -/
def firstOnly {α : Type} (names : List Token) (value : Option α) : List (Option α) :=
  match names with
  | [] => []
  | _ :: rest => value :: rest.map fun _ => none

/-- The declarations of names with one type and values for them. -/
def valueDecls (tokens : List Token) (extent : Span) (typed : Option (Span × Node))
    (values : List Node) (doc : Option String) : List ValueDecl :=
  let typeNodes := firstOnly tokens (typed.map Prod.snd)
  let initial := distribute tokens values
  (tokens.zip (typeNodes.zip initial)).map fun (token, typeNode, value) =>
    ⟨token.text, token.span, extent, typed.map Prod.fst, typeNode, value, doc⟩

namespace Parse

/-- Rounds of a group in parentheses; `spec` reads what one round declares. -/
def groupRounds {α : Type} (spec : Option String → Parse (List α)) : Nat → Parse (List α)
  | 0 => return []
  | fuel + 1 => do
    skipTerminators
    if (← atEnd) || (← eat ")") then return []
    let before ← taken
    let doc ← docHere
    let decls ← spec doc
    keepMoving before
    return decls ++ (← groupRounds spec fuel)

/-- A keyword, then one specification or a group of them in parentheses. -/
def grouped {α : Type} (limit : Nat) (spec : Option String → Parse (List α)) :
    Parse (List α) := do
  let doc ← docHere
  let _ ← take
  if ← eat "(" then groupRounds spec limit else spec doc

/-- Whether an import has an explicit name: an alias, a dot or an underscore. -/
def aliasFollows : Parse Bool :=
  query fun cursor => (cursor.peekAt 0).kind == .identifier || (cursor.peekAt 0).is "."

/-- One imported package. -/
def importSpec : Parse (List TopDecl) := do
  let aliasToken ← takeIf aliasFollows
  if ← isKind .literal then
    let path ← take
    return [.importing
      ⟨unquoted path.text, path.span, aliasToken.map (·.text), aliasToken.map (·.span)⟩]
  else
    skipStatement
    return []

/-- Where a specification starts: in a group at its own first token, else at the keyword. -/
def specStart (inGroup : Bool) (keywordStart : Nat) : Parse Nat := do
  if inGroup then nextStart else return keywordStart

/-- What a declared type is. -/
def typeShape (limit : Nat) : Parse TypeShape := do
  if ← eat "struct" then return .struct (← structFields limit)
  else if ← eat "interface" then
    let (methods, embeds) ← interfaceBody limit
    return .interface methods embeds
  else return .other (← type limit)

/-- One declared type. -/
def typeSpec (limit : Nat) (inGroup : Bool) (keywordStart : Nat) (doc : Option String) :
    Parse (List TopDecl) := do
  let start ← specStart inGroup keywordStart
  if ← isKind .identifier then
    let name ← take
    if ← hasTypeParams then skipGroup
    skip "="
    let shape ← typeShape limit
    let extent ← spanFrom start
    return [.type ⟨name.text, name.span, extent, shape, doc⟩]
  else
    skipStatement
    return []

/-- The receiver of a method; nothing if there is none. -/
def receiver (limit : Nat) : Parse (Option Param) := do
  if ← is "(" then return (← params limit).head? else return none

/-- The body of a function; nothing if there is none. -/
def funcBody (limit : Nat) : Parse (Option Node) := do
  if ← is "\x7b" then return some (← block limit) else return none

/-- A function or method. -/
def funcDecl (limit : Nat) : Parse (List TopDecl) := do
  let doc ← docHere
  let keyword ← take
  let receiver ← receiver limit
  if ← isKind .identifier then
    let name ← take
    if ← is "[" then skipGroup
    let start ← nextStart
    let params ← params limit
    let results ← results limit
    let signatureSpan ← spanFrom start
    let body ← funcBody limit
    let extent ← spanFrom keyword.span.start
    return [.function
      ⟨name.text, name.span, extent, receiver, params, results, signatureSpan, body, doc⟩]
  else
    skipStatement
    return []

/-- The type of declared values with its place; nothing if there is none. -/
def declaredType (limit : Nat) : Parse (Option (Span × Node)) := do
  if ← startsType then
    let start ← nextStart
    let node ← type limit
    let span ← spanFrom start
    return some (span, node)
  else return none

/-- The values that names are declared with. -/
def initialValues (limit : Nat) : Parse (List Node) := do
  if ← eat "=" then exprList limit false else return []

/-- Names declared together as variables or constants. -/
def valueSpec (limit : Nat) (inGroup : Bool) (keywordStart : Nat) (doc : Option String) :
    Parse (List ValueDecl) := do
  let start ← specStart inGroup keywordStart
  let tokens ← names
  if tokens.isEmpty then
    skipStatement
    return []
  else
    let typed ← declaredType limit
    let values ← initialValues limit
    let extent ← spanFrom start
    return valueDecls tokens extent typed values doc

/-- Whether the keyword that comes next opens a group. -/
def groupFollows : Parse Bool :=
  query fun cursor => !(cursor.peekAt 0).isTerminator && (cursor.peekAt 1).is "("

/-- The declarations that start at the next token; anything else is passed over. -/
def topLevel (limit : Nat) : Parse (List TopDecl) := do
  let inGroup ← groupFollows
  let start ← nextStart
  if ← is "import" then grouped limit fun _ => importSpec
  else if ← is "type" then grouped limit (typeSpec limit inGroup start)
  else if ← is "func" then funcDecl limit
  else if ← is "var" then
    List.map TopDecl.var <$> grouped limit (valueSpec limit inGroup start)
  else if ← is "const" then
    List.map TopDecl.const <$> grouped limit (valueSpec limit inGroup start)
  else
    skipStatement
    return []

/-- Declarations up to the end of the text. -/
def declarations (limit : Nat) : Nat → Parse (List TopDecl)
  | 0 => return []
  | fuel + 1 => do
    skipTerminators
    if ← atEnd then return []
    let before ← taken
    let decls ← topLevel limit
    keepMoving before
    return decls ++ (← declarations limit fuel)

/-- The package clause: the token that names the package, or a flaw and its line. -/
def packageClause : Parse (Except (Nat × ParseFlaw) Token) := do
  skipTerminators
  if ← eat "package" then
    let token ← peek
    if token.kind == .identifier then
      let name ← take
      return .ok name
    else return .error (token.line, .noPackageName token.text)
  else return .error ((← peek).line, .noPackageClause)

end Parse

/-- The package clause and declarations of a token stream. -/
def TokenStream.parse (stream : TokenStream) : Except (Nat × ParseFlaw) (Token × List TopDecl) :=
  let (clause, cursor) := Parse.packageClause.run (Cursor.start stream)
  match clause with
  | .error failure => .error failure
  | .ok name =>
    let limit := depthLimit cursor.ahead.length
    .ok (name, ((Parse.declarations limit limit).run cursor).1)

/-- Scan a text into a source file, or report the line of the first flaw. -/
def SourceFile.parse (path content : String) : Except (Nat × ParseFlaw) SourceFile :=
  match TokenStream.ofChars? content.toList with
  | .error (line, flaw) => .error (line, .lexeme flaw)
  | .ok stream =>
    match bracketFlaw? [] (stream.tokens.filterMap Token.bracket?) with
    | some (line, flaw) => .error (line, .brackets flaw)
    | none =>
      match stream.parse with
      | .error failure => .error failure
      | .ok (name, decls) =>
        let base :=
          { SourceFile.blank path content with
            packageName := name.text
            packageSpan := name.span }
        .ok (decls.foldl SourceFile.add base)

end GoRefactor
