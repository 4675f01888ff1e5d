import GoRefactor.Go.Declaration
import GoRefactor.Go.Parser.Cursor

/-!
# Statements, expressions and types

Recursive descent over the tokens. The parser never fails: what it does not know it passes over,
and every loop takes at least one token in each round. Types hold expressions (array lengths),
expressions hold types and, in function literals, statements, so all of it is one family of
functions. The first argument of each bounds the depth of calls; `depthLimit` is enough, because
at most a handful of calls follow each other without taking a token.
-/

namespace GoRefactor

/-- Binary operators. -/
def binaryOps : List String :=
  ["||", "&&", "==", "!=", "<", "<=", ">", ">=", "+", "-", "|", "^", "*", "/", "%", "<<", ">>",
    "&", "&^", "<-"]

/-- Assignment operators. -/
def assignOps : List String :=
  ["=", "+=", "-=", "*=", "/=", "%=", "&=", "|=", "^=", "<<=", ">>=", "&^="]

/-- Keywords that start a type. -/
def typeKeywords : List String := ["func", "map", "chan", "struct", "interface"]

/-- Marks that start a type. -/
def typeMarks : List String := ["*", "[", "<-", "("]

/-- The token can start a type. -/
def Token.startsType (token : Token) : Bool :=
  match token.kind with
  | .identifier => true
  | .keyword => typeKeywords.contains token.text
  | .mark => typeMarks.contains token.text
  | _ => false

/-- The token ends a statement, a block or the text. -/
def Token.endsStatement (token : Token) : Bool :=
  token.isTerminator || token.is "\x7d" || token.kind == .finish

/-- The token ends the place of an operand. -/
def Token.endsOperand (token : Token) : Bool :=
  token.endsStatement || token.is ")" || token.is "]" || token.is ","

/-- The token ends the place of a type. -/
def Token.endsType (token : Token) : Bool := token.endsOperand || token.is "="

/-- The unary operator that a token stands for. -/
def Token.unaryOp? (token : Token) : Option UnaryOp :=
  if token.is "&" then some .ref
  else if token.is "*" then some .deref
  else if token.is "range" then some .range
  else if token.is "-" || token.is "+" || token.is "!" || token.is "^" || token.is "<-" then
    some .other
  else none

/-- The expression can be the type of a composite literal. -/
def Node.isLiteralType : Node → Bool
  | .ident _ _ => true
  | .selector _ _ _ => true
  | .index base _ => base.isLiteralType
  | .typeExpr form _ => form == .slice || form == .array || form == .map || form == .struct
  | _ => false

/-- Where the name stands by which an embedded field is known. -/
def Node.embeddedNameSpan : Node → Option Span
  | .ident _ span => some span
  | .selector _ _ span => some span
  | .unary _ operand => operand.embeddedNameSpan
  | .index base _ => base.embeddedNameSpan
  | _ => none

/-- The field that embeds a type, if the type has a name. -/
def Field.embedding (typeNode : Node) (typeSpan : Span) (doc : Option String) : List Field :=
  match typeNode.embeddedNameSpan with
  | none => []
  | some nameSpan => [⟨typeNode.baseTypeName.getD "", nameSpan, typeSpan, typeNode, true, doc⟩]

/-- An entry of a parameter list: a name, if it has one, and a type. -/
structure ParamEntry where
  /-- The name in front of the type. -/
  name : Option Token
  /-- Where the type stands. -/
  typeSpan : Span
  /-- The type, or the name of an entry that takes its type from a later one. -/
  typeNode : Node

/-- Parameters of a list in which some entry is named: bare identifiers wait for the type of the
next named entry, and other entries without a name are dropped. -/
def namedParams (waiting : List Binding) : List ParamEntry → List Param
  | [] => []
  | entry :: rest =>
    match entry.name with
    | some token =>
      (waiting.map fun binding =>
        ⟨some binding.name, some binding.span, entry.typeSpan, entry.typeNode⟩) ++
        ⟨some token.text, some token.span, entry.typeSpan, entry.typeNode⟩ :: namedParams [] rest
    | none =>
      match entry.typeNode with
      | .ident name span => namedParams (waiting ++ [⟨name, span⟩]) rest
      | _ => namedParams waiting rest

/-- Parameters of a list: all named or all without names. -/
def paramsOf (entries : List ParamEntry) : List Param :=
  if entries.all fun entry => entry.name.isNone then
    entries.map fun entry => ⟨none, none, entry.typeSpan, entry.typeNode⟩
  else namedParams [] entries

/-- A single definition stands for itself. -/
def Node.ofDefinitions : List Node → Node
  | [node] => node
  | nodes => .list nodes

/-- The identifiers among the left sides of a short variable declaration. -/
def bindingsOf (nodes : List Node) : List Binding :=
  nodes.filterMap fun node =>
    match node with
    | .ident name span => some ⟨name, span⟩
    | _ => none

/-- Types in parameters and results. -/
def paramTypes (params : List Param) : List Node := params.map (·.typeNode)

namespace Parse

/-- Whether the next token can start a type. -/
def startsType : Parse Bool := query fun cursor => (cursor.peekAt 0).startsType

/-- The unary operator that comes next, if one does. -/
def unaryOp? : Parse (Option UnaryOp) := query fun cursor => (cursor.peekAt 0).unaryOp?

/-- Whether the statement ends here. -/
def endsStatement : Parse Bool := query fun cursor => (cursor.peekAt 0).endsStatement

/-- Whether no operand starts here and none is passed over. -/
def endsOperand : Parse Bool := query fun cursor => (cursor.peekAt 0).endsOperand

/-- Whether no type starts here and none is passed over. -/
def endsType : Parse Bool := query fun cursor => (cursor.peekAt 0).endsType

/-- Whether the next identifier names a parameter and does not start its type. -/
def paramIsNamed : Parse Bool :=
  query fun cursor =>
    let next := cursor.peekAt 1
    if (cursor.peekAt 0).kind != .identifier then false
    else
      match next.kind with
      | .identifier => true
      | .keyword => typeKeywords.contains next.text
      | .mark =>
        if next.text == "*" || next.text == "..." || next.text == "(" || next.text == "<-" then
          true
        else if next.text == "[" then
          (cursor.peekAt 2).is "]" || (cursor.peekAt 2).kind == .literal
        else false
      | _ => false

/-- Whether a bracket after a type's name holds type parameters and is not an array type. -/
def hasTypeParams : Parse Bool :=
  query fun cursor =>
    (cursor.peekAt 0).is "[" && (cursor.peekAt 1).kind == .identifier && !(cursor.peekAt 2).is "]"

/-- Whether a dot and a name come next. -/
def selectorFollows : Parse Bool :=
  query fun cursor => (cursor.peekAt 0).is "." && (cursor.peekAt 1).kind == .identifier

/-- Whether a bracket with type arguments comes next. -/
def typeArgsFollow : Parse Bool :=
  query fun cursor => (cursor.peekAt 0).is "[" && !(cursor.peekAt 1).is "]"

/-- Whether a method of an interface comes next: a name and its parameters. -/
def methodFollows : Parse Bool :=
  query fun cursor => (cursor.peekAt 0).kind == .identifier && (cursor.peekAt 1).is "("

/-- Whether a label comes next: a name and a colon. -/
def labelFollows : Parse Bool :=
  query fun cursor => (cursor.peekAt 0).kind == .identifier && (cursor.peekAt 1).is ":"

/-- Whether the next field line starts with a field's name; else it embeds a type. -/
def fieldIsNamed : Parse Bool :=
  query fun cursor =>
    let next := cursor.peekAt 1
    (cursor.peekAt 0).kind == .identifier &&
      !(next.is "." || next.isTerminator || next.kind == .literal || next.is "\x7d")

/-- A clause that is left out where the test says so. -/
def clauseUnless (test : Parse Bool) (clause : Parse Node) : Parse (List Node) := do
  if ← test then return [] else return [← clause]

mutual

/-- A type. -/
def type : Nat → Parse Node
  | 0 => return .literal (← nextSpan)
  | fuel + 1 => do
    if ← is "*" then
      let _ ← take
      return .unary .deref (← type fuel)
    else if ← is "(" then
      let _ ← take
      let inner ← type fuel
      skip ")"
      return inner
    else if ← is "[" then
      let opening ← take
      if ← eat "]" then return .typeExpr .slice [← type fuel]
      let length ← if ← eat "..." then pure (.literal opening.span) else expr fuel false
      skip "]"
      let elem ← type fuel
      return .typeExpr .array [length, elem]
    else if ← is "..." then
      let _ ← take
      return .typeExpr .variadic [← type fuel]
    else if ← is "<-" then
      let _ ← take
      skip "chan"
      return .typeExpr .chan [← type fuel]
    else if ← is "map" then
      let _ ← take
      skip "["
      let key ← type fuel
      skip "]"
      let value ← type fuel
      return .typeExpr .map [key, value]
    else if ← is "chan" then
      let _ ← take
      skip "<-"
      return .typeExpr .chan [← type fuel]
    else if ← is "func" then
      let _ ← take
      let params ← params fuel
      let results ← results fuel
      return .typeExpr .func (paramTypes params ++ paramTypes results)
    else if ← is "struct" then
      let _ ← take
      let fields ← structFields fuel
      return .typeExpr .struct (fields.map (·.typeNode))
    else if ← is "interface" then
      let _ ← take
      let (methods, embeds) ← interfaceBody fuel
      let signatures := methods.flatMap fun method =>
        paramTypes method.params ++ paramTypes method.results
      return .typeExpr .interface (signatures ++ embeds)
    else if ← isKind .identifier then
      let first ← take
      let simple := Node.ident first.text first.span
      let named ←
        if ← selectorFollows then do
          let _ ← take
          let name ← take
          pure (Node.selector simple name.text name.span)
        else pure simple
      if ← typeArgsFollow then
        let _ ← take
        return .index named (← typeArgs fuel)
      else return named
    else if ← endsType then return .literal (← nextSpan)
    else
      let token ← take
      return .literal token.span

/-- Type arguments up to the closing bracket. -/
def typeArgs : Nat → Parse (List Node)
  | 0 => return []
  | fuel + 1 => do
    if (← atEnd) || (← eat "]") then return []
    let before ← taken
    let arg ← type fuel
    skip ","
    keepMoving before
    return arg :: (← typeArgs fuel)

/-- A parameter list in parentheses; nothing if there is none. -/
def params : Nat → Parse (List Param)
  | 0 => return []
  | fuel + 1 => do
    if ← eat "(" then return paramsOf (← paramEntries fuel) else return []

/-- Entries of a parameter list up to the closing parenthesis. -/
def paramEntries : Nat → Parse (List ParamEntry)
  | 0 => return []
  | fuel + 1 => do
    skipTerminators
    if (← atEnd) || (← eat ")") then return []
    let before ← taken
    let name ← takeIf paramIsNamed
    let start ← nextStart
    let typeNode ← type fuel
    let typeSpan ← spanFrom start
    skip ","
    keepMoving before
    return ⟨name, typeSpan, typeNode⟩ :: (← paramEntries fuel)

/-- Results of a function: a parameter list, a single type, or nothing. -/
def results : Nat → Parse (List Param)
  | 0 => return []
  | fuel + 1 => do
    if ← is "(" then params fuel
    else if ← startsType then
      let start ← nextStart
      let typeNode ← type fuel
      let typeSpan ← spanFrom start
      return [⟨none, none, typeSpan, typeNode⟩]
    else return []

/-- Fields of a struct in braces; none if there are no braces. -/
def structFields : Nat → Parse (List Field)
  | 0 => return []
  | fuel + 1 => do
    if ← eat "\x7b" then fieldLines fuel else return []

/-- Fields of a struct up to the closing brace. -/
def fieldLines : Nat → Parse (List Field)
  | 0 => return []
  | fuel + 1 => do
    skipTerminators
    if (← atEnd) || (← eat "\x7d") then return []
    let before ← taken
    let doc ← docHere
    let fields ← fieldLine fuel doc
    if ← isKind .literal then let _ ← take
    keepMoving before
    return fields ++ (← fieldLines fuel)

/-- The fields that one line declares. -/
def fieldLine : Nat → Option String → Parse (List Field)
  | 0, _ => return []
  | fuel + 1, doc => do
    if ← fieldIsNamed then
      let first ← take
      let others ← moreNames
      let start ← nextStart
      let typeNode ← type fuel
      let typeSpan ← spanFrom start
      return (first :: others).map fun token =>
        ⟨token.text, token.span, typeSpan, typeNode, false, doc⟩
    else
      let start ← nextStart
      let typeNode ← type fuel
      let typeSpan ← spanFrom start
      return Field.embedding typeNode typeSpan doc

/-- Methods and embedded types of an interface in braces; none if there are no braces. -/
def interfaceBody : Nat → Parse (List InterfaceMethod × List Node)
  | 0 => return ([], [])
  | fuel + 1 => do
    if ← eat "\x7b" then interfaceLines fuel else return ([], [])

/-- Methods and embedded types of an interface up to the closing brace. -/
def interfaceLines : Nat → Parse (List InterfaceMethod × List Node)
  | 0 => return ([], [])
  | fuel + 1 => do
    skipTerminators
    if (← atEnd) || (← eat "\x7d") then return ([], [])
    let before ← taken
    if ← methodFollows then
      let name ← take
      let start ← nextStart
      let params ← params fuel
      let results ← results fuel
      let signatureSpan ← spanFrom start
      keepMoving before
      let (methods, embeds) ← interfaceLines fuel
      return (⟨name.text, name.span, signatureSpan, params, results⟩ :: methods, embeds)
    else
      let union ← typeUnion fuel
      keepMoving before
      let (methods, embeds) ← interfaceLines fuel
      return (methods, union ++ embeds)

/-- Types joined by bars, each with an optional tilde. -/
def typeUnion : Nat → Parse (List Node)
  | 0 => return []
  | fuel + 1 => do
    skip "~"
    let member ← type fuel
    if ← eat "|" then return member :: (← typeUnion fuel) else return [member]

/-- Expressions separated by commas. With `bare`, a brace opens a statement's body and not a
composite literal. -/
def exprList : Nat → Bool → Parse (List Node)
  | 0, _ => return []
  | fuel + 1, bare => do
    let first ← expr fuel bare
    if ← eat "," then
      if ← endsStatement then return [first] else return first :: (← exprList fuel bare)
    else return [first]

/-- An expression. -/
def expr : Nat → Bool → Parse Node
  | 0, _ => return .literal (← nextSpan)
  | fuel + 1, bare => do
    let left ← unary fuel bare
    exprTail fuel bare left

/-- Further operands of binary operators; all of them bind to the left. -/
def exprTail : Nat → Bool → Node → Parse Node
  | 0, _, left => return left
  | fuel + 1, bare, left => do
    if ← isAny binaryOps then
      let _ ← take
      let right ← unary fuel bare
      exprTail fuel bare (.binary left right)
    else return left

/-- An operand with unary operators in front. -/
def unary : Nat → Bool → Parse Node
  | 0, _ => return .literal (← nextSpan)
  | fuel + 1, bare => do
    match ← unaryOp? with
    | some op =>
      let _ ← take
      return .unary op (← unary fuel bare)
    | none => primary fuel bare

/-- An operand with its selectors, calls, indices and literal bodies. -/
def primary : Nat → Bool → Parse Node
  | 0, _ => return .literal (← nextSpan)
  | fuel + 1, bare => do
    let operand ← operand fuel
    primaryTail fuel bare operand

/-- The start of an operand. -/
def operand : Nat → Parse Node
  | 0 => return .literal (← nextSpan)
  | fuel + 1 => do
    if ← isKind .identifier then
      let name ← take
      return .ident name.text name.span
    else if ← isKind .literal then
      let token ← take
      return .literal token.span
    else if ← is "(" then
      let _ ← take
      let inner ← expr fuel false
      skipTerminators
      skip ")"
      return inner
    else if ← is "func" then funcExpr fuel
    else if ← startsType then type fuel
    else if ← endsOperand then return .literal (← nextSpan)
    else
      let token ← take
      return .literal token.span

/-- Selectors, calls, indices and literal bodies behind an operand. -/
def primaryTail : Nat → Bool → Node → Parse Node
  | 0, _, node => return node
  | fuel + 1, bare, node => do
    if ← eat "." then
      if ← isKind .identifier then
        let name ← take
        primaryTail fuel bare (.selector node name.text name.span)
      else if ← eat "(" then
        let asserted ← if ← eat "type" then pure none else some <$> type fuel
        skip ")"
        primaryTail fuel bare (.typeAssert node asserted)
      else primaryTail fuel bare node
    else if ← eat "(" then
      let args ← callArgs fuel
      primaryTail fuel bare (.call node args)
    else if ← eat "[" then
      let indices ← indices fuel
      primaryTail fuel bare (.index node indices)
    else if (← is "\x7b") && !bare && node.isLiteralType then
      let _ ← take
      let elems ← elements fuel
      primaryTail fuel bare (.composite (some node) elems)
    else return node

/-- A function literal, or a function type in the place of an expression. -/
def funcExpr : Nat → Parse Node
  | 0 => return .literal (← nextSpan)
  | fuel + 1 => do
    let _ ← take
    let params ← params fuel
    let results ← results fuel
    if ← is "\x7b" then
      let body ← block fuel
      return .funcLit params results body
    else return .typeExpr .func (paramTypes params ++ paramTypes results)

/-- Arguments of a call up to the closing parenthesis. -/
def callArgs : Nat → Parse (List Node)
  | 0 => return []
  | fuel + 1 => do
    skipTerminators
    if (← atEnd) || (← eat ")") then return []
    let before ← taken
    let arg ← expr fuel false
    skip "..."
    skip ","
    keepMoving before
    return arg :: (← callArgs fuel)

/-- Indices up to the closing bracket, colons and commas passed over. -/
def indices : Nat → Parse (List Node)
  | 0 => return []
  | fuel + 1 => do
    skipTerminators
    if (← atEnd) || (← eat "]") then return []
    if ← eat ":" then indices fuel
    else if ← eat "," then indices fuel
    else
      let before ← taken
      let index ← expr fuel false
      keepMoving before
      return index :: (← indices fuel)

/-- Elements of a composite literal up to the closing brace. -/
def elements : Nat → Parse (List Node)
  | 0 => return []
  | fuel + 1 => do
    skipTerminators
    if (← atEnd) || (← eat "\x7d") then return []
    let before ← taken
    let key ← element fuel
    let elem ← if ← eat ":" then Node.keyValue key <$> element fuel else pure key
    skip ","
    keepMoving before
    return elem :: (← elements fuel)

/-- An element of a composite literal: a body without a type, or an expression. -/
def element : Nat → Parse Node
  | 0 => return .literal (← nextSpan)
  | fuel + 1 => do
    if ← eat "\x7b" then return .composite none (← elements fuel) else expr fuel false

/-- A block in braces; the next token opens it. -/
def block : Nat → Parse Node
  | 0 => return .literal (← nextSpan)
  | fuel + 1 => do
    let opening ← take
    let stmts ← statements fuel
    let closing ← take
    return .block (Span.upTo opening.span.start closing.span.stop) stmts

/-- Statements up to a closing brace. -/
def statements : Nat → Parse (List Node)
  | 0 => return []
  | fuel + 1 => do
    skipTerminators
    if (← atEnd) || (← is "\x7d") then return []
    let before ← taken
    let stmt ← statement fuel
    keepMoving before
    return stmt.toList ++ (← statements fuel)

/-- A statement; nothing for one that uses no names. -/
def statement : Nat → Parse (Option Node)
  | 0 => return none
  | fuel + 1 => do
    if ← isAny ["var", "const"] then some <$> localValues fuel
    else if ← is "type" then some <$> localTypes fuel
    else if ← is "if" then some <$> ifStatement fuel
    else if ← is "for" then some <$> forStatement fuel
    else if ← isAny ["switch", "select"] then some <$> switchStatement fuel
    else if ← isAny ["return", "go", "defer"] then
      let _ ← take
      let items ← if ← endsStatement then pure [] else exprList fuel false
      return some (.list items)
    else if ← isAny ["break", "continue", "goto", "fallthrough"] then
      let _ ← take
      if ← isKind .identifier then let _ ← take
      return none
    else if ← is "case" then
      let _ ← take
      let stmt ← simpleStatement fuel false
      skip ":"
      return some stmt
    else if ← is "default" then
      let _ ← take
      skip ":"
      return none
    else if ← is "\x7b" then some <$> block fuel
    else if ← labelFollows then
      let _ ← take
      let _ ← take
      skipTerminators
      if ← is "\x7d" then return none else statement fuel
    else some <$> simpleStatement fuel false

/-- An expression, send, increment, assignment or short variable declaration. -/
def simpleStatement : Nat → Bool → Parse Node
  | 0, _ => return .literal (← nextSpan)
  | fuel + 1, bare => do
    let left ← exprList fuel bare
    if ← eat ":=" then
      let values ← rightSide fuel bare
      return .define (bindingsOf left) none values
    if ← isAny assignOps then
      let _ ← take
      let values ← rightSide fuel bare
      return .assign left values
    else if ← eat "++" then return .assign left []
    else if ← eat "--" then return .assign left []
    else return .list left

/-- Values of an assignment, or an iteration. -/
def rightSide : Nat → Bool → Parse (List Node)
  | 0, _ => return []
  | fuel + 1, bare => do
    if ← eat "range" then return [.unary .range (← expr fuel bare)] else exprList fuel bare

/-- Variables or constants declared in a body, in a group or alone. -/
def localValues : Nat → Parse Node
  | 0 => return .literal (← nextSpan)
  | fuel + 1 => do
    let _ ← take
    if ← eat "(" then return Node.ofDefinitions (← localValueGroup fuel)
    else return Node.ofDefinitions [← localValueSpec fuel]

/-- Declarations of a group up to the closing parenthesis. -/
def localValueGroup : Nat → Parse (List Node)
  | 0 => return []
  | fuel + 1 => do
    skipTerminators
    if (← atEnd) || (← eat ")") then return []
    let before ← taken
    let spec ← localValueSpec fuel
    keepMoving before
    return spec :: (← localValueGroup fuel)

/-- Names with a type or values or both. -/
def localValueSpec : Nat → Parse Node
  | 0 => return .literal (← nextSpan)
  | fuel + 1 => do
    let tokens ← names
    let declared ←
      if !(← is "=") && (← startsType) then some <$> type fuel else pure none
    let values ← if ← eat "=" then exprList fuel false else pure []
    return .define (tokens.map fun token => ⟨token.text, token.span⟩) declared values

/-- Types declared in a body, in a group or alone. -/
def localTypes : Nat → Parse Node
  | 0 => return .literal (← nextSpan)
  | fuel + 1 => do
    let _ ← take
    let grouped ← eat "("
    return Node.ofDefinitions (← localTypeSpecs fuel grouped)

/-- Types of a group up to the closing parenthesis, or a single one. -/
def localTypeSpecs : Nat → Bool → Parse (List Node)
  | 0, _ => return []
  | fuel + 1, grouped => do
    skipTerminators
    if grouped && (← atEnd) then return []
    if grouped && (← is ")") then
      let _ ← take
      return []
    if ← isKind .identifier then
      let name ← take
      if ← hasTypeParams then skipGroup
      skip "="
      let declared ← type fuel
      let definition := Node.define [⟨name.text, name.span⟩] (some declared) []
      if grouped then return definition :: (← localTypeSpecs fuel grouped)
      else return [definition]
    else return []

/-- A conditional statement. -/
def ifStatement : Nat → Parse Node
  | 0 => return .literal (← nextSpan)
  | fuel + 1 => do
    let _ ← take
    let header ← header fuel
    let body ← body fuel
    if ← eat "else" then
      let alt ← if ← is "if" then ifStatement fuel else Parse.body fuel
      return .branch header body (some alt)
    else return .branch header body none

/-- A loop. -/
def forStatement : Nat → Parse Node
  | 0 => return .literal (← nextSpan)
  | fuel + 1 => do
    let _ ← take
    let header ← forHeader fuel
    let body ← body fuel
    return .branch header body none

/-- Clauses of a loop's header. -/
def forHeader : Nat → Parse (List Node)
  | 0 => return []
  | fuel + 1 => do
    if ← is "\x7b" then return []
    let start ← clauseUnless (isKind .terminator) (forClause fuel)
    if ← isKind .terminator then
      let _ ← take
      let condition ← clauseUnless (isKind .terminator) (simpleStatement fuel true)
      let _ ← takeIf (isKind .terminator)
      let update ← clauseUnless (is "\x7b") (simpleStatement fuel true)
      return start ++ condition ++ update
    else return start

/-- First clause of a loop, which may be an iteration alone. -/
def forClause : Nat → Parse Node
  | 0 => return .literal (← nextSpan)
  | fuel + 1 => do
    if ← is "range" then return .list (← rightSide fuel true) else simpleStatement fuel true

/-- A switch or select statement. -/
def switchStatement : Nat → Parse Node
  | 0 => return .literal (← nextSpan)
  | fuel + 1 => do
    let _ ← take
    let header ← if ← is "\x7b" then pure [] else header fuel
    let body ← body fuel
    return .branch header body none

/-- A statement and a condition, or a condition, before a body. -/
def header : Nat → Parse (List Node)
  | 0 => return []
  | fuel + 1 => do
    let first ← simpleStatement fuel true
    if ← isKind .terminator then
      let _ ← take
      if ← is "\x7b" then return [first] else return [first, ← simpleStatement fuel true]
    else return [first]

/-- The block of a statement; an empty one if there is none. -/
def body : Nat → Parse Node
  | 0 => return .literal (← nextSpan)
  | fuel + 1 => do
    if ← is "\x7b" then block fuel
    else return .block (Span.point (← nextStart)) []

end

end Parse

/-- Depth of calls that parsing so many tokens may take: fewer than sixteen calls follow each other
without taking a token. -/
def depthLimit (tokens : Nat) : Nat := 16 * (tokens + 1)

end GoRefactor
