import GoRefactor.Symbol.Infer

/-!
# Resolving uses

Every use of a name is settled through the scopes around it: blocks and functions, the imports of
the file, the package, and packages imported with a dot. A member after a dot is settled in three
stages. The base may name an import, or the pair may end a qualified name; else the inferred type
of the base has the member; else any field or method with the name will do. A stage with several
candidates settles nothing and leaves a diagnostic.
-/

namespace GoRefactor

/-- How a name is used. -/
inductive Role where
  | read
  | call
  | write
  | type
deriving DecidableEq, Repr, Inhabited

namespace Role

/-- Kind of the reference from a bare name. -/
def nameKind : Role → ReferenceKind
  | .read => .read
  | .call => .call
  | .write => .write
  | .type => .type

/-- Kind of the reference from a member after a dot. -/
def memberKind : Role → ReferenceKind
  | .read => .selector
  | .call => .call
  | .write => .write
  | .type => .type

end Role

/-- What became of one use of a name. -/
inductive Use where
  /-- It stands for a symbol. -/
  | found (symbol : Nat) (span : Span) (kind : ReferenceKind)
  /-- It could stand for several. -/
  | ambiguous (name : String) (span : Span) (candidates : List Nat)
  /-- It matches nothing. -/
  | unresolved
deriving Repr, Inhabited

/-- State of a walk over one declaration. -/
structure Walk where
  /-- Names bound around the current node. -/
  scopes : Scopes
  /-- Uses met so far, the last one first. -/
  uses : List Use

/-- A step of a walk. -/
abbrev Walking := StateM Walk

namespace Walking

/-- Note a use. -/
def note (use : Use) : Walking Unit := modify fun walk => { walk with uses := use :: walk.uses }

/-- Walk in a scope of its own. -/
def enclosed (inner : Walking Unit) : Walking Unit := do
  modify fun walk => { walk with scopes := [] :: walk.scopes }
  inner
  modify fun walk => { walk with scopes := walk.scopes.tail }

/-- Bind a name in the innermost scope. The blank identifier binds nothing. -/
def bindName (name : String) (bound : Local) : Walking Unit :=
  modify fun walk =>
    match walk.scopes with
    | frame :: outer =>
      if name == "_" then walk else { walk with scopes := ((name, bound) :: frame) :: outer }
    | [] => walk

end Walking

/-- How a node is visited. -/
inductive VisitMode where
  /-- As an expression, with a role for its name. -/
  | use (role : Role)
  /-- As a type. -/
  | type
  /-- As an element of a composite literal, with the element's type. -/
  | element (type : Option GoType)
  /-- As a key of a composite literal, with the key's type. -/
  | key (type : Option GoType)
  /-- As an entry, keyed or not, of a composite literal, with the literal's type. -/
  | entry (type : Option GoType)

/-- A composite literal that leaves its type out. -/
def Node.isBareComposite : Node → Bool
  | .composite none _ => true
  | _ => false

namespace VisitMode

/-- A plain read. -/
def read : VisitMode := .use .read

/-- Role of a name visited in the mode. -/
def role : VisitMode → Role
  | .use role => role
  | .type => .type
  | _ => .read

/-- Type of a composite literal that leaves it out. -/
def literalType : VisitMode → Option GoType
  | .element given => given
  | .key given => given
  | .entry given => given.bind GoType.literalElement
  | _ => none

/-- How the operand of a unary operator is visited. The address of an element may leave the
element's type out too. -/
def operand (mode : VisitMode) (op : UnaryOp) (operand : Node) : VisitMode :=
  match mode with
  | .type => .type
  | .element _ | .entry _ =>
    if op == .ref && operand.isBareComposite then .element mode.literalType else .read
  | _ => .read

/-- How the base of an index expression is visited. -/
def indexBase : VisitMode → VisitMode
  | .type => .type
  | .use .call => .use .call
  | _ => .read

/-- How the indices of an index expression are visited: those of a type are types. -/
def indices : VisitMode → VisitMode
  | .type => .type
  | _ => .read

end VisitMode

/-- What a walk over a file looks names up in. -/
structure Resolver where
  /-- What packages declare. -/
  scope : ModuleScope
  /-- The symbols. -/
  symbols : SymbolTable
  /-- Import path of the file's package. -/
  package : String
  /-- The file. -/
  file : SourceFile

namespace Resolver

/-- The place of a node below some scopes. -/
def place (resolver : Resolver) (scopes : Scopes) : Place :=
  ⟨resolver.package, resolver.file, scopes⟩

/-- The type that a type expression denotes in the file. -/
def typeOf (resolver : Resolver) (node : Node) : Option GoType :=
  resolver.scope.typeOf resolver.package resolver.file node

/-- A package-level declaration that the file sees. -/
def declared (resolver : Resolver) (name : String) : Option Site :=
  resolver.scope.lookupInFile resolver.package resolver.file name

/-- Note a use of what is declared at a span, if it has a symbol. -/
def noteOrigin (resolver : Resolver) (file : String) (nameSpan span : Span)
    (kind : ReferenceKind) : Walking Unit :=
  match resolver.symbols.atOrigin file nameSpan with
  | some symbol => Walking.note (.found symbol.id span kind)
  | none => return

/-- Note a use of a package-level declaration, if it has a symbol. -/
def noteSite (resolver : Resolver) (site : Site) (span : Span) (kind : ReferenceKind) :
    Walking Unit :=
  resolver.noteOrigin site.file.path site.nameSpan span kind

/-- Note a use of an import. -/
def noteImport (resolver : Resolver) (qualifier : String) (span : Span) : Walking Unit :=
  match resolver.file.importNamed qualifier with
  | some decl => resolver.noteOrigin resolver.file.path decl.nameSpan span .imported
  | none => return

/-- Note what candidates settle. -/
def noteCandidates (name : String) (span : Span) (kind : ReferenceKind) :
    Resolution → Walking Unit
  | .resolved symbol => Walking.note (.found symbol span kind)
  | .ambiguous candidates => Walking.note (.ambiguous name span candidates)
  | .unresolved => Walking.note .unresolved

/-- Settle a bare name. -/
def name (resolver : Resolver) (role : Role) (name : String) (span : Span) : Walking Unit := do
  if name == "_" then return
  match (← get).scopes.find? name with
  | some bound =>
    match bound.symbol with
    | some symbol => Walking.note (.found symbol span role.nameKind)
    | none => return
  | none =>
    if (resolver.file.importNamed name).isSome then return
    match resolver.declared name with
    | some site => resolver.noteSite site span role.nameKind
    | none => if isPredeclared name then return else Walking.note .unresolved

/-- The qualified name is the suffix, or ends with it behind a dot or slash. -/
def endsQualified (qualified suffix : String) : Bool :=
  let path := qualified.toList.reverse
  let ending := suffix.toList.reverse
  ending.isPrefixOf path &&
    match path.drop ending.length with
    | [] => true
    | c :: _ => c == '.' || c == '/'

/-- Symbols whose qualified name ends with a pair of names. -/
def qualifiedSuffix (resolver : Resolver) (qualifier name : String) : Resolution :=
  .ofCandidates (((resolver.symbols.named name).filter fun symbol =>
    endsQualified symbol.qualifiedName s!"{qualifier}.{name}").map (·.id))

/-- First stage of settling a member: its base names an import, or is not declared at all and
the pair ends a qualified name. Tells whether the use is settled. -/
def qualifiedMember (resolver : Resolver) (base : Node) (name : String) (span : Span)
    (kind : ReferenceKind) : Walking Bool :=
  match base with
  | .ident qualifier qualifierSpan => do
    if ((← get).scopes.find? qualifier).isSome then return false
    match resolver.scope.qualifier resolver.file qualifier with
    | .package path =>
      resolver.noteImport qualifier qualifierSpan
      match resolver.scope.lookup path name with
      | some site => resolver.noteSite site span kind
      | none => Walking.note .unresolved
      return true
    | .external =>
      resolver.noteImport qualifier qualifierSpan
      Walking.note .unresolved
      return true
    | .notImport =>
      if (resolver.declared qualifier).isSome || isPredeclared qualifier then return false
      match resolver.qualifiedSuffix qualifier name with
      | .unresolved => return false
      | resolution =>
        noteCandidates name span kind resolution
        return true
  | _ => return false

/-- The type whose members a base has: that of its value, or the one it names. -/
def baseType (resolver : Resolver) (scopes : Scopes) (base : Node) : Option GoType :=
  (resolver.scope.exprType (resolver.place scopes) base).or <|
    match base with
    | .ident name _ => if (scopes.find? name).isSome then none else resolver.typeOf base
    | _ => none

/-- Last stages of settling a member: the type of the base has it, else any field or method with
the name. -/
def typedMember (resolver : Resolver) (base : Node) (name : String) (span : Span)
    (kind : ReferenceKind) : Walking Unit := do
  let type := resolver.baseType (← get).scopes base
  match (type.bind GoType.name?).bind fun (path, typeName) =>
      resolver.scope.member path typeName name with
  | some member => resolver.noteOrigin member.file member.nameSpan span kind
  | none =>
    noteCandidates name span kind (.ofCandidates
      (((resolver.symbols.named name).filter fun symbol => symbol.kind.isMember).map (·.id)))

/-- Settle the key of a struct literal on a field, and give the field's type. -/
def fieldKey (resolver : Resolver) (path typeName name : String) (span : Span) :
    Walking (Option GoType) :=
  match resolver.scope.member path typeName name with
  | some member => do
    resolver.noteOrigin member.file member.nameSpan span .write
    return member.type
  | none => do
    Walking.note .unresolved
    return none

/-- The function is a builtin whose first argument is a type. -/
def takesType (resolver : Resolver) (scopes : Scopes) : Node → Bool
  | .ident name _ =>
    (name == "new" || name == "make") && (scopes.find? name).isNone &&
      (resolver.declared name).isNone
  | _ => false

/-- Types of the names that a local declaration binds. -/
def definedTypes (resolver : Resolver) (scopes : Scopes) (type : Option Node)
    (values : List Node) (count : Nat) : List (Option GoType) :=
  match type with
  | some type => List.replicate count (resolver.typeOf type)
  | none =>
    let place := resolver.place scopes
    match values with
    | [.unary .range operand] =>
      match (resolver.scope.exprType place operand).map GoType.iterated with
      | some (key, value) => [key, value]
      | none => [none, none]
    | [.call func args] =>
      if count > 1 then resolver.scope.callResults place func args
      else [resolver.scope.exprType place (.call func args)]
    | values => values.map (resolver.scope.exprType place)

/-- Bind the names of a local declaration. -/
def bindNames (types : List (Option GoType)) : List Binding → Walking Unit
  | [] => return
  | binding :: rest => do
    Walking.bindName binding.name ⟨none, types.head?.join⟩
    bindNames types.tail rest

/-- Bind the parameters of a function literal. -/
def bindParams (resolver : Resolver) : List Param → Walking Unit
  | [] => return
  | param :: rest => do
    match param.name with
    | some name => Walking.bindName name ⟨none, resolver.typeOf param.typeNode⟩
    | none => pure ()
    resolver.bindParams rest

/-- Package, type, field name and span of a key that names a field of a struct literal. -/
def fieldOfKey? (type : Option GoType) : Node → Option (String × String × String × Span)
  | .ident name span =>
    (type.bind GoType.name?).map fun (path, typeName) => (path, typeName, name, span)
  | _ => none

mutual

/-- Visit a node. -/
def visit (resolver : Resolver) (mode : VisitMode) : Node → Walking Unit
  | .ident name span => resolver.name mode.role name span
  | .selector base name span => do
    let settled ← resolver.qualifiedMember base name span mode.role.memberKind
    if settled then return
    resolver.visit .read base
    resolver.typedMember base name span mode.role.memberKind
  | .call func args => do
    if resolver.takesType (← get).scopes func then
      resolver.visitFirst .type .read args
    else
      resolver.visit (.use .call) func
      resolver.visitAll .read args
  | .composite none elems => resolver.visitAll (.entry mode.literalType) elems
  | .composite (some type) elems => do
    resolver.visit .type type
    resolver.visitAll (.entry (resolver.typeOf type)) elems
  | .keyValue key value =>
    match mode with
    | .entry type =>
      match fieldOfKey? type key with
      | some (path, typeName, name, span) => do
        let valueType ← resolver.fieldKey path typeName name span
        resolver.visit (.element valueType) value
      | none => do
        resolver.visit (.key (type.bind GoType.literalKey)) key
        resolver.visit (.element (type.bind GoType.literalElement)) value
    | _ => do
      resolver.visit .read key
      resolver.visit .read value
  | .unary op operand => resolver.visit (mode.operand op operand) operand
  | .binary left right => do
    resolver.visit .read left
    resolver.visit .read right
  | .index base indices => do
    resolver.visit mode.indexBase base
    resolver.visitAll mode.indices indices
  | .typeAssert base type => do
    resolver.visit .read base
    resolver.visitOption .type type
  | .typeExpr form parts =>
    resolver.visitFirst (if form == .array then .read else .type) .type parts
  | .literal _ => return
  | .funcLit params results body => do
    resolver.visitParams none params
    resolver.visitParams none results
    Walking.enclosed do
      resolver.bindParams params
      resolver.bindParams results
      resolver.visit .read body
  | .block _ stmts => Walking.enclosed (resolver.visitAll .read stmts)
  | .define names type values => do
    resolver.visitOption .type type
    resolver.visitAll .read values
    bindNames (resolver.definedTypes (← get).scopes type values names.length) names
  | .assign targets values => do
    resolver.visitAll (.use .write) targets
    resolver.visitAll .read values
  | .branch header body alt =>
    Walking.enclosed do
      resolver.visitAll .read header
      resolver.visit .read body
      resolver.visitOption .read alt
  | .list items => resolver.visitAll .read items

/-- Visit nodes in order. -/
def visitAll (resolver : Resolver) (mode : VisitMode) : List Node → Walking Unit
  | [] => return
  | head :: rest => do
    resolver.visit mode head
    resolver.visitAll mode rest

/-- Visit the first node in one mode and the others in another. -/
def visitFirst (resolver : Resolver) (first others : VisitMode) : List Node → Walking Unit
  | [] => return
  | head :: rest => do
    resolver.visit first head
    resolver.visitAll others rest

/-- Visit a node if it is there. -/
def visitOption (resolver : Resolver) (mode : VisitMode) : Option Node → Walking Unit
  | none => return
  | some node => resolver.visit mode node

/-- Visit the types of parameters. Neighbours that share a type share its span, and it is visited
once; `previous` is the span of the parameter before. -/
def visitParams (resolver : Resolver) (previous : Option Span) : List Param → Walking Unit
  | [] => return
  | ⟨_, _, typeSpan, typeNode⟩ :: rest => do
    if previous == some typeSpan then pure () else resolver.visit .type typeNode
    resolver.visitParams (some typeSpan) rest

end

/-- Names bound in the body of a function: its receiver, parameters and results. -/
def funcFrame (resolver : Resolver) (decl : FuncDecl) : List (String × Local) :=
  (decl.allParams.filterMap fun param =>
    match param.name, param.nameSpan with
    | some name, some nameSpan =>
      let symbol := resolver.symbols.atOrigin resolver.file.path nameSpan
      some (name, ⟨symbol.map (·.id), resolver.typeOf param.typeNode⟩)
    | _, _ => none).reverse

/-- Visit a function or method. -/
def visitFunc (resolver : Resolver) (decl : FuncDecl) : Walking Unit := do
  resolver.visitAll .type (decl.receiver.map (·.typeNode)).toList
  resolver.visitParams none decl.params
  resolver.visitParams none decl.results
  modify fun walk => { walk with scopes := resolver.funcFrame decl :: walk.scopes }
  resolver.visitOption .read decl.body

/-- Visit a declared type. -/
def visitType (resolver : Resolver) (decl : TypeDecl) : Walking Unit :=
  match decl.shape with
  | .struct fields => resolver.visitAll .type (fields.map (·.typeNode))
  | .interface methods embeds => do
    for method in methods do
      resolver.visitParams none method.params
      resolver.visitParams none method.results
    resolver.visitAll .type embeds
  | .other underlying => resolver.visit .type underlying

/-- Visit a variable or constant. -/
def visitValue (resolver : Resolver) (decl : ValueDecl) : Walking Unit := do
  resolver.visitOption .type decl.typeNode
  resolver.visitOption .read decl.value

/-- Uses in one declaration, in order. -/
def usesOf (walk : Walking Unit) : List Use := (walk.run ⟨[], []⟩).2.uses.reverse

/-- Start of each top-level declaration, the function around its uses, and the uses. -/
def topUses (resolver : Resolver) : List (Nat × String × List Use) :=
  let file := resolver.file
  let ofFunc (decl : FuncDecl) := (decl.extent.start, decl.name, usesOf (resolver.visitFunc decl))
  let ofValue (decl : ValueDecl) := (decl.extent.start, "", usesOf (resolver.visitValue decl))
  file.types.values.map (fun decl => (decl.extent.start, "", usesOf (resolver.visitType decl))) ++
    (file.functions.values ++ file.methods).map ofFunc ++
    (file.vars.values ++ file.consts.values ++ file.blanks).map ofValue

/-- Uses in the file in the order of its declarations, each with the function around it. -/
def fileUses (resolver : Resolver) : List (String × Use) :=
  (inTextOrder Prod.fst resolver.topUses).flatMap fun (_, context, uses) =>
    uses.map fun use => (context, use)

end Resolver

/-- What a build records of a use. -/
inductive Finding where
  /-- A reference, not yet numbered. -/
  | reference (reference : Reference)
  /-- A use with several candidates. -/
  | diagnostic (diagnostic : Diagnostic)
  /-- A use without candidates. -/
  | unresolved

namespace Resolver

/-- The text that a use of a symbol must have. An import goes by the name it has in this file. -/
def expectedText (resolver : Resolver) (target : Symbol) : String :=
  if target.kind == .imported then
    match resolver.file.imports.find? fun decl => decl.nameSpan == target.nameSpan with
    | some decl => decl.localName
    | none => target.name
  else target.name

/-- Record a use. One that touches the declared name is left out, and one whose span does not
address the name is refused. -/
def record (resolver : Resolver) (lines : LineIndex) (context : String) :
    Use → Except Error (Option Finding)
  | .found id span kind =>
    match resolver.symbols.get? id with
    | none => .ok none
    | some target =>
      if target.declaredAt resolver.file.path span then .ok none
      else
        let found := resolver.file.text span
        let expected := resolver.expectedText target
        if found != expected then
          .error (.invalidModel (.misplacedUse resolver.file.path span found expected))
        else
          .ok (some (.reference
            ⟨0, id, resolver.file.path, span, lines.region span, context, kind⟩))
  | .ambiguous name span candidates =>
    .ok (some (.diagnostic
      ⟨resolver.file.path, span, lines.position span.start, name, candidates⟩))
  | .unresolved => .ok (some .unresolved)

/-- Everything recorded of a file, in order. -/
def findings (resolver : Resolver) : Except Error (List Finding) := do
  let lines := LineIndex.ofText resolver.file.content
  let found ← resolver.fileUses.mapM fun (context, use) => resolver.record lines context use
  return found.filterMap id

end Resolver

/-- Everything recorded of a module's retained files, in order. -/
def Module.findings (module : Module) (options : IndexOptions) (symbols : SymbolTable) :
    Except Error (List Finding) := do
  let scope := ModuleScope.ofModule options module
  let files := module.files.filter fun (_, file) => options.retainsFile file
  let found ← files.mapM fun (package, file) =>
    Resolver.findings ⟨scope, symbols, package.path, file⟩
  return found.flatten

end GoRefactor
