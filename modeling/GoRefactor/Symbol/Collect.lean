import GoRefactor.Module.Basic
import GoRefactor.Symbol.Table

/-!
# Collecting symbols

One pass over packages, files and declarations lists what is declared, in a fixed order: the
package; then for each file its imports, each type with its fields, interface methods and the
methods declared for it in the same file, the remaining methods, functions, variables and
constants. A function or method is followed by its parameters. Each declaration that the options
retain becomes a symbol, provided that its span addresses its name.
-/

namespace GoRefactor

/-- What a build retains. -/
structure IndexOptions where
  /-- Files that hold tests. -/
  includeTests : Bool := false
  /-- Unexported declarations, and parameters. -/
  includePrivate : Bool := false
deriving DecidableEq, Repr, Inhabited

namespace IndexOptions

/-- Options that retain everything. -/
def full : IndexOptions := ⟨true, true⟩

/-- The file is retained. -/
def retainsFile (options : IndexOptions) (file : SourceFile) : Bool :=
  options.includeTests || !file.isTest

/-- A declaration of the kind and name is retained. -/
def retains (options : IndexOptions) (kind : SymbolKind) (name : String) : Bool :=
  match kind with
  | .package | .imported => true
  | .parameter => options.includePrivate
  | _ => options.includePrivate || isExported name

end IndexOptions

/-- A declaration on its way to a symbol. -/
structure Draft where
  /-- What it is. -/
  kind : SymbolKind
  /-- Declared name. -/
  name : String
  /-- Where the name stands. -/
  nameSpan : Span
  /-- The whole declaration; a fault when its ends are out of order. -/
  extent : Except Fault Span
  /-- Qualified name; empty for package path and name. -/
  qualifiedName : String := ""
  /-- Type that owns it. -/
  parentType : Option String := none
  /-- Function that owns it. -/
  container : Option String := none
  /-- Declared type or signature. -/
  typeText : Option String := none
  /-- Doc comment. -/
  doc : Option String := none

/-- Values in the order in which their names stand in the text. -/
def inTextOrder {α : Type} (start : α → Nat) (values : List α) : List α :=
  sortBy (fun left right => start left ≤ start right) values

namespace Draft

/-- The package itself, named by the package clause of a file. -/
def ofPackage (package : Package) (file : SourceFile) : Draft where
  kind := .package
  name := file.packageName
  nameSpan := file.packageSpan
  extent := .ok file.packageSpan
  qualifiedName := package.path

/-- An import that binds a name. -/
def ofImport (decl : Import) : Draft where
  kind := .imported
  name := decl.localName
  nameSpan := decl.nameSpan
  extent := Span.between (min decl.nameSpan.start decl.pathSpan.start) decl.pathSpan.stop
  qualifiedName := decl.path
  typeText := some decl.path

/-- A parameter with a name. -/
def ofParam? (file : SourceFile) (container qualified : String) (param : Param) : Option Draft :=
  match param.name, param.nameSpan with
  | some name, some nameSpan =>
    if name == "_" then none
    else
      some {
        kind := .parameter
        name := name
        nameSpan := nameSpan
        extent := Span.between nameSpan.start (max param.typeSpan.stop nameSpan.stop)
        qualifiedName := s!"{qualified}.{name}"
        container := some container
        typeText := some (file.text param.typeSpan) }
  | _, _ => none

/-- A function or method, then its parameters. -/
def ofFunc (package : Package) (file : SourceFile) (decl : FuncDecl) : List Draft :=
  let owned := match decl.receiverTypeName with
    | some parent => s!"{parent}.{decl.name}"
    | none => decl.name
  let qualified := s!"{package.path}.{owned}"
  let own : Draft := {
    kind := if decl.receiverTypeName.isSome then .method else .function
    name := decl.name
    nameSpan := decl.nameSpan
    extent := .ok decl.extent
    qualifiedName := qualified
    parentType := decl.receiverTypeName
    typeText := some (file.text decl.signatureSpan)
    doc := decl.doc }
  own :: decl.allParams.filterMap (ofParam? file owned qualified)

/-- A field of a struct. -/
def ofField (package : Package) (file : SourceFile) (parent : String) (field : Field) :
    Draft where
  kind := .field
  name := field.name
  nameSpan := field.nameSpan
  extent := Span.between field.nameSpan.start field.typeSpan.stop
  qualifiedName := s!"{package.path}.{parent}.{field.name}"
  parentType := some parent
  typeText := some (file.text field.typeSpan)
  doc := field.doc

/-- A method that an interface asks for. -/
def ofInterfaceMethod (package : Package) (file : SourceFile) (parent : String)
    (method : InterfaceMethod) : Draft where
  kind := .method
  name := method.name
  nameSpan := method.nameSpan
  extent := Span.between method.nameSpan.start method.signatureSpan.stop
  qualifiedName := s!"{package.path}.{parent}.{method.name}"
  parentType := some parent
  typeText := some (file.text method.signatureSpan)

/-- Kind of a declared type. -/
def kindOfType (decl : TypeDecl) : SymbolKind :=
  match decl.shape with
  | .struct _ => .struct
  | .interface _ _ => .interface
  | .other _ => .type

/-- A type, its fields and interface methods, and its methods from the same file. An embedded
field is a use of a type and declares no name. -/
def ofType (package : Package) (file : SourceFile) (decl : TypeDecl) : List Draft :=
  let own : Draft := {
    kind := kindOfType decl
    name := decl.name
    nameSpan := decl.nameSpan
    extent := .ok decl.extent
    doc := decl.doc }
  own ::
    (decl.fields.filter fun field => !field.embedded).map (ofField package file decl.name) ++
    decl.interfaceMethods.map (ofInterfaceMethod package file decl.name) ++
    (file.methodsOf decl.name).flatMap (ofFunc package file)

/-- A variable or constant. -/
def ofValue (file : SourceFile) (kind : SymbolKind) (decl : ValueDecl) : Draft where
  kind := kind
  name := decl.name
  nameSpan := decl.nameSpan
  extent := .ok decl.extent
  typeText := decl.typeSpan.map file.text
  doc := decl.doc

/-- The method belongs to no type of the file. -/
def isDetached (file : SourceFile) (method : FuncDecl) : Bool :=
  match method.receiverTypeName with
  | some parent => !file.types.contains parent
  | none => true

/-- All declarations of a file, in order. -/
def ofFile (package : Package) (file : SourceFile) : List Draft :=
  (file.imports.filter fun decl => !decl.isDot && !decl.isBlank).map ofImport ++
  (inTextOrder (·.nameSpan.start) file.types.values).flatMap (ofType package file) ++
  (file.methods.filter (isDetached file)).flatMap (ofFunc package file) ++
  (inTextOrder (·.nameSpan.start) file.functions.values).flatMap (ofFunc package file) ++
  (inTextOrder (·.nameSpan.start) file.vars.values).map (ofValue file .var) ++
  (inTextOrder (·.nameSpan.start) file.consts.values).map (ofValue file .const)

/-- All declarations of a package with their files: first the package, named by the first
retained file, then those of each retained file. -/
def ofPackageFiles (options : IndexOptions) (package : Package) :
    List (SourceFile × List Draft) :=
  match package.files.filter options.retainsFile with
  | [] => []
  | first :: rest =>
    (first, [ofPackage package first]) ::
      (first :: rest).map fun file => (file, ofFile package file)

/-- The symbol of a draft, if the options retain it. Its span must address its name; an import
may be named by its path. -/
def toSymbol? (draft : Draft) (options : IndexOptions) (package : Package) (file : SourceFile)
    (lines : LineIndex) : Attempt (Option Symbol) := do
  let extent ← ExceptT.lift draft.extent
  if options.retains draft.kind draft.name then
    let found := file.text draft.nameSpan
    if draft.kind != .imported && found != draft.name then
      Attempt.refuse (.invalidModel
        (.misplacedName file.path draft.nameSpan draft.kind draft.name found))
    else
      return some {
        id := 0
        name := draft.name
        kind := draft.kind
        qualifiedName :=
          if draft.qualifiedName.isEmpty then s!"{package.path}.{draft.name}"
          else draft.qualifiedName
        package := package.path
        file := file.path
        region := lines.region extent
        nameSpan := draft.nameSpan
        parentType := draft.parentType
        container := draft.container
        exported := isExported draft.name
        typeText := draft.typeText
        doc := draft.doc }
  else
    return none

end Draft

/-- The symbols of drafts from one file, not yet numbered. -/
def Draft.toSymbols (options : IndexOptions) (package : Package) (file : SourceFile)
    (drafts : List Draft) : Attempt (List Symbol) := do
  let lines := LineIndex.ofText file.content
  let found ← drafts.mapM fun draft => draft.toSymbol? options package file lines
  return found.filterMap id

/-- The symbols of a package, not yet numbered. -/
def Package.symbols (package : Package) (options : IndexOptions) : Attempt (List Symbol) := do
  let found ← (Draft.ofPackageFiles options package).mapM fun (file, drafts) =>
    Draft.toSymbols options package file drafts
  return found.flatten

/-- Number symbols from zero. -/
def numberSymbols (symbols : List Symbol) : List Symbol :=
  symbols.mapIdx fun id symbol => { symbol with id }

/-- The symbols of a module, in order. -/
def Module.symbols (module : Module) (options : IndexOptions) : Attempt SymbolTable := do
  let found ← module.packageList.mapM fun package => package.symbols options
  return .ofList (numberSymbols found.flatten)

end GoRefactor
