import GoRefactor.Symbol.Resolve

/-!
# Indexes

The symbols, references and diagnostics of one revision of a module, and the queries over them.
An index does not follow the module: once the revision moves on, the index is stale.
-/

namespace GoRefactor

/-- Symbols and references of one revision of a module. -/
structure Index where
  /-- Revision of the module. -/
  revision : Nat
  /-- What the build retained. -/
  options : IndexOptions
  /-- The symbols. -/
  symbols : SymbolTable
  /-- The references. -/
  references : ReferenceTable
  /-- Uses with several candidates, in order. -/
  diagnostics : List Diagnostic
  /-- Number of uses without candidates, predeclared names apart. -/
  unresolved : Nat
  /-- Number of packages in the module. -/
  packages : Nat
  /-- Number of files in the module. -/
  files : Nat
deriving Inhabited

/-- The first member of a list that occurs before. -/
def firstRepeated? (seen : List String) : List String → Option String
  | [] => none
  | head :: rest => if seen.contains head then some head else firstRepeated? (head :: seen) rest

namespace Finding

/-- References among findings, numbered from zero. -/
def references (findings : List Finding) : List Reference :=
  (findings.filterMap fun
    | .reference found => some found
    | _ => none).mapIdx fun id found => { found with id }

/-- Diagnostics among findings. -/
def diagnostics (findings : List Finding) : List Diagnostic :=
  findings.filterMap fun
    | .diagnostic found => some found
    | _ => none

/-- Number of uses without candidates. -/
def unresolvedCount (findings : List Finding) : Nat :=
  findings.countP fun
    | .unresolved => true
    | _ => false

end Finding

/-- Index a module. Refused when two files share a path, or when a declaration or use does not
address its name. -/
def Module.index (module : Module) (options : IndexOptions) : Attempt Index := do
  match firstRepeated? [] (module.files.map fun (_, file) => file.path) with
  | some path => Attempt.refuse (.invalidModel (.duplicatePath path))
  | none =>
    let symbols ← module.symbols options
    let findings ← match module.findings options symbols with
      | .ok findings => pure findings
      | .error error => Attempt.refuse error
    return {
      revision := module.revision
      options
      symbols
      references := .ofList (Finding.references findings)
      diagnostics := Finding.diagnostics findings
      unresolved := Finding.unresolvedCount findings
      packages := module.packages.size
      files := module.fileCount }

namespace Index

/-- The module changed since the index was built. -/
def isStale (index : Index) (module : Module) : Bool := module.revision != index.revision

/-- Symbols of a file, by position. -/
def symbolsInFile (index : Index) (path : String) : List Symbol :=
  inTextOrder (·.nameSpan.start) (index.symbols.inFile path)

/-- Kinds in the order in which a position is looked up. -/
def positionPriority : List (List SymbolKind) :=
  [[.type, .struct, .interface], [.function, .method], [.var], [.const], [.imported]]

/-- The declaration at a position of a file. Kinds are tried in order, and the first with a
declaration on the line wins; of several, one that covers the column is preferred. -/
def symbolAt (index : Index) (file : String) (position : Position) : Option Symbol :=
  let declared := index.symbolsInFile file
  positionPriority.findSome? fun kinds =>
    let onLine := declared.filter fun symbol =>
      kinds.contains symbol.kind && symbol.region.containsLine position.line
    (onLine.find? fun symbol => symbol.region.contains position).or onLine.head?

/-- Names of the methods of a type, among those declared in its package. -/
def methodNames (index : Index) (package typeName : String) : List String :=
  ((index.symbols.membersOf typeName).filter fun symbol =>
    symbol.kind == .method && symbol.package == package).map (·.name)

/-- Structs that have every method of an interface, by name; signatures are not compared. None
if the number is not that of an interface. -/
def implementations (index : Index) (interface : Nat) : List Symbol :=
  match index.symbols.get? interface with
  | some symbol =>
    if symbol.kind == .interface then
      let required := index.methodNames symbol.package symbol.name
      (index.symbols.ofKind .struct).filter fun candidate =>
        let offered := index.methodNames candidate.package candidate.name
        required.all offered.contains
    else []
  | none => []

/-- Number of symbols of each kind that occurs, in the order of kinds. -/
def symbolCounts (index : Index) : List (SymbolKind × Nat) :=
  (SymbolKind.all.map fun kind => (kind, (index.symbols.ofKind kind).length)).filter
    fun (_, count) => count != 0

end Index

end GoRefactor
