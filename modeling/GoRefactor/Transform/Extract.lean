import GoRefactor.Module.Build
import GoRefactor.Transform.Naming
import GoRefactor.Transform.Rename

/-!
# Extracting interfaces

Structs with the same methods, signatures included, can stand behind one interface. An extraction
finds such structs, names an interface for each method set, and declares it in an existing file or
in a new one.
-/

namespace GoRefactor

/-- What to extract. -/
structure ExtractionOptions where
  /-- Fewest structs that a method set needs. -/
  minTypes : Nat := 2
  /-- Fewest methods that it needs. -/
  minMethods : Nat := 1
  /-- Patterns of import paths to leave out. -/
  excludePackages : List String := []
  /-- Patterns of struct names to leave out. -/
  excludeTypes : List String := []
  /-- Patterns of method names to leave out. -/
  excludeMethods : List String := []
  /-- Consider unexported structs and methods too. -/
  includePrivate : Bool := false
  /-- Name of the interface, in place of a derived one. -/
  interfaceName : Option String := none
  /-- Package that gets the interfaces, by import path or name. -/
  targetPackage : Option String := none
  /-- File that gets the interfaces. -/
  targetFile : Option String := none
  /-- Write each interface to a file of its own. -/
  createNewFiles : Bool := false
  /-- Only say what would change. -/
  dryRun : Bool := false
deriving DecidableEq, Repr, Inhabited

/-- Patterns of what is left out. -/
structure Excludes where
  /-- Import paths. -/
  packages : List (List GlobPart)
  /-- Struct names. -/
  types : List (List GlobPart)
  /-- Method names. -/
  methods : List (List GlobPart)

/-- Some pattern matches the text. -/
def matchesAny (globs : List (List GlobPart)) (text : String) : Bool :=
  globs.any fun glob => Glob.isMatch glob text

/-- Read patterns; the first flawed one is refused, and patterns that nest too deeply. -/
def readGlobs (patterns : List String) : Except Error (List (List GlobPart)) := do
  let globs ← patterns.mapM fun pattern =>
    match Glob.parse pattern with
    | .ok glob => Except.ok glob
    | .error flaw => .error (.invalidOptions (.badPattern pattern flaw))
  match Glob.limit? globs with
  | some limit => throw (.invalidOptions (.overNested limit))
  | none => return globs

namespace ExtractionOptions

/-- What the options leave out. -/
def excludes (options : ExtractionOptions) : Except Error Excludes := do
  let packages ← readGlobs options.excludePackages
  let types ← readGlobs options.excludeTypes
  let methods ← readGlobs options.excludeMethods
  return ⟨packages, types, methods⟩

/-- Refuse bounds of zero, a bad name and flawed patterns. -/
def validate (options : ExtractionOptions) : Except Error Unit := do
  if options.minTypes < 1 then throw (.invalidOptions .tooFewTypes)
  if options.minMethods < 1 then throw (.invalidOptions .tooFewMethods)
  match options.interfaceName.bind fun name => (nameFlaw? name).map fun flaw => (name, flaw) with
  | some (name, flaw) => throw (.invalidIdentifier name flaw)
  | none =>
    let _ ← options.excludes

end ExtractionOptions

/-- The method set of a struct, in order and each method once. -/
def methodSet (index : Index) (excludes : Excludes) (struct : Symbol) : List MethodShape :=
  let methods := (index.symbols.membersOf struct.name).filter fun symbol =>
    symbol.kind == .method && symbol.package == struct.package &&
      !matchesAny excludes.methods symbol.name
  dropRepeats (sortBy MethodShape.le (methods.map fun symbol =>
    ⟨symbol.name, normalizeText (symbol.typeText.getD "")⟩))

/-- Add a struct to those with its method set; a struct without methods is left out. -/
def addImplementer (index : Index) (excludes : Excludes) (patterns : NameMap MethodPattern)
    (struct : Symbol) : NameMap MethodPattern :=
  if matchesAny excludes.packages struct.package || matchesAny excludes.types struct.name then
    patterns
  else
    match methodSet index excludes struct with
    | [] => patterns
    | methods =>
      let known := (patterns.get? (methodKey methods)).getD ⟨methods, []⟩
      patterns.insert (methodKey methods)
        { known with
          implementers := known.implementers ++ [⟨struct.name, struct.package, struct.file⟩] }

/-- Method sets with enough structs and methods, by key. -/
def discover (index : Index) (options : ExtractionOptions) :
    Except Error (List MethodPattern) := do
  let excludes ← options.excludes
  let patterns := (index.symbols.ofKind .struct).foldl (addImplementer index excludes) ∅
  return patterns.values.filter fun pattern =>
    options.minTypes ≤ pattern.implementers.length && options.minMethods ≤ pattern.methods.length

/-- Where an interface goes. -/
inductive Placement where
  /-- To the end of an existing file. -/
  | append (edit : Edit)
  /-- Into a new file of a package. -/
  | create (package : String)
deriving DecidableEq, Repr, Inhabited

/-- An interface to declare. -/
structure PlannedInterface where
  /-- Its name. -/
  name : String
  /-- Text of the declaration. -/
  rendered : String
  /-- The change that declares it. -/
  change : Change
  /-- Where it goes. -/
  placement : Placement
deriving DecidableEq, Repr, Inhabited

/-- What an extraction would do. -/
structure ExtractionPlan where
  /-- Number of method sets, skipped ones included. -/
  patterns : Nat
  /-- Interfaces to declare, in order. -/
  interfaces : List PlannedInterface
  /-- Interfaces that were skipped. -/
  warnings : List String
deriving Inhabited

/-- Paths of the files that a plan creates. -/
def ExtractionPlan.newFiles (plan : ExtractionPlan) : List String :=
  plan.interfaces.filterMap fun planned =>
    match planned.placement with
    | .create _ => some planned.change.file
    | .append _ => none

/-- Insert a declaration at the end of a text, behind a blank line. -/
def appendEdit (path content rendered : String) : Edit :=
  let separator := if endsWith content "\n" then "\n" else "\n\n"
  Edit.insert path content.utf8ByteSize (separator ++ rendered)

/-- An extraction under way. -/
structure Extraction where
  /-- Names taken so far, with their packages. -/
  claimed : List (String × String) := []
  /-- Texts of files after the changes planned so far. -/
  pending : NameMap String := ∅
  /-- Interfaces planned so far, the last one first. -/
  interfaces : List PlannedInterface := []
  /-- Warnings so far, the last one first. -/
  warnings : List String := []

/-- Where interfaces are to go, checked against the module. -/
structure ExtractionTarget where
  /-- Import path of the package that gets them. -/
  package : Option String
  /-- Path of the file that gets them. -/
  file : Option String

/-- Ending of source files. -/
def sourceSuffix : String := ".go"

namespace ExtractionOptions

/-- The package and file that the options name. The file must be in the package. -/
def target (options : ExtractionOptions) (module : Module) : Attempt ExtractionTarget := do
  let package ← options.targetPackage.mapM module.packagePath
  match options.targetFile with
  | none => return ⟨package, none⟩
  | some path =>
    match module.packageOfFile? path with
    | none => Attempt.refuse (.fileNotFound path)
    | some owner =>
      if package.all fun path => path == owner.path then
        return ⟨some (package.getD owner.path), some path⟩
      else
        Attempt.refuse (.invalidOptions (.fileOutsidePackage path owner.path))

/-- The file that gets an interface: the one that is asked for, a new one named after the
interface, the file of the first struct, or the first file of the package that holds no tests. -/
def targetPath (options : ExtractionOptions) (target : ExtractionTarget) (package : Package)
    (first : Implementer) (name : String) : Except Error String :=
  match target.file with
  | some path => .ok path
  | none =>
    if options.createNewFiles then
      let file := Naming.snakeCase name ++ sourceSuffix
      .ok (if package.directory.isEmpty then file else package.directory ++ "/" ++ file)
    else if first.package == package.path then .ok first.file
    else
      match package.files.find? fun file => !file.isTest with
      | some file => .ok file.path
      | none => .error (.invalidModel (.noSourceFile package.path))

/-- Declare an interface at the end of a text. -/
def planAppend (path content name rendered : String) : PlannedInterface :=
  let edit := appendEdit path content rendered
  ⟨name, rendered, Change.ofEdit edit content, .append edit⟩

/-- Declare an interface in a new file. -/
def planCreate (package : Package) (path name rendered : String) : PlannedInterface :=
  let content := "package " ++ package.name ++ "\n\n" ++ rendered
  ⟨name, rendered, ⟨path, 1, 1, "", content⟩, .create package.path⟩

/-- Plan the interface of one method set. A name that the package has already is skipped. -/
def planPattern (options : ExtractionOptions) (naming : MethodPattern → String)
    (module : Module) (target : ExtractionTarget) (state : Extraction)
    (pattern : MethodPattern) : Except Error Extraction :=
  match pattern.implementers.head? with
  | none => .ok state
  | some first =>
    let name := options.interfaceName.getD (naming pattern)
    let packagePath := target.package.getD first.package
    match module.package? packagePath with
    | none => .error (.packageNotFound packagePath)
    | some package =>
      if package.declares name || state.claimed.contains (packagePath, name) then
        .ok { state with
          warnings :=
            s!"skipped interface {name}: {name} already declared in {packagePath}" ::
              state.warnings }
      else
        let rendered := renderInterface name pattern
        match options.targetPath target package first name with
        | .error error => .error error
        | .ok path =>
          let existing := (state.pending.get? path).or ((module.file? path).map (·.content))
          let planned :=
            match existing with
            | some content => planAppend path content name rendered
            | none => planCreate package path name rendered
          .ok { state with
            claimed := (packagePath, name) :: state.claimed
            pending := state.pending.insert path (existing.getD "" ++ planned.change.after)
            interfaces := planned :: state.interfaces }

/-- Plan the extraction, changing nothing. Later interfaces of a file are planned on the text that
earlier ones leave. -/
def plan (options : ExtractionOptions) (naming : MethodPattern → String) (module : Module) :
    Attempt ExtractionPlan := do
  ExceptT.mk (.ok options.validate)
  let target ← options.target module
  let index ← module.index ⟨false, options.includePrivate⟩
  let patterns ← ExceptT.mk (.ok (discover index options))
  let planned ← ExceptT.mk (.ok
    (patterns.foldlM (options.planPattern naming module target) {}))
  return ⟨patterns.length, planned.interfaces.reverse, planned.warnings.reverse⟩

end ExtractionOptions

/-- Types declared by a text on its own, moved to where the text lands. -/
def snippetTypes (path packageName rendered : String) (landing : Nat) :
    Except Error (List (String × TypeDecl)) := do
  let header := "package " ++ packageName ++ "\n"
  let snippet ← scanFile path (header ++ rendered)
  let delta : Int := (landing : Int) - (header.utf8ByteSize : Int)
  return snippet.types.entries.map fun (name, decl) =>
    (name, (SpanVisitor.shift delta).typeDecl decl)

namespace Module

/-- Append a declaration to a file and register the types it declares. -/
def appendInterface (module : Module) (edit : Edit) (rendered : String) : Attempt Module :=
  match module.file? edit.file with
  | none => Attempt.refuse (.fileNotFound edit.file)
  | some file => do
    let separator := edit.replacement.utf8ByteSize - rendered.utf8ByteSize
    let types ← ExceptT.mk (.ok (snippetTypes edit.file file.packageName rendered
      (edit.span.start + separator)))
    let (edited, _) ← module.applyEdits [edit]
    return edited.updateFile edit.file fun file =>
      { file with
        types := types.foldl (fun map (name, decl) => map.insert name decl) file.types }

/-- Add a new file to a package. -/
def createFile (module : Module) (package path content : String) : Attempt Module := do
  let file ← ExceptT.mk (.ok (scanFile path content))
  match module.package? package with
  | none => Attempt.refuse (.packageNotFound package)
  | some _ =>
    let grown := module.packages.modify package fun owner =>
      { owner with files := owner.files ++ [{ file with modified := true }], modified := true }
    return { module with packages := grown }.touch

/-- Declare a planned interface. -/
def declareInterface (module : Module) (planned : PlannedInterface) : Attempt Module :=
  match planned.placement with
  | .append edit => module.appendInterface edit planned.rendered
  | .create package => module.createFile package planned.change.file planned.change.after

/-- Declare planned interfaces one after the other, up to the first that is refused. -/
def declareInterfaces (module : Module) :
    List PlannedInterface → Except Fault (Module × Option Error)
  | [] => .ok (module, none)
  | planned :: rest =>
    match module.declareInterface planned with
    | .error fault => .error fault
    | .ok (.error error) => .ok (module, some error)
    | .ok (.ok next) => next.declareInterfaces rest

end Module

namespace ExtractionOptions

/-- What happened, in words. -/
def summary (options : ExtractionOptions) (plan : ExtractionPlan) : String :=
  if plan.interfaces.isEmpty then "No qualifying method patterns"
  else
    let verb := if options.dryRun then "Would extract" else "Extracted"
    s!"{verb} {plan.interfaces.length} interface(s) from {plan.patterns} pattern(s); " ++
      s!"{plan.newFiles.length} new file(s)"

/-- Plan the extraction and, unless it is a dry run, declare the interfaces. -/
def run (options : ExtractionOptions) (naming : MethodPattern → String) (module : Module) :
    Except Fault (Module × Outcome) := do
  match ← (options.plan naming module).run with
  | .error error => return (module, .failed error)
  | .ok plan =>
    let outcome := Outcome.succeeded (options.summary plan)
      (plan.interfaces.map (·.change)) plan.warnings
    if options.dryRun then return (module, outcome)
    else
      match ← module.declareInterfaces plan.interfaces with
      | (extended, none) => return (extended, outcome)
      | (extended, some error) => return (extended, .failed error)

end ExtractionOptions

end GoRefactor
