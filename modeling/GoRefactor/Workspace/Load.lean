import GoRefactor.Json.Reader
import GoRefactor.Module.Build
import GoRefactor.Module.BuildConstraint
import GoRefactor.Module.Directive
import GoRefactor.Snapshot.Module
import GoRefactor.Workspace.Place

/-!
# Loading modules

A module comes from a snapshot, which is checked, or from the source files of a directory whose
build constraints hold. Tests and doc comments are dropped unless they are asked for.
-/

namespace GoRefactor

/-- What is kept of a module when it is loaded. -/
structure LoadOptions where
  /-- Keep files that hold tests. -/
  includeTests : Bool := false
  /-- Index unexported declarations. -/
  includePrivate : Bool := false
  /-- Keep doc comments. -/
  loadDocs : Bool := true
  /-- Tags for which build constraints hold. -/
  buildTags : List String := []
deriving DecidableEq, Repr, Inhabited

namespace TypeDecl

/-- The type without doc comments. -/
def withoutDocs (decl : TypeDecl) : TypeDecl :=
  { decl with
    doc := none
    shape := match decl.shape with
      | .struct fields => .struct (fields.map fun field => { field with doc := none })
      | shape => shape }

end TypeDecl

namespace SourceFile

/-- The file without doc comments. -/
def withoutDocs (file : SourceFile) : SourceFile :=
  let ofFunc (decl : FuncDecl) : FuncDecl := { decl with doc := none }
  let ofValue (decl : ValueDecl) : ValueDecl := { decl with doc := none }
  { file with
    types := file.types.mapValues TypeDecl.withoutDocs
    functions := file.functions.mapValues ofFunc
    methods := file.methods.map ofFunc
    vars := file.vars.mapValues ofValue
    consts := file.consts.mapValues ofValue
    blanks := file.blanks.map ofValue }

/-- Every declaration is in order and inside the text; blank ones are not looked at. -/
def isContained (file : SourceFile) : Bool :=
  let extents := file.types.values.map (·.extent) ++ file.functions.values.map (·.extent) ++
    file.methods.map (·.extent) ++ file.vars.values.map (·.extent) ++
    file.consts.values.map (·.extent)
  extents.all fun extent => extent.start ≤ extent.stop && extent.stop ≤ file.content.utf8ByteSize

end SourceFile

namespace Module

/-- Drop what the options do not keep. -/
def restrict (module : Module) (options : LoadOptions) : Module :=
  { module with
    packages := module.packages.mapValues fun package =>
      let files := package.files.filter fun file => options.includeTests || !file.isTest
      { package with
        files := if options.loadDocs then files else files.map SourceFile.withoutDocs } }

/-- The first flaw of a module that was read from a snapshot: packages must stand under their own
paths, files must stay inside the root, and declarations inside their text. -/
def snapshotFlaw? (module : Module) : Option ModelFlaw :=
  match module.packages.entries.find? fun (key, package) => key != package.path with
  | some (key, package) => some (.wrongKey key package.path)
  | none =>
    (module.files.map Prod.snd).findSome? fun file =>
      if !isModuleRelative file.path then some (.outsideRoot file.path)
      else if !file.isContained then some (.outsideText file.path)
      else none

/-- Load a module from the text of a snapshot. -/
def ofSnapshot (text : String) (options : LoadOptions) : Except Error Module :=
  match (Json.read? text).bind Snapshot.module? with
  | none => .error .json
  | some module =>
    match module.snapshotFlaw? with
    | some flaw => .error (.invalidModel flaw)
    | none => .ok (module.restrict options)

end Module

/-- Directories that are never looked into. -/
def skippedDirectories : List String := ["vendor", "testdata", "node_modules"]

/-- The directory is not looked into. -/
def isSkippedDirectory (name : String) : Bool :=
  startsWith name "." || startsWith name "_" || skippedDirectories.contains name

/-- The name is that of a source file. -/
def isSourceName (name : String) : Bool := endsWith name ".go" && name != ".go"

/-- Text of a file; refused if it is not text. -/
def FileContent.read (content : FileContent) (path : String) : Except Error String :=
  match content with
  | .text content => .ok content
  | .binary => .error (.io (.unreadable path))

/-- The file is a source file that a load looks at. -/
def isLoaded (options : LoadOptions) (path : TreePath) : Bool :=
  !path.dropLast.any isSkippedDirectory &&
    match path.getLast? with
    | some name => isSourceName name && (options.includeTests || !endsWith name testSuffix)
    | none => false

/-- Paths and texts of the source files whose build constraints hold. -/
def loadedSources (options : LoadOptions) (files : List (TreePath × FileContent)) :
    Except Error (List (String × String)) := do
  let read ← (files.filter fun entry => isLoaded options entry.1).mapM fun (path, content) => do
    let relative := "/".intercalate path
    let text ← content.read relative
    return (relative, text)
  return read.filter fun (_, text) => buildSatisfied text options.buildTags

/-- Name of the file that declares a module's path. -/
def moduleFileName : String := "go.mod"

/-- Name of a module whose directory has none. -/
def namelessModule : String := "main"

/-- Path of the module in a directory: the one asked for, the one that the directory's module file
declares, or the directory's name. -/
def declaredModulePath (workspace : Workspace) (root : String) (asked : Option String) :
    Except Error String := do
  match asked with
  | some path => return path
  | none =>
    let declared ← match workspace.find? (joinPath root moduleFileName) with
      | some content => (content.read moduleFileName).map modulePath?
      | none => .ok none
    return declared.getD ((finalName? root).getD namelessModule)

/-- Load a module from a directory. -/
def Module.ofDirectory (workspace : Workspace) (root : String) (asked : Option String)
    (options : LoadOptions) : Except Error Module := do
  match workspace.directory? root with
  | none => throw (.fileNotFound root)
  | some directory =>
    let path ← declaredModulePath workspace root asked
    let sources ← loadedSources options (workspace.tree.below directory)
    let module ← Module.ofSources path sources
    return module.restrict options

end GoRefactor
