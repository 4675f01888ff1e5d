import GoRefactor.Error
import GoRefactor.Module.Basic

/-!
# Modules from source text

Files are scanned and put into packages by directory: a file in `auth` belongs to the package
whose import path is the module's, a slash and `auth`; files at the root belong to the module's
own path.
-/

namespace GoRefactor

/-- Scan a file, with its path in the error. -/
def scanFile (path content : String) : Except Error SourceFile :=
  match SourceFile.parse path content with
  | .ok file => .ok file
  | .error (line, flaw) => .error (.parse path line flaw)

/-- Text without the given ending, as often as it is there. The bound on rounds is the length of
the text. -/
def dropEndings (ending : List Char) : Nat → List Char → List Char
  | 0, cs => cs
  | rounds + 1, cs =>
    if ending.isSuffixOf cs then dropEndings ending rounds (cs.take (cs.length - ending.length))
    else cs

/-- A package's name without the endings that mark external tests. -/
def dropTestEndings (name : String) : String :=
  String.ofList (dropEndings "_test".toList name.length name.toList)

namespace Module

/-- Add a file to the files of its directory. -/
def addToDirectory (directories : NameMap (List SourceFile)) (file : SourceFile) :
    NameMap (List SourceFile) :=
  let directory := directoryOf file.path
  directories.insert directory ((directories.get? directory).getD [] ++ [file])

/-- Scan files in order and sort them into directories. Paths must stay inside the module, and
none may come twice. -/
def scanInto (directories : NameMap (List SourceFile)) (seen : List String) :
    List (String × String) → Except Error (NameMap (List SourceFile))
  | [] => .ok directories
  | (path, content) :: rest =>
    if !isModuleRelative path then .error (.invalidModel (.outsideRoot path))
    else if seen.contains path then .error (.invalidModel (.duplicatePath path))
    else
      match scanFile path content with
      | .error error => .error error
      | .ok file => scanInto (addToDirectory directories file) (path :: seen) rest

/-- Name of the package in a directory: the one that its files share, test files apart unless
there is nothing else. -/
def packageName (directory : String) (files : List SourceFile) : Except Error String :=
  let names := (files.filter fun file => !file.isTest).map (·.packageName)
  let first := names.head?.getD ((files.head?.map (·.packageName)).getD "")
  match names.find? (· != first) with
  | some other => .error (.invalidModel (.mixedPackages directory first other))
  | none => .ok (dropTestEndings first)

/-- Import path of the package in a directory. -/
def importPath (modulePath directory : String) : String :=
  if directory.isEmpty then modulePath else modulePath ++ "/" ++ directory

/-- Packages of the directories, by increasing directory. -/
def assemble (modulePath : String) (packages : NameMap Package) :
    List (String × List SourceFile) → Except Error (NameMap Package)
  | [] => .ok packages
  | (directory, files) :: rest =>
    match packageName directory files with
    | .error error => .error error
    | .ok name =>
      let path := importPath modulePath directory
      assemble modulePath (packages.insert path ⟨path, name, files, false⟩) rest

/-- Build a module from paths and texts. -/
def ofSources (modulePath : String) (sources : List (String × String)) : Except Error Module :=
  match scanInto ∅ [] sources with
  | .error error => .error error
  | .ok directories =>
    match assemble modulePath ∅ directories.entries with
    | .error error => .error error
    | .ok packages => .ok ⟨modulePath, packages, 0⟩

end Module

end GoRefactor
