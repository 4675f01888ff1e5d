import GoRefactor.Go.File
import GoRefactor.Text.Split

/-!
# Modules

A module is a set of packages by import path, and a package a list of files. Files are found by
their path; nothing points back at its owner. Every change raises the module's revision.
-/

namespace GoRefactor

/-- The path is relative to a module's root and stays inside it: forward slashes only, and every
segment a plain name. -/
def isModuleRelative (path : String) : Bool :=
  !path.isEmpty && !(path.toList.any fun c => c == '\\' || c == ':') &&
    (splitText '/' path).all fun segment => segment != "" && segment != "." && segment != ".."

/-- The directory part of a path; empty at the root. -/
def directoryOf (path : String) : String :=
  match splitLast? '/' path with
  | some (directory, _) => directory
  | none => ""

/-- Files that share a directory and a package clause. -/
structure Package where
  /-- Import path. -/
  path : String
  /-- Name in the package clause. -/
  name : String
  /-- The files. -/
  files : List SourceFile
  /-- Some file changed since loading. -/
  modified : Bool
deriving Inhabited

namespace Package

/-- The first file with a path. -/
def file? (package : Package) (path : String) : Option SourceFile :=
  package.files.find? fun file => file.path == path

/-- Directory of the package's files; empty at the root. -/
def directory (package : Package) : String :=
  match package.files.head? with
  | some file => directoryOf file.path
  | none => ""

/-- Some file declares the name at top level. -/
def declares (package : Package) (name : String) : Bool :=
  package.files.any fun file => file.declares name

/-- Some file has the path. -/
def owns (package : Package) (path : String) : Bool :=
  package.files.any fun file => file.path == path

end Package

/-- Change the first member that passes a test. -/
def modifyFirst {α : Type} (test : α → Bool) (change : α → α) : List α → List α
  | [] => []
  | head :: rest => if test head then change head :: rest else head :: modifyFirst test change rest

/-- Packages by import path. -/
structure Module where
  /-- Import path that those of the packages start with. -/
  path : String
  /-- Packages by import path. -/
  packages : NameMap Package
  /-- Raised by every change. -/
  revision : Nat
deriving Inhabited

namespace Module

/-- Packages by increasing import path. -/
def packageList (module : Module) : List Package := module.packages.values

/-- The package with an import path. -/
def package? (module : Module) (path : String) : Option Package := module.packages.get? path

/-- The package with an import path, or the only one with a name. -/
def findPackage? (module : Module) (pathOrName : String) : Option Package :=
  match module.package? pathOrName with
  | some package => some package
  | none =>
    match module.packageList.filter fun package => package.name == pathOrName with
    | [package] => some package
    | _ => none

/-- Every file with its package, by increasing import path. -/
def files (module : Module) : List (Package × SourceFile) :=
  module.packageList.flatMap fun package => package.files.map fun file => (package, file)

/-- The first file with a path. -/
def file? (module : Module) (path : String) : Option SourceFile :=
  (module.files.map Prod.snd).find? fun file => file.path == path

/-- The first package that owns a file with the path. -/
def packageOfFile? (module : Module) (path : String) : Option Package :=
  module.packageList.find? fun package => package.owns path

/-- Number of files. -/
def fileCount (module : Module) : Nat :=
  module.files.length

/-- Record a change. Revisions are 64-bit words. -/
def touch (module : Module) : Module :=
  { module with revision := (module.revision + 1) % UInt64.size }

/-- Change the first file with a path. -/
def updateFile (module : Module) (path : String) (change : SourceFile → SourceFile) : Module :=
  match module.packages.entries.find? fun entry => entry.2.owns path with
  | none => module
  | some (key, _) =>
    { module with
      packages := module.packages.modify key fun package =>
        { package with
          files := modifyFirst (fun file => file.path == path) change package.files } }

/-- Flag the first file with a path, in every package that owns one, and those packages. -/
def markModified (module : Module) (path : String) : Module :=
  { module with
    packages := module.packages.mapValues fun package =>
      if package.owns path then
        { package with
          files := modifyFirst (fun file => file.path == path)
            (fun file => { file with modified := true }) package.files
          modified := true }
      else package }

/-- Files that changed since loading. -/
def modifiedFiles (module : Module) : List SourceFile :=
  (module.files.map Prod.snd).filter fun file => file.modified

end Module

end GoRefactor
