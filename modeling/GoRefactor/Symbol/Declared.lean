import GoRefactor.Go.Identifier
import GoRefactor.Module.Basic
import GoRefactor.Symbol.Collect

/-!
# What packages declare

Package-level declarations of a module by package and name, and how a file reaches them: in its
own package, through a dot import, or behind the name of an import.
-/

namespace GoRefactor

/-- A package-level declaration. -/
inductive Declaration where
  /-- A type. -/
  | type (decl : TypeDecl)
  /-- A function. -/
  | func (decl : FuncDecl)
  /-- A variable or constant. -/
  | value (decl : ValueDecl)
deriving Inhabited

/-- A declaration with the file and package that hold it. -/
structure Site where
  /-- Import path of the package. -/
  package : String
  /-- The file. -/
  file : SourceFile
  /-- The declaration. -/
  decl : Declaration
deriving Inhabited

namespace Site

/-- Where the declared name stands. -/
def nameSpan (site : Site) : Span :=
  match site.decl with
  | .type decl => decl.nameSpan
  | .func decl => decl.nameSpan
  | .value decl => decl.nameSpan

/-- The declared type, if it is one. -/
def typeDecl? (site : Site) : Option TypeDecl :=
  match site.decl with
  | .type decl => some decl
  | _ => none

end Site

/-- What one package declares. -/
structure PackageScope where
  /-- Types, functions and values by name. -/
  names : NameMap Site
  /-- Methods with their files, in order. -/
  methods : List (SourceFile × FuncDecl)
deriving Inhabited

namespace PackageScope

/-- Declarations of one file with their names: types, functions, variables, then constants. -/
def fileSites (package : String) (file : SourceFile) : List (String × Site) :=
  file.types.values.map (fun decl => (decl.name, ⟨package, file, .type decl⟩)) ++
  file.functions.values.map (fun decl => (decl.name, ⟨package, file, .func decl⟩)) ++
  file.vars.values.map (fun decl => (decl.name, ⟨package, file, .value decl⟩)) ++
  file.consts.values.map (fun decl => (decl.name, ⟨package, file, .value decl⟩))

/-- Declarations of the retained files of a package. Of two with one name the later counts. -/
def ofPackage (options : IndexOptions) (package : Package) : PackageScope :=
  let files := package.files.filter options.retainsFile
  { names := .ofList (files.flatMap (fileSites package.path))
    methods := files.flatMap fun file => file.methods.map fun method => (file, method) }

/-- The first method with a name on a type. -/
def method? (scope : PackageScope) (typeName name : String) : Option (SourceFile × FuncDecl) :=
  scope.methods.find? fun (_, method) =>
    method.receiverTypeName == some typeName && method.name == name

end PackageScope

/-- What all packages of a module declare. -/
structure ModuleScope where
  /-- Declarations by import path. -/
  packages : NameMap PackageScope
deriving Inhabited

/-- What a name before a dot stands for in a file. -/
inductive Qualifier where
  /-- A package of the module. -/
  | package (path : String)
  /-- A package from elsewhere. -/
  | external
  /-- No import. -/
  | notImport
deriving DecidableEq, Repr, Inhabited

namespace ModuleScope

/-- Declarations of the retained files of a module. -/
def ofModule (options : IndexOptions) (module : Module) : ModuleScope :=
  ⟨.ofList (module.packageList.map fun package =>
    (package.path, PackageScope.ofPackage options package))⟩

/-- A declaration of a package. -/
def lookup (scope : ModuleScope) (package name : String) : Option Site :=
  (scope.packages.get? package).bind fun decls => decls.names.get? name

/-- A declaration reached through a dot import; only exported names are. -/
def lookupDot (scope : ModuleScope) (file : SourceFile) (name : String) : Option Site :=
  if isExported name then
    (file.imports.filter Import.isDot).findSome? fun decl => scope.lookup decl.path name
  else none

/-- A declaration as a file of a package sees it: in the package, then through dot imports. -/
def lookupInFile (scope : ModuleScope) (package : String) (file : SourceFile) (name : String) :
    Option Site :=
  (scope.lookup package name).or (scope.lookupDot file name)

/-- What a name before a dot stands for. -/
def qualifier (scope : ModuleScope) (file : SourceFile) (name : String) : Qualifier :=
  match file.importNamed name with
  | some decl =>
    if decl.isDot || decl.isBlank then .notImport
    else if scope.packages.contains decl.path then .package decl.path
    else .external
  | none => .notImport

end ModuleScope

end GoRefactor
