import GoRefactor.Symbol.Declared

/-!
# Types of expressions

To say which member a selector means, its base needs a type. This is not a type checker: common
shapes of expressions have a type here, and all others have none. Pointers are transparent.
Chains of variables, calls and embedded types are followed for nine steps.
-/

namespace GoRefactor

/-- Types as far as members need them. -/
inductive GoType where
  /-- A type declared in the module. -/
  | named (package name : String)
  /-- A slice, array or variadic parameter. -/
  | slice (element : GoType)
  /-- A map; key and value may be unknown. -/
  | map (key value : Option GoType)
  /-- A channel. -/
  | chan (element : GoType)
deriving Inhabited, Repr

namespace GoType

/-- Package and name of a declared type. -/
def name? : GoType → Option (String × String)
  | .named package name => some (package, name)
  | _ => none

/-- Type of an indexed element. -/
def indexed : GoType → Option GoType
  | .slice element => some element
  | .map _ value => value
  | _ => none

/-- Types of the two variables of an iteration. -/
def iterated : GoType → Option GoType × Option GoType
  | .slice element => (none, some element)
  | .map key value => (key, value)
  | .chan element => (some element, none)
  | .named _ _ => (none, none)

/-- Type of the keys of a composite literal whose elements may leave their type out. -/
def literalKey : GoType → Option GoType
  | .map key _ => key
  | _ => none

/-- Type of the elements of such a literal. -/
def literalElement : GoType → Option GoType
  | .slice element => some element
  | .map _ value => value
  | _ => none

end GoType

/-- A name bound in a function. -/
structure Local where
  /-- Symbol of a parameter. -/
  symbol : Option Nat
  /-- Its type. -/
  type : Option GoType
deriving Inhabited

/-- Names bound around an expression: the innermost scope first, in each the latest first. -/
abbrev Scopes := List (List (String × Local))

/-- What a name is bound to. -/
def Scopes.find? (scopes : Scopes) (name : String) : Option Local :=
  List.findSome? (fun frame => frame.lookup name) scopes

/-- Where an expression stands. -/
structure Place where
  /-- Import path of the package. -/
  package : String
  /-- The file. -/
  file : SourceFile
  /-- Names bound there. -/
  scopes : Scopes := []

/-- A field or method of a type. -/
structure Member where
  /-- Path of the file that declares it. -/
  file : String
  /-- Where its name stands. -/
  nameSpan : Span
  /-- Type of a field. -/
  type : Option GoType := none
  /-- Types of the results of a method. -/
  results : List (Option GoType) := []

/-- How many steps an inference follows. -/
def inferenceSteps : Nat := 9

namespace ModuleScope

mutual

/-- The type that a type expression denotes in a file of a package. -/
def typeOf (scope : ModuleScope) (package : String) (file : SourceFile) : Node → Option GoType
  | .ident name _ =>
    (package :: (file.imports.filter Import.isDot).map (·.path)).findSome? fun path =>
      ((scope.lookup path name).bind Site.typeDecl?).map fun decl => .named path decl.name
  | .selector (.ident qualifier _) name _ =>
    match scope.qualifier file qualifier with
    | .package path =>
      ((scope.lookup path name).bind Site.typeDecl?).map fun decl => .named path decl.name
    | _ => none
  | .unary .deref operand => scope.typeOf package file operand
  | .index base _ => scope.typeOf package file base
  | .typeExpr form parts =>
    let types := scope.typesOf package file parts
    match form with
    | .slice | .array | .variadic => types.getLast?.join.map .slice
    | .map =>
      match types[0]?.join, types[1]?.join with
      | none, none => none
      | key, value => some (.map key value)
    | .chan => types.head?.join.map .chan
    | _ => none
  | _ => none

/-- The types that type expressions denote. -/
def typesOf (scope : ModuleScope) (package : String) (file : SourceFile) :
    List Node → List (Option GoType)
  | [] => []
  | head :: rest => scope.typeOf package file head :: scope.typesOf package file rest

end

/-- The types of parameters. -/
def paramTypes (scope : ModuleScope) (package : String) (file : SourceFile)
    (params : List Param) : List (Option GoType) :=
  params.map fun param => scope.typeOf package file param.typeNode

/-- What the fields of a struct say about a member name. -/
inductive FieldSearch where
  /-- The name is settled. -/
  | settled (member : Option Member)
  /-- It is left to the embedded types. -/
  | promoted (embedded : List GoType)

/-- Look a member name up among the fields of a struct; `embedded` holds the embedded types met
so far, the last one first. A name of an embedded field stands for the embedded type. -/
def searchFields (scope : ModuleScope) (package : String) (file : SourceFile) (name : String)
    (embedded : List GoType) : List Field → FieldSearch
  | [] => .promoted embedded.reverse
  | field :: rest =>
    let type := scope.typeOf package file field.typeNode
    if field.embedded then
      if field.name == name then
        .settled ((type.bind GoType.name?).bind fun (path, typeName) =>
          (scope.lookup path typeName).map fun site =>
            { file := site.file.path, nameSpan := site.nameSpan, type })
      else scope.searchFields package file name (type.toList ++ embedded) rest
    else if field.name == name then
      .settled (some { file := file.path, nameSpan := field.nameSpan, type })
    else scope.searchFields package file name embedded rest

/-- Look a member name up in the shape of a type. -/
def searchShape (scope : ModuleScope) (package : String) (file : SourceFile) (name : String) :
    TypeShape → FieldSearch
  | .struct fields => scope.searchFields package file name [] fields
  | .interface methods embeds =>
    match methods.find? fun method => method.name == name with
    | some method =>
      .settled (some {
        file := file.path
        nameSpan := method.nameSpan
        results := scope.paramTypes package file method.results })
    | none => .promoted ((scope.typesOf package file embeds).filterMap id)
  | .other _ => .promoted []

/-- A field or method of a declared type, also one promoted from an embedded type. Methods come
before fields, own members before promoted ones. -/
def memberWithin (scope : ModuleScope) : Nat → String → String → String → Option Member
  | 0, _, _, _ => none
  | fuel + 1, package, typeName, name =>
    match scope.packages.get? package with
    | none => none
    | some decls =>
      match decls.names.get? typeName with
      | none => none
      | some site =>
        match site.decl with
        | .type decl =>
          match decls.method? typeName name with
          | some (file, method) =>
            some {
              file := file.path
              nameSpan := method.nameSpan
              results := scope.paramTypes package file method.results }
          | none =>
            match scope.searchShape package site.file name decl.shape with
            | .settled member => member
            | .promoted embedded =>
              (embedded.filterMap GoType.name?).findSome? fun (path, inner) =>
                scope.memberWithin fuel path inner name
        | _ => none

/-- A field or method of a declared type, also one promoted from an embedded type. -/
def member (scope : ModuleScope) (package typeName name : String) : Option Member :=
  scope.memberWithin inferenceSteps package typeName name

/-- Types of the results of calling a package-level declaration; a type is a conversion. -/
def siteResults (scope : ModuleScope) (site : Site) : List (Option GoType) :=
  match site.decl with
  | .func decl => scope.paramTypes site.package site.file decl.results
  | .type decl => [some (.named site.package decl.name)]
  | .value _ => []

/-- The package that a selector's base names. -/
def packageNamed (scope : ModuleScope) (place : Place) : Node → Option String
  | .ident qualifier _ =>
    if (place.scopes.find? qualifier).isSome then none
    else
      match scope.qualifier place.file qualifier with
      | .package path => some path
      | _ => none
  | _ => none

/-- Declared type of a package-level value, else the type of its initial value, which is found by
`infer`. -/
def siteType (scope : ModuleScope) (infer : Place → Node → Option GoType) (site : Site) :
    Option GoType :=
  match site.decl with
  | .value decl =>
    match decl.typeNode with
    | some type => scope.typeOf site.package site.file type
    | none => decl.value.bind (infer { package := site.package, file := site.file })
  | _ => none

mutual

/-- Type of a value expression, followed for some steps. -/
def exprTypeWithin (scope : ModuleScope) : Nat → Place → Node → Option GoType
  | 0, _, _ => none
  | fuel + 1, place, expr =>
    match expr with
    | .ident name _ =>
      match place.scopes.find? name with
      | some bound => bound.type
      | none =>
        (scope.lookupInFile place.package place.file name).bind
          (scope.siteType (scope.exprTypeWithin fuel))
    | .selector base name _ =>
      match scope.packageNamed place base with
      | some path => (scope.lookup path name).bind (scope.siteType (scope.exprTypeWithin fuel))
      | none =>
        ((scope.exprTypeWithin fuel place base).bind GoType.name?).bind fun (path, typeName) =>
          (scope.member path typeName name).bind Member.type
    | .call func args => (scope.callResultsWithin fuel place func args).head?.join
    | .composite (some type) _ => scope.typeOf place.package place.file type
    | .unary op operand =>
      (scope.exprTypeWithin fuel place operand).map fun type =>
        match op, type with
        | .other, .chan element => element
        | _, type => type
    | .index base _ => (scope.exprTypeWithin fuel place base).bind GoType.indexed
    | .typeAssert _ (some type) => scope.typeOf place.package place.file type
    | _ => none

/-- Types of the results of a call: of a function, a method, a conversion or a builtin. -/
def callResultsWithin (scope : ModuleScope) :
    Nat → Place → Node → List Node → List (Option GoType)
  | 0, _, _, _ => []
  | fuel + 1, place, func, args =>
    match func with
    | .ident name _ =>
      if (place.scopes.find? name).isSome then []
      else
        match scope.lookupInFile place.package place.file name with
        | some site => scope.siteResults site
        | none =>
          if name == "new" || name == "make" then
            [args.head?.bind (scope.typeOf place.package place.file)]
          else if name == "append" then
            [args.head?.bind (scope.exprTypeWithin fuel place)]
          else []
    | .selector base name _ =>
      match scope.packageNamed place base with
      | some path =>
        match scope.lookup path name with
        | some site => scope.siteResults site
        | none => []
      | none =>
        match (scope.exprTypeWithin fuel place base).bind GoType.name? with
        | some (path, typeName) => ((scope.member path typeName name).map Member.results).getD []
        | none => []
    | .funcLit _ results _ => scope.paramTypes place.package place.file results
    | other => [scope.typeOf place.package place.file other]

end

/-- Type of a value expression. -/
def exprType (scope : ModuleScope) (place : Place) (expr : Node) : Option GoType :=
  scope.exprTypeWithin inferenceSteps place expr

/-- Types of the results of a call. -/
def callResults (scope : ModuleScope) (place : Place) (func : Node) (args : List Node) :
    List (Option GoType) :=
  scope.callResultsWithin inferenceSteps place func args

end ModuleScope

end GoRefactor
