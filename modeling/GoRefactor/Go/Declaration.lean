import GoRefactor.Go.Syntax

/-!
# Declarations

Imports, types, functions and values as a file declares them.
-/

namespace GoRefactor

/-- An imported package. -/
structure Import where
  /-- Path of the package, without quotes. -/
  path : String
  /-- Where the quoted path stands. -/
  pathSpan : Span
  /-- Explicit name: an alias, a dot or an underscore. -/
  aliasName : Option String
  /-- Where the explicit name stands. -/
  aliasSpan : Option Span
deriving DecidableEq, Repr, Inhabited

/-- The part of a path past its last slash. -/
def lastSegment (path : String) : String :=
  String.ofList ((path.toList.reverse.takeWhile (· != '/')).reverse)

namespace Import

/-- Name that the import binds in its file. -/
def localName (decl : Import) : String := decl.aliasName.getD (lastSegment decl.path)

/-- The exported names of the package join the file's scope. -/
def isDot (decl : Import) : Bool := decl.aliasName == some "."

/-- The package is imported for its effects only. -/
def isBlank (decl : Import) : Bool := decl.aliasName == some "_"

/-- Where the import is named: at its alias, else at its path. -/
def nameSpan (decl : Import) : Span := decl.aliasSpan.getD decl.pathSpan

end Import

/-- A field of a struct. -/
structure Field where
  /-- Name; of an embedded field, the name of its type. -/
  name : String
  /-- Where the name stands. -/
  nameSpan : Span
  /-- Where the type stands. -/
  typeSpan : Span
  /-- The type. -/
  typeNode : Node
  /-- The field has no name of its own. -/
  embedded : Bool
  /-- Doc comment. -/
  doc : Option String
deriving Repr, Inhabited

/-- A method that an interface asks for. -/
structure InterfaceMethod where
  /-- Name of the method. -/
  name : String
  /-- Where the name stands. -/
  nameSpan : Span
  /-- Where parameters and results stand. -/
  signatureSpan : Span
  /-- Parameters. -/
  params : List Param
  /-- Results. -/
  results : List Param
deriving Repr, Inhabited

/-- Shape of a declared type. -/
inductive TypeShape where
  /-- A struct. -/
  | struct (fields : List Field)
  /-- An interface with its methods and embedded types. -/
  | interface (methods : List InterfaceMethod) (embeds : List Node)
  /-- A name for another type. -/
  | other (underlying : Node)
deriving Repr, Inhabited

/-- A declared type. -/
structure TypeDecl where
  /-- Name of the type. -/
  name : String
  /-- Where the name stands. -/
  nameSpan : Span
  /-- The whole declaration. -/
  extent : Span
  /-- What the type is. -/
  shape : TypeShape
  /-- Doc comment. -/
  doc : Option String
deriving Repr, Inhabited

namespace TypeDecl

/-- The type is a struct. -/
def isStruct (decl : TypeDecl) : Bool :=
  match decl.shape with
  | .struct _ => true
  | _ => false

/-- The type is an interface. -/
def isInterface (decl : TypeDecl) : Bool :=
  match decl.shape with
  | .interface _ _ => true
  | _ => false

/-- Fields of a struct; none for other types. -/
def fields (decl : TypeDecl) : List Field :=
  match decl.shape with
  | .struct fields => fields
  | _ => []

/-- Methods of an interface; none for other types. -/
def interfaceMethods (decl : TypeDecl) : List InterfaceMethod :=
  match decl.shape with
  | .interface methods _ => methods
  | _ => []

end TypeDecl

/-- A function, or a method when it has a receiver. -/
structure FuncDecl where
  /-- Name of the function. -/
  name : String
  /-- Where the name stands. -/
  nameSpan : Span
  /-- The whole declaration. -/
  extent : Span
  /-- Receiver of a method. -/
  receiver : Option Param
  /-- Parameters. -/
  params : List Param
  /-- Results. -/
  results : List Param
  /-- Where parameters and results stand. -/
  signatureSpan : Span
  /-- Body; left out for functions defined elsewhere. -/
  body : Option Node
  /-- Doc comment. -/
  doc : Option String
deriving Repr, Inhabited

namespace FuncDecl

/-- The function has a receiver. -/
def isMethod (decl : FuncDecl) : Bool := decl.receiver.isSome

/-- Name of the receiver's type, pointers and type arguments stripped. -/
def receiverTypeName (decl : FuncDecl) : Option String :=
  decl.receiver.bind fun receiver => receiver.typeNode.baseTypeName

/-- Receiver, parameters and results, in order. -/
def allParams (decl : FuncDecl) : List Param :=
  decl.receiver.toList ++ decl.params ++ decl.results

end FuncDecl

/-- A variable or constant. -/
structure ValueDecl where
  /-- Name of the value. -/
  name : String
  /-- Where the name stands. -/
  nameSpan : Span
  /-- The specification that declares it. -/
  extent : Span
  /-- Where the type stands. -/
  typeSpan : Option Span
  /-- The type; kept with the first of the names that share it. -/
  typeNode : Option Node
  /-- The initial value. -/
  value : Option Node
  /-- Doc comment. -/
  doc : Option String
deriving Repr, Inhabited

end GoRefactor
