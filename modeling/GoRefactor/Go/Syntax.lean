import GoRefactor.Text.Span

/-!
# Name-use trees

Function bodies, initializers and type expressions reduced to what name resolution needs: every
use of an identifier with its span, the scopes, and the local names that hide outer ones.
-/

namespace GoRefactor

/-- A local name and where it is introduced. -/
structure Binding where
  /-- The name. -/
  name : String
  /-- Where it stands. -/
  span : Span
deriving DecidableEq, Repr, Inhabited

/-- Unary operators that resolution tells apart. -/
inductive UnaryOp where
  /-- Address of an operand. -/
  | ref
  /-- Value behind a pointer, or a pointer type. -/
  | deref
  /-- Iteration over an operand. -/
  | range
  /-- Any other operator. -/
  | other
deriving DecidableEq, Repr, Inhabited

/-- Forms of composite types. -/
inductive TypeForm where
  | slice
  | array
  | map
  | chan
  | func
  | struct
  | interface
  | variadic
deriving DecidableEq, Repr, Inhabited

mutual

/-- A node of a name-use tree. -/
inductive Node where
  /-- A bare identifier. -/
  | ident (name : String) (span : Span)
  /-- A member of a base; the span covers the member's name. -/
  | selector (base : Node) (name : String) (span : Span)
  /-- A call. -/
  | call (func : Node) (args : List Node)
  /-- A composite literal; the type is left out where the enclosing literal gives it. -/
  | composite (type : Option Node) (elems : List Node)
  /-- A keyed element of a composite literal. -/
  | keyValue (key value : Node)
  /-- A unary operator. -/
  | unary (op : UnaryOp) (operand : Node)
  /-- A binary operator. -/
  | binary (left right : Node)
  /-- Indexing, slicing or type arguments. -/
  | index (base : Node) (indices : List Node)
  /-- A type assertion; without a type in a type switch. -/
  | typeAssert (base : Node) (type : Option Node)
  /-- A composite type and the expressions it is made of. -/
  | typeExpr (form : TypeForm) (parts : List Node)
  /-- A literal, or a token that means nothing here. -/
  | literal (span : Span)
  /-- A function literal. -/
  | funcLit (params results : List Param) (body : Node)
  /-- A block of statements. -/
  | block (span : Span) (stmts : List Node)
  /-- A local declaration; its names are visible after it. -/
  | define (names : List Binding) (type : Option Node) (values : List Node)
  /-- An assignment. -/
  | assign (targets values : List Node)
  /-- A statement with a header whose names scope over the body and the alternative. -/
  | branch (header : List Node) (body : Node) (alt : Option Node)
  /-- Expressions in a row: a statement, returned values, a list of cases. -/
  | list (items : List Node)

/-- A receiver, parameter or result. -/
structure Param where
  /-- Its name, if it has one. -/
  name : Option String
  /-- Where the name stands. -/
  nameSpan : Option Span
  /-- Where the type stands. -/
  typeSpan : Span
  /-- The type. -/
  typeNode : Node

end

deriving instance Inhabited for Node, Param
deriving instance Repr for Node, Param

namespace Node

/-- Qualifier and name of a named type, pointers and type arguments stripped. -/
def typeReference : Node → Option (Option String × String)
  | .ident name _ => some (none, name)
  | .selector (.ident qualifier _) name _ => some (some qualifier, name)
  | .unary .deref operand => operand.typeReference
  | .index base _ => base.typeReference
  | _ => none

/-- Name of the type an expression denotes, pointers, qualifier and type arguments stripped. -/
def baseTypeName (node : Node) : Option String := node.typeReference.map Prod.snd

/-- Where the name of an identifier or selector stands. -/
def nameSpan : Node → Option Span
  | .ident _ span => some span
  | .selector _ _ span => some span
  | _ => none

end Node

end GoRefactor
