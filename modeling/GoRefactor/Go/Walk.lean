import GoRefactor.Go.File

/-!
# Walking over spans

One traversal visits every span of a file, in a fixed order, and rebuilds the file from what the
visitor answers. Where a span stands next to the name it addresses, the visitor first sees that
name together with the span as it was.
-/

namespace GoRefactor

/-- What to do with spans and with the names they address. -/
structure SpanVisitor (m : Type → Type) where
  /-- The span to put in place of a span. -/
  span : Span → m Span
  /-- The name to put in place of a name that a span addresses. -/
  name : String → Span → m String

namespace SpanVisitor

variable {m : Type → Type} [Monad m]

/-- Visit a name and its span. -/
def named (visitor : SpanVisitor m) (name : String) (span : Span) : m (String × Span) := do
  let name' ← visitor.name name span
  let span' ← visitor.span span
  return (name', span')

/-- Visit a binding. -/
def binding (visitor : SpanVisitor m) (binding : Binding) : m Binding := do
  let (name, span) ← visitor.named binding.name binding.span
  return ⟨name, span⟩

/-- Visit an optional name and span; both stay as they are unless both are there. -/
def optionalName (visitor : SpanVisitor m) (name : Option String) (span : Option Span) :
    m (Option String × Option Span) :=
  match name, span with
  | some name, some span => do
    let (name', span') ← visitor.named name span
    return (some name', some span')
  | _, _ => return (name, span)

/-- Visit a value if it is there. -/
def option {α : Type} (visit : α → m α) : Option α → m (Option α)
  | some value => some <$> visit value
  | none => return none

mutual

/-- Visit a tree. -/
def node (visitor : SpanVisitor m) : Node → m Node
  | .ident name span => do
    let (name, span) ← visitor.named name span
    return .ident name span
  | .selector base name span => do
    let base ← visitor.node base
    let (name, span) ← visitor.named name span
    return .selector base name span
  | .call func args => do
    let func ← visitor.node func
    let args ← visitor.nodes args
    return .call func args
  | .composite type elems => do
    let type ← visitor.optionalNode type
    let elems ← visitor.nodes elems
    return .composite type elems
  | .keyValue key value => do
    let key ← visitor.node key
    let value ← visitor.node value
    return .keyValue key value
  | .unary op operand => do
    let operand ← visitor.node operand
    return .unary op operand
  | .binary left right => do
    let left ← visitor.node left
    let right ← visitor.node right
    return .binary left right
  | .index base indices => do
    let base ← visitor.node base
    let indices ← visitor.nodes indices
    return .index base indices
  | .typeAssert base type => do
    let base ← visitor.node base
    let type ← visitor.optionalNode type
    return .typeAssert base type
  | .typeExpr form parts => do
    let parts ← visitor.nodes parts
    return .typeExpr form parts
  | .literal span => do
    let span ← visitor.span span
    return .literal span
  | .funcLit params results body => do
    let params ← visitor.params params
    let results ← visitor.params results
    let body ← visitor.node body
    return .funcLit params results body
  | .block span stmts => do
    let span ← visitor.span span
    let stmts ← visitor.nodes stmts
    return .block span stmts
  | .define names type values => do
    let names ← names.mapM visitor.binding
    let type ← visitor.optionalNode type
    let values ← visitor.nodes values
    return .define names type values
  | .assign targets values => do
    let targets ← visitor.nodes targets
    let values ← visitor.nodes values
    return .assign targets values
  | .branch header body alt => do
    let header ← visitor.nodes header
    let body ← visitor.node body
    let alt ← visitor.optionalNode alt
    return .branch header body alt
  | .list items => do
    let items ← visitor.nodes items
    return .list items

/-- Visit trees in order. -/
def nodes (visitor : SpanVisitor m) : List Node → m (List Node)
  | [] => return []
  | head :: rest => do
    let head ← visitor.node head
    let rest ← visitor.nodes rest
    return head :: rest

/-- Visit a tree if it is there. -/
def optionalNode (visitor : SpanVisitor m) : Option Node → m (Option Node)
  | none => return none
  | some inner => do
    let inner ← visitor.node inner
    return some inner

/-- Visit a parameter: its name, where its type stands, and the type. -/
def param (visitor : SpanVisitor m) : Param → m Param
  | ⟨name, nameSpan, typeSpan, typeNode⟩ => do
    let (name, nameSpan) ← visitor.optionalName name nameSpan
    let typeSpan ← visitor.span typeSpan
    let typeNode ← visitor.node typeNode
    return ⟨name, nameSpan, typeSpan, typeNode⟩

/-- Visit parameters in order. -/
def params (visitor : SpanVisitor m) : List Param → m (List Param)
  | [] => return []
  | head :: rest => do
    let head ← visitor.param head
    let rest ← visitor.params rest
    return head :: rest

end

/-- Visit an import: its path, then its alias. -/
def importDecl (visitor : SpanVisitor m) (decl : Import) : m Import := do
  let pathSpan ← visitor.span decl.pathSpan
  let (aliasName, aliasSpan) ← visitor.optionalName decl.aliasName decl.aliasSpan
  return { decl with pathSpan, aliasName, aliasSpan }

/-- Visit a field. -/
def field (visitor : SpanVisitor m) (decl : Field) : m Field := do
  let (name, nameSpan) ← visitor.named decl.name decl.nameSpan
  let typeSpan ← visitor.span decl.typeSpan
  let typeNode ← visitor.node decl.typeNode
  return { decl with name, nameSpan, typeSpan, typeNode }

/-- Visit a method of an interface. -/
def interfaceMethod (visitor : SpanVisitor m) (decl : InterfaceMethod) : m InterfaceMethod := do
  let (name, nameSpan) ← visitor.named decl.name decl.nameSpan
  let signatureSpan ← visitor.span decl.signatureSpan
  let params ← visitor.params decl.params
  let results ← visitor.params decl.results
  return ⟨name, nameSpan, signatureSpan, params, results⟩

/-- Visit the shape of a type. -/
def typeShape (visitor : SpanVisitor m) : TypeShape → m TypeShape
  | .struct fields => do
    let fields ← fields.mapM visitor.field
    return .struct fields
  | .interface methods embeds => do
    let methods ← methods.mapM visitor.interfaceMethod
    let embeds ← visitor.nodes embeds
    return .interface methods embeds
  | .other underlying => do
    let underlying ← visitor.node underlying
    return .other underlying

/-- Visit a declared type. -/
def typeDecl (visitor : SpanVisitor m) (decl : TypeDecl) : m TypeDecl := do
  let (name, nameSpan) ← visitor.named decl.name decl.nameSpan
  let extent ← visitor.span decl.extent
  let shape ← visitor.typeShape decl.shape
  return { decl with name, nameSpan, extent, shape }

/-- Visit a function or method. -/
def funcDecl (visitor : SpanVisitor m) (decl : FuncDecl) : m FuncDecl := do
  let (name, nameSpan) ← visitor.named decl.name decl.nameSpan
  let extent ← visitor.span decl.extent
  let receiver ← option visitor.param decl.receiver
  let params ← visitor.params decl.params
  let results ← visitor.params decl.results
  let signatureSpan ← visitor.span decl.signatureSpan
  let body ← visitor.optionalNode decl.body
  return { decl with name, nameSpan, extent, receiver, params, results, signatureSpan, body }

/-- Visit a variable or constant. -/
def valueDecl (visitor : SpanVisitor m) (decl : ValueDecl) : m ValueDecl := do
  let (name, nameSpan) ← visitor.named decl.name decl.nameSpan
  let extent ← visitor.span decl.extent
  let typeSpan ← option visitor.span decl.typeSpan
  let typeNode ← visitor.optionalNode decl.typeNode
  let value ← visitor.optionalNode decl.value
  return { decl with name, nameSpan, extent, typeSpan, typeNode, value }

end SpanVisitor

namespace NameMap

variable {α : Type}

/-- Pair names with new values. -/
def withValues (map : NameMap α) (values : List α) : NameMap α :=
  ofList (map.keys.zip values)

end NameMap

namespace SpanVisitor

variable {m : Type → Type} [Monad m]

/-- Visit the values of a map by increasing name. -/
def nameMap {α : Type} (visit : α → m α) (map : NameMap α) : m (NameMap α) := do
  let values ← map.values.mapM visit
  return map.withValues values

/-- Visit every span of a file: package clause, imports, types, functions, methods, variables,
constants and blank declarations. -/
def file (visitor : SpanVisitor m) (source : SourceFile) : m SourceFile := do
  let (packageName, packageSpan) ← visitor.named source.packageName source.packageSpan
  let imports ← source.imports.mapM visitor.importDecl
  let types ← nameMap visitor.typeDecl source.types
  let functions ← nameMap visitor.funcDecl source.functions
  let methods ← source.methods.mapM visitor.funcDecl
  let vars ← nameMap visitor.valueDecl source.vars
  let consts ← nameMap visitor.valueDecl source.consts
  let blanks ← source.blanks.mapM visitor.valueDecl
  return { source with
    packageName, packageSpan, imports, types, functions, methods, vars, consts, blanks }

/-- Move every span by a distance. -/
def shift (delta : Int) : SpanVisitor Id where
  span span := span.shifted delta
  name name _ := name

/-- What a walk saw: names with the start of their span and the number of spans before. -/
structure Trace where
  /-- Number of spans visited. -/
  spans : Nat := 0
  /-- Visited names, the last one first. -/
  names : List (String × Nat × Nat) := []

/-- Record names and count spans, changing nothing. -/
def trace : SpanVisitor (StateM Trace) where
  span span := do
    modify fun seen => { seen with spans := seen.spans + 1 }
    return span
  name name span := do
    modify fun seen => { seen with names := (name, span.start, seen.spans) :: seen.names }
    return name

end SpanVisitor

namespace SourceFile

/-- The file with every span moved by a distance. -/
def shifted (file : SourceFile) (delta : Int) : SourceFile := (SpanVisitor.shift delta).file file

/-- Names that a walk offers, each with the start of its span and the number of spans visited
before it, and the number of spans in all. -/
def walkTrace (file : SourceFile) : List (String × Nat × Nat) × Nat :=
  let seen := ((SpanVisitor.trace.file file).run {}).2
  (seen.names.reverse, seen.spans)

end SourceFile

end GoRefactor
