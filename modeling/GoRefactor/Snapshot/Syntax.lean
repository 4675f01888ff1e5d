import GoRefactor.Go.Syntax
import GoRefactor.Json.Shape

/-!
# Trees as JSON

Nodes are objects tagged by the field `node`. Reading is by recursion on the JSON value, with a
bound on the nesting that the value's own size provides. A tree that stands in a document is held as
a whole, and the trees within it are read from what is held.
-/

namespace GoRefactor.Snapshot

/-- A span with its two ends. -/
def encodeSpan (span : Span) : Json :=
  .object [("start", .nat span.start), ("end", .nat span.stop)]

/-- Read a span. -/
def span? (json : Json) : Option Span := do
  let record ← json.record? false ["start", "end"]
  let start ← record.required? "start" Json.word?
  let stop ← record.required? "end" Json.word?
  return ⟨start, stop⟩

/-- A local name. -/
def encodeBinding (binding : Binding) : Json :=
  .object [("name", .string binding.name), ("span", encodeSpan binding.span)]

/-- Read a local name. -/
def binding? (json : Json) : Option Binding := do
  let record ← json.record? false ["name", "span"]
  let name ← record.required? "name" Json.text?
  let span ← record.required? "span" span?
  return ⟨name, span⟩

/-- Name of a unary operator. -/
def unaryOpName : UnaryOp → String
  | .ref => "ref"
  | .deref => "deref"
  | .range => "range"
  | .other => "other"

/-- All unary operators. -/
def unaryOps : List UnaryOp := [.ref, .deref, .range, .other]

/-- Name of a type's form. -/
def typeFormName : TypeForm → String
  | .slice => "slice"
  | .array => "array"
  | .map => "map"
  | .chan => "chan"
  | .func => "func"
  | .struct => "struct"
  | .interface => "interface"
  | .variadic => "variadic"

/-- All forms of types. -/
def typeForms : List TypeForm :=
  [.slice, .array, .map, .chan, .func, .struct, .interface, .variadic]

/-- Read a value from a fixed list by its name: as a text, or as the only member of an object
whose value is null or empty. -/
def choice? {α : Type} (values : List α) (name : α → String) : Json → Option α
  | .string text => values.find? fun value => name value == text
  | .object [(text, .null)] => values.find? fun value => name value == text
  | .object [(text, .object [])] => values.find? fun value => name value == text
  | _ => none

mutual

/-- A tree. -/
def encodeNode : Node → Json
  | .ident name span =>
    .object [("node", .string "ident"), ("name", .string name), ("span", encodeSpan span)]
  | .selector base name span =>
    .object [("node", .string "selector"), ("base", encodeNode base), ("name", .string name),
      ("span", encodeSpan span)]
  | .call func args =>
    .object [("node", .string "call"), ("func", encodeNode func),
      ("args", .array (encodeNodes args))]
  | .composite type elems =>
    .object [("node", .string "composite"), ("ty", encodeOptionalNode type),
      ("elems", .array (encodeNodes elems))]
  | .keyValue key value =>
    .object [("node", .string "key_value"), ("key", encodeNode key), ("value", encodeNode value)]
  | .unary op operand =>
    .object [("node", .string "unary"), ("op", .string (unaryOpName op)),
      ("operand", encodeNode operand)]
  | .binary left right =>
    .object [("node", .string "binary"), ("lhs", encodeNode left), ("rhs", encodeNode right)]
  | .index base indices =>
    .object [("node", .string "index"), ("base", encodeNode base),
      ("indices", .array (encodeNodes indices))]
  | .typeAssert base type =>
    .object [("node", .string "type_assert"), ("base", encodeNode base),
      ("ty", encodeOptionalNode type)]
  | .typeExpr form parts =>
    .object [("node", .string "type_expr"), ("form", .string (typeFormName form)),
      ("parts", .array (encodeNodes parts))]
  | .literal span => .object [("node", .string "literal"), ("span", encodeSpan span)]
  | .funcLit params results body =>
    .object [("node", .string "func_lit"), ("params", .array (encodeParams params)),
      ("results", .array (encodeParams results)), ("body", encodeNode body)]
  | .block span stmts =>
    .object [("node", .string "block"), ("span", encodeSpan span),
      ("stmts", .array (encodeNodes stmts))]
  | .define names type values =>
    .object [("node", .string "define"), ("names", .array (names.map encodeBinding)),
      ("ty", encodeOptionalNode type), ("values", .array (encodeNodes values))]
  | .assign targets values =>
    .object [("node", .string "assign"), ("targets", .array (encodeNodes targets)),
      ("values", .array (encodeNodes values))]
  | .branch header body alt =>
    .object [("node", .string "branch"), ("header", .array (encodeNodes header)),
      ("body", encodeNode body), ("alt", encodeOptionalNode alt)]
  | .list items => .object [("node", .string "list"), ("items", .array (encodeNodes items))]

/-- Trees in order. -/
def encodeNodes : List Node → List Json
  | [] => []
  | node :: nodes => encodeNode node :: encodeNodes nodes

/-- A tree or null. -/
def encodeOptionalNode : Option Node → Json
  | none => .null
  | some node => encodeNode node

/-- A parameter. -/
def encodeParam : Param → Json
  | ⟨name, nameSpan, typeSpan, typeNode⟩ =>
    .object [("name", .nullable .string name), ("name_span", .nullable encodeSpan nameSpan),
      ("type_span", encodeSpan typeSpan), ("type_node", encodeNode typeNode)]

/-- Parameters in order. -/
def encodeParams : List Param → List Json
  | [] => []
  | param :: params => encodeParam param :: encodeParams params

end

mutual

/-- Nesting of arrays and objects in a value. -/
def depth : Json → Nat
  | .array items => depthOfItems items + 1
  | .object members => depthOfMembers members + 1
  | _ => 0

/-- Deepest nesting among the items of an array. -/
def depthOfItems : List Json → Nat
  | [] => 0
  | item :: items => max (depth item) (depthOfItems items)

/-- Deepest nesting among the members of an object. -/
def depthOfMembers : List (String × Json) → Nat
  | [] => 0
  | (_, value) :: members => max (depth value) (depthOfMembers members)

end

/-- Read a parameter, given how to read the trees in it. -/
def paramWith? (node? : Json → Option Node) (json : Json) : Option Param := do
  let record ← json.record? false ["name", "name_span", "type_span", "type_node"]
  let name ← record.withDefault? "name" none (Json.nullable? Json.text?)
  let nameSpan ← record.withDefault? "name_span" none (Json.nullable? span?)
  let typeSpan ← record.required? "type_span" span?
  let typeNode ← record.required? "type_node" node?
  return ⟨name, nameSpan, typeSpan, typeNode⟩

/-- Tags of trees. -/
def nodeTags : List String :=
  ["ident", "selector", "call", "composite", "key_value", "unary", "binary", "index",
    "type_assert", "type_expr", "literal", "func_lit", "block", "define", "assign", "branch",
    "list"]

/-- Read a tree, given how to read the trees in it. -/
def nodeWith? (origin : Json.Origin) (node? : Json → Option Node) (json : Json) : Option Node := do
  let (tag, rest) ← json.tagged? origin "node" nodeTags
  let trees := Json.list? node?
  match tag with
  | "ident" =>
    let record ← rest.record? false ["name", "span"]
    let name ← record.required? "name" Json.text?
    let span ← record.required? "span" span?
    return .ident name span
  | "selector" =>
    let record ← rest.record? false ["base", "name", "span"]
    let base ← record.required? "base" node?
    let name ← record.required? "name" Json.text?
    let span ← record.required? "span" span?
    return .selector base name span
  | "call" =>
    let record ← rest.record? false ["func", "args"]
    let func ← record.required? "func" node?
    let args ← record.required? "args" trees
    return .call func args
  | "composite" =>
    let record ← rest.record? false ["ty", "elems"]
    let type ← record.optional? "ty" node?
    let elems ← record.required? "elems" trees
    return .composite type elems
  | "key_value" =>
    let record ← rest.record? false ["key", "value"]
    let key ← record.required? "key" node?
    let value ← record.required? "value" node?
    return .keyValue key value
  | "unary" =>
    let record ← rest.record? false ["op", "operand"]
    let op ← record.required? "op" (choice? unaryOps unaryOpName)
    let operand ← record.required? "operand" node?
    return .unary op operand
  | "binary" =>
    let record ← rest.record? false ["lhs", "rhs"]
    let left ← record.required? "lhs" node?
    let right ← record.required? "rhs" node?
    return .binary left right
  | "index" =>
    let record ← rest.record? false ["base", "indices"]
    let base ← record.required? "base" node?
    let indices ← record.required? "indices" trees
    return .index base indices
  | "type_assert" =>
    let record ← rest.record? false ["base", "ty"]
    let base ← record.required? "base" node?
    let type ← record.optional? "ty" node?
    return .typeAssert base type
  | "type_expr" =>
    let record ← rest.record? false ["form", "parts"]
    let form ← record.required? "form" (choice? typeForms typeFormName)
    let parts ← record.required? "parts" trees
    return .typeExpr form parts
  | "literal" =>
    let record ← rest.record? false ["span"]
    let span ← record.required? "span" span?
    return .literal span
  | "func_lit" =>
    let record ← rest.record? false ["params", "results", "body"]
    let params ← record.required? "params" (Json.list? (paramWith? node?))
    let results ← record.required? "results" (Json.list? (paramWith? node?))
    let body ← record.required? "body" node?
    return .funcLit params results body
  | "block" =>
    let record ← rest.record? false ["span", "stmts"]
    let span ← record.required? "span" span?
    let stmts ← record.required? "stmts" trees
    return .block span stmts
  | "define" =>
    let record ← rest.record? false ["names", "ty", "values"]
    let names ← record.required? "names" (Json.list? binding?)
    let type ← record.optional? "ty" node?
    let values ← record.required? "values" trees
    return .define names type values
  | "assign" =>
    let record ← rest.record? false ["targets", "values"]
    let targets ← record.required? "targets" trees
    let values ← record.required? "values" trees
    return .assign targets values
  | "branch" =>
    let record ← rest.record? false ["header", "body", "alt"]
    let header ← record.required? "header" trees
    let body ← record.required? "body" node?
    let alt ← record.optional? "alt" node?
    return .branch header body alt
  | "list" =>
    let record ← rest.record? false ["items"]
    let items ← record.required? "items" trees
    return .list items
  | _ => none

/-- Read a tree of at most `limit` levels from within a held value. -/
def heldNodeWithin? : Nat → Json → Option Node
  | 0, _ => none
  | limit + 1, json => nodeWith? .held (heldNodeWithin? limit) json

/-- Read a tree from within a held value. -/
def heldNode? (json : Json) : Option Node := heldNodeWithin? (depth json) json

/-- Read a parameter from within a held value. -/
def heldParam? (json : Json) : Option Param := paramWith? heldNode? json

/-- Read a tree from a document. -/
def node? : Json → Option Node :=
  Json.whole? fun json => nodeWith? .document (heldNodeWithin? (depth json)) json

/-- Read a parameter from a document. -/
def param? (json : Json) : Option Param := paramWith? node? json

end GoRefactor.Snapshot
