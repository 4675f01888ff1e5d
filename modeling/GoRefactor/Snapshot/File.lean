import GoRefactor.Go.File
import GoRefactor.Snapshot.Syntax

/-!
# Files as JSON

Declarations and files with their fields by name. Lists, maps, flags and docs may be left out
when reading; they are always written. The shape of a type is tagged, so it is held as a whole and
fields and methods are read from what is held.
-/

namespace GoRefactor.Snapshot

/-- A map by increasing name. -/
def encodeMap {α : Type} (encode : α → Json) (map : NameMap α) : Json :=
  .object (map.entries.map fun entry => (entry.1, encode entry.2))

/-- Read a map; of two members with one name the later counts. -/
def map? {α : Type} (decode : Json → Option α) : Json → Option (NameMap α)
  | .object members => do
    let entries ← members.mapM fun entry => (decode entry.2).map fun value => (entry.1, value)
    return NameMap.ofList entries
  | _ => none

/-- An import. -/
def encodeImport (decl : Import) : Json :=
  .object [("path", .string decl.path), ("path_span", encodeSpan decl.pathSpan),
    ("alias", .nullable .string decl.aliasName),
    ("alias_span", .nullable encodeSpan decl.aliasSpan)]

/-- Read an import. -/
def import? (json : Json) : Option Import := do
  let record ← json.record? false ["path", "path_span", "alias", "alias_span"]
  let path ← record.required? "path" Json.text?
  let pathSpan ← record.required? "path_span" span?
  let aliasName ← record.withDefault? "alias" none (Json.nullable? Json.text?)
  let aliasSpan ← record.withDefault? "alias_span" none (Json.nullable? span?)
  return ⟨path, pathSpan, aliasName, aliasSpan⟩

/-- A field. -/
def encodeField (decl : Field) : Json :=
  .object [("name", .string decl.name), ("name_span", encodeSpan decl.nameSpan),
    ("type_span", encodeSpan decl.typeSpan), ("type_node", encodeNode decl.typeNode),
    ("embedded", .bool decl.embedded), ("doc", .nullable .string decl.doc)]

/-- Read a field from within a held shape. -/
def field? (json : Json) : Option Field := do
  let record ← json.record? false
    ["name", "name_span", "type_span", "type_node", "embedded", "doc"]
  let name ← record.required? "name" Json.text?
  let nameSpan ← record.required? "name_span" span?
  let typeSpan ← record.required? "type_span" span?
  let typeNode ← record.required? "type_node" heldNode?
  let embedded ← record.withDefault? "embedded" false Json.bool?
  let doc ← record.withDefault? "doc" none (Json.nullable? Json.text?)
  return ⟨name, nameSpan, typeSpan, typeNode, embedded, doc⟩

/-- A method of an interface. -/
def encodeInterfaceMethod (decl : InterfaceMethod) : Json :=
  .object [("name", .string decl.name), ("name_span", encodeSpan decl.nameSpan),
    ("signature_span", encodeSpan decl.signatureSpan),
    ("params", .array (encodeParams decl.params)),
    ("results", .array (encodeParams decl.results))]

/-- Read a method of an interface from within a held shape. -/
def interfaceMethod? (json : Json) : Option InterfaceMethod := do
  let record ← json.record? false ["name", "name_span", "signature_span", "params", "results"]
  let name ← record.required? "name" Json.text?
  let nameSpan ← record.required? "name_span" span?
  let signatureSpan ← record.required? "signature_span" span?
  let params ← record.withDefault? "params" [] (Json.list? heldParam?)
  let results ← record.withDefault? "results" [] (Json.list? heldParam?)
  return ⟨name, nameSpan, signatureSpan, params, results⟩

/-- The shape of a type, tagged by the field `kind`. -/
def encodeShape : TypeShape → Json
  | .struct fields =>
    .object [("kind", .string "struct"), ("fields", .array (fields.map encodeField))]
  | .interface methods embeds =>
    .object [("kind", .string "interface"), ("methods", .array (methods.map encodeInterfaceMethod)),
      ("embeds", .array (encodeNodes embeds))]
  | .other underlying =>
    .object [("kind", .string "other"), ("underlying", encodeNode underlying)]

/-- Read the shape of a type from its readable parts. -/
def wholeShape? (json : Json) : Option TypeShape := do
  let (tag, rest) ← json.tagged? .document "kind" ["struct", "interface", "other"]
  match tag with
  | "struct" =>
    let record ← rest.record? false ["fields"]
    let fields ← record.required? "fields" (Json.list? field?)
    return .struct fields
  | "interface" =>
    let record ← rest.record? false ["methods", "embeds"]
    let methods ← record.required? "methods" (Json.list? interfaceMethod?)
    let embeds ← record.withDefault? "embeds" [] (Json.list? heldNode?)
    return .interface methods embeds
  | "other" =>
    let record ← rest.record? false ["underlying"]
    let underlying ← record.required? "underlying" heldNode?
    return .other underlying
  | _ => none

/-- Read the shape of a type. -/
def shape? : Json → Option TypeShape := Json.whole? wholeShape?

/-- A declared type. -/
def encodeTypeDecl (decl : TypeDecl) : Json :=
  .object [("name", .string decl.name), ("name_span", encodeSpan decl.nameSpan),
    ("extent", encodeSpan decl.extent), ("kind", encodeShape decl.shape),
    ("doc", .nullable .string decl.doc)]

/-- Read a declared type. -/
def typeDecl? (json : Json) : Option TypeDecl := do
  let record ← json.record? false ["name", "name_span", "extent", "kind", "doc"]
  let name ← record.required? "name" Json.text?
  let nameSpan ← record.required? "name_span" span?
  let extent ← record.required? "extent" span?
  let shape ← record.required? "kind" shape?
  let doc ← record.withDefault? "doc" none (Json.nullable? Json.text?)
  return ⟨name, nameSpan, extent, shape, doc⟩

/-- A function or method. -/
def encodeFuncDecl (decl : FuncDecl) : Json :=
  .object [("name", .string decl.name), ("name_span", encodeSpan decl.nameSpan),
    ("extent", encodeSpan decl.extent), ("receiver", .nullable encodeParam decl.receiver),
    ("params", .array (encodeParams decl.params)), ("results", .array (encodeParams decl.results)),
    ("signature_span", encodeSpan decl.signatureSpan), ("body", encodeOptionalNode decl.body),
    ("doc", .nullable .string decl.doc)]

/-- Read a function or method. -/
def funcDecl? (json : Json) : Option FuncDecl := do
  let record ← json.record? false
    ["name", "name_span", "extent", "receiver", "params", "results", "signature_span", "body",
      "doc"]
  let name ← record.required? "name" Json.text?
  let nameSpan ← record.required? "name_span" span?
  let extent ← record.required? "extent" span?
  let receiver ← record.withDefault? "receiver" none (Json.nullable? param?)
  let params ← record.withDefault? "params" [] (Json.list? param?)
  let results ← record.withDefault? "results" [] (Json.list? param?)
  let signatureSpan ← record.required? "signature_span" span?
  let body ← record.withDefault? "body" none (Json.nullable? node?)
  let doc ← record.withDefault? "doc" none (Json.nullable? Json.text?)
  return ⟨name, nameSpan, extent, receiver, params, results, signatureSpan, body, doc⟩

/-- A variable or constant. -/
def encodeValueDecl (decl : ValueDecl) : Json :=
  .object [("name", .string decl.name), ("name_span", encodeSpan decl.nameSpan),
    ("extent", encodeSpan decl.extent), ("type_span", .nullable encodeSpan decl.typeSpan),
    ("type_node", encodeOptionalNode decl.typeNode), ("value", encodeOptionalNode decl.value),
    ("doc", .nullable .string decl.doc)]

/-- Read a variable or constant. -/
def valueDecl? (json : Json) : Option ValueDecl := do
  let record ← json.record? false
    ["name", "name_span", "extent", "type_span", "type_node", "value", "doc"]
  let name ← record.required? "name" Json.text?
  let nameSpan ← record.required? "name_span" span?
  let extent ← record.required? "extent" span?
  let typeSpan ← record.withDefault? "type_span" none (Json.nullable? span?)
  let typeNode ← record.withDefault? "type_node" none (Json.nullable? node?)
  let value ← record.withDefault? "value" none (Json.nullable? node?)
  let doc ← record.withDefault? "doc" none (Json.nullable? Json.text?)
  return ⟨name, nameSpan, extent, typeSpan, typeNode, value, doc⟩

/-- A file. -/
def encodeFile (file : SourceFile) : Json :=
  .object [("path", .string file.path), ("content", .string file.content),
    ("is_test", .bool file.isTest), ("package_name", .string file.packageName),
    ("package_span", encodeSpan file.packageSpan),
    ("imports", .array (file.imports.map encodeImport)),
    ("types", encodeMap encodeTypeDecl file.types),
    ("functions", encodeMap encodeFuncDecl file.functions),
    ("methods", .array (file.methods.map encodeFuncDecl)),
    ("variables", encodeMap encodeValueDecl file.vars),
    ("constants", encodeMap encodeValueDecl file.consts),
    ("blanks", .array (file.blanks.map encodeValueDecl)), ("modified", .bool file.modified)]

/-- Read a file. -/
def file? (json : Json) : Option SourceFile := do
  let record ← json.record? false
    ["path", "content", "is_test", "package_name", "package_span", "imports", "types", "functions",
      "methods", "variables", "constants", "blanks", "modified"]
  let path ← record.required? "path" Json.text?
  let content ← record.required? "content" Json.text?
  let isTest ← record.withDefault? "is_test" false Json.bool?
  let packageName ← record.required? "package_name" Json.text?
  let packageSpan ← record.required? "package_span" span?
  let imports ← record.withDefault? "imports" [] (Json.list? import?)
  let types ← record.withDefault? "types" ∅ (map? typeDecl?)
  let functions ← record.withDefault? "functions" ∅ (map? funcDecl?)
  let methods ← record.withDefault? "methods" [] (Json.list? funcDecl?)
  let vars ← record.withDefault? "variables" ∅ (map? valueDecl?)
  let consts ← record.withDefault? "constants" ∅ (map? valueDecl?)
  let blanks ← record.withDefault? "blanks" [] (Json.list? valueDecl?)
  let modified ← record.withDefault? "modified" false Json.bool?
  return {
    path, content, isTest, packageName, packageSpan, imports, types, functions, methods,
    vars, consts, blanks, modified }

end GoRefactor.Snapshot
