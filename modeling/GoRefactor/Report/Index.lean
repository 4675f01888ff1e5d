import GoRefactor.Snapshot.Syntax
import GoRefactor.Symbol.Index

/-!
# Symbols, references and indexes in reports

JSON forms of what an index holds. An absent optional part of a symbol is left out.
-/

namespace GoRefactor.Report

/-- A position. -/
def position (position : Position) : Json :=
  .object [("line", .nat position.line.toNat), ("column", .nat position.column.toNat)]

/-- A region. -/
def region (region : Region) : Json :=
  .object [("start", position region.start), ("end", position region.stop)]

/-- A symbol with everything known of it. -/
def symbol (symbol : Symbol) : Json :=
  .object ([
    ("id", .nat symbol.id),
    ("name", .string symbol.name),
    ("kind", .string symbol.kind.name),
    ("qualified_name", .string symbol.qualifiedName),
    ("package", .string symbol.package),
    ("file", .string symbol.file),
    ("range", region symbol.region),
    ("name_span", Snapshot.encodeSpan symbol.nameSpan)] ++
    Json.present "parent_type" .string symbol.parentType ++
    Json.present "container" .string symbol.container ++
    [("exported", .bool symbol.exported)] ++
    Json.present "type_text" .string symbol.typeText ++
    Json.present "doc" .string symbol.doc ++
    [("origin", .object [
      ("file", .string symbol.file),
      ("name_span", Snapshot.encodeSpan symbol.nameSpan)])])

/-- A reference with everything known of it. -/
def reference (reference : Reference) : Json :=
  .object [
    ("id", .nat reference.id),
    ("symbol", .nat reference.symbol),
    ("file", .string reference.file),
    ("span", Snapshot.encodeSpan reference.span),
    ("range", region reference.region),
    ("context", .string reference.context),
    ("kind", .string reference.kind.name)]

/-- A diagnostic. -/
def diagnostic (diagnostic : Diagnostic) : Json :=
  .object [
    ("file", .string diagnostic.file),
    ("span", Snapshot.encodeSpan diagnostic.span),
    ("line", .nat diagnostic.position.line.toNat),
    ("column", .nat diagnostic.position.column.toNat),
    ("name", .string diagnostic.name),
    ("candidates", .array (diagnostic.candidates.map .nat)),
    ("message", .string diagnostic.message)]

/-- Counts of an index. -/
def stats (index : Index) : Json :=
  .object [
    ("packages", .nat index.packages),
    ("files", .nat index.files),
    ("symbols", .nat index.symbols.size),
    ("references", .nat index.references.references.length),
    ("diagnostics", .nat index.diagnostics.length),
    ("unresolved", .nat index.unresolved),
    ("symbols_by_kind", .object (index.symbolCounts.map fun (kind, count) =>
      (kind.name, .nat count)))]

/-- What an index retains. -/
def indexOptions (options : IndexOptions) : Json :=
  .object [
    ("include_tests", .bool options.includeTests),
    ("include_private", .bool options.includePrivate)]

/-- Read what an index retains; nothing is asked for by default. -/
def indexOptions? (json : Json) : Option IndexOptions := do
  let record ← json.record? false ["include_tests", "include_private"]
  let includeTests ← record.withDefault? "include_tests" false Json.bool?
  let includePrivate ← record.withDefault? "include_private" false Json.bool?
  return ⟨includeTests, includePrivate⟩

end GoRefactor.Report
