import GoRefactor.Report.Index
import GoRefactor.Report.Outcome
import GoRefactor.Text.Decimal
import GoRefactor.Transform.Plan

/-!
# Queries and their responses

Each query indexes a module, selects symbols or references, and puts them in order: symbols by
file, position and label, references by file and position.
-/

namespace GoRefactor

/-- A number that was read gives a line or a column. -/
instance UInt32.coeOfNat : CoeTail Nat UInt32 := ⟨UInt32.ofNat⟩

/-- Lines and columns are written as numbers. -/
instance UInt32.coeToNat : CoeHead UInt32 Nat := ⟨UInt32.toNat⟩

/-- A position in a file as users type it: path, line and column with colons between. -/
structure Location where
  /-- Path of the file. -/
  file : String
  /-- Line and column. -/
  position : Position
deriving DecidableEq, Repr, Inhabited

/-- Read a location. Lines and columns count from one. -/
def Location.read (text : String) : Except Error Location :=
  let location := do
    let (front, column) ← splitLast? ':' text
    let (file, line) ← splitLast? ':' front
    let column ← decimal? UInt32.size column
    let line ← decimal? UInt32.size line
    if file.isEmpty || line == 0 || column == 0 then none
    else some ⟨file, ⟨line, column⟩⟩
  match location with
  | some location => .ok location
  | none => .error (.invalidOptions (.badLocation text))

/-- Read the name of a kind. -/
def SymbolKind.read (name : String) : Except Error SymbolKind :=
  match SymbolKind.ofName? name with
  | some kind => .ok kind
  | none => .error (.invalidOptions (.unknownKind name))

/-- Symbols that a query found, in order. -/
structure SymbolListing where
  /-- The symbols. -/
  symbols : List Symbol
  /-- The index they are from, if its counts are of interest. -/
  index : Option Index := none

/-- Order of symbols in a listing. -/
def SymbolListing.le (left right : Symbol) : Bool :=
  left.file < right.file || (left.file == right.file &&
    (left.nameSpan.start < right.nameSpan.start || (left.nameSpan.start == right.nameSpan.start &&
      Symbol.label left.id ≤ Symbol.label right.id)))

/-- Put symbols in order. -/
def SymbolListing.ofSymbols (symbols : List Symbol) (index : Option Index) : SymbolListing :=
  ⟨sortBy SymbolListing.le symbols, index⟩

/-- References that a query found, in order, and the symbols they stand for. -/
structure ReferenceListing where
  /-- The symbols. -/
  symbols : List Symbol
  /-- The references. -/
  references : List Reference

/-- Order of references in a listing. -/
def ReferenceListing.le (left right : Reference) : Bool :=
  left.file < right.file || (left.file == right.file &&
    (left.region.start.lt right.region.start || (left.region.start == right.region.start &&
      left.span.le right.span)))

/-- Which symbols to list; what is left open matches everything. -/
structure SymbolQuery where
  /-- Name. -/
  name : Option String := none
  /-- Kind. -/
  kind : Option SymbolKind := none
  /-- Path of the file. -/
  file : Option String := none
  /-- Type that owns the symbol. -/
  parentType : Option String := none
deriving Repr, Inhabited

namespace SymbolQuery

/-- The symbol has the kind, file and owner that are asked for. -/
def accepts (query : SymbolQuery) (symbol : Symbol) : Bool :=
  query.kind.all (· == symbol.kind) && query.file.all (· == symbol.file) &&
    query.parentType.all (some · == symbol.parentType)

/-- Symbols among which a query selects. -/
def candidates (query : SymbolQuery) (index : Index) : List Symbol :=
  match query.name, query.file with
  | some name, _ => index.symbols.named name
  | none, some file => index.symbolsInFile file
  | none, none => index.symbols.toList

end SymbolQuery

namespace Module

/-- List the symbols that a query asks for, with the counts of the index. -/
def listSymbols (module : Module) (options : IndexOptions) (query : SymbolQuery) :
    Attempt SymbolListing := do
  let index ← module.index options
  return .ofSymbols ((query.candidates index).filter query.accepts) (some index)

/-- List the references to the symbols with a name, of a type or function and in a package if
these are given. -/
def listReferences (module : Module) (options : IndexOptions) (name : String)
    (parentType package : Option String) : Attempt ReferenceListing := do
  let index ← module.index options
  let path ← package.mapM module.packagePath
  let targets := (index.symbols.named name).filter fun symbol =>
    (parentType.all (some · == symbol.parentType) ||
      parentType.all (some · == symbol.container)) &&
    path.all (· == symbol.package)
  if targets.isEmpty then
    Attempt.refuse (.symbolNotFound name (parentType.or package))
  else
    let references := targets.flatMap fun symbol => index.references.toSymbol symbol.id
    return ⟨targets, sortBy ReferenceListing.le references⟩

/-- The declaration at a location. -/
def symbolAtLocation (module : Module) (options : IndexOptions) (text : String) :
    Attempt SymbolListing := do
  let location ← ExceptT.mk (.ok (Location.read text))
  match module.file? location.file with
  | none => Attempt.refuse (.fileNotFound location.file)
  | some _ =>
    let index ← module.index options
    match index.symbolAt location.file location.position with
    | some symbol => return .ofSymbols [symbol] none
    | none => Attempt.refuse (.symbolNotFound text none)

/-- The structs that implement the interface with a name. The name must be that of one interface
only, in a package if one is given. -/
def listImplementations (module : Module) (options : IndexOptions) (name : String)
    (package : Option String) : Attempt SymbolListing := do
  let path ← package.mapM module.packagePath
  let index ← module.index options
  let declared := (index.symbols.named name).filter fun symbol =>
    symbol.kind == .interface && path.all (· == symbol.package)
  match declared with
  | [] => Attempt.refuse (.symbolNotFound name (some "interfaces"))
  | [symbol] => return .ofSymbols (index.implementations symbol.id) none
  | several => Attempt.refuse (.ambiguous name (several.map (·.qualifiedName)))

end Module

namespace SymbolListing

/-- One line for each symbol. -/
def text (listing : SymbolListing) : String :=
  String.join (listing.symbols.map fun symbol =>
    s!"{symbol.file}:{symbol.region.start.text} {symbol.kind.name} {symbol.qualifiedName}\n")

end SymbolListing

namespace ReferenceListing

/-- One line for each reference. -/
def text (listing : ReferenceListing) : String :=
  String.join (listing.references.map fun reference =>
    let context := if reference.context.isEmpty then "-" else reference.context
    s!"{reference.file}:{reference.region.start.text} {reference.kind.name} {context}\n")

end ReferenceListing

namespace Report

/-- Version of the form of responses. -/
def schemaVersion : String := "1"

/-- First members of every response. -/
def heading (ok : Bool) : List (String × Json) :=
  [("status", .string (if ok then "ok" else "error")), ("schema_version", .string schemaVersion)]

/-- A place in a file: where something starts, and the bytes of its name. -/
def location (file : String) (start : Position) (span : Span) : Json :=
  .object [
    ("file", .string file),
    ("line", .nat start.line),
    ("col", .nat start.column),
    ("byte_start", .nat span.start),
    ("byte_end", .nat span.stop)]

/-- A symbol in a listing. -/
def listedSymbol (symbol : Symbol) : Json :=
  .object ([
    ("id", .string (Symbol.label symbol.id)),
    ("name", .string symbol.name),
    ("kind", .string symbol.kind.name),
    ("qualified_name", .string symbol.qualifiedName),
    ("package", .string symbol.package),
    ("location", location symbol.file symbol.region.start symbol.nameSpan)] ++
    Json.present "parent_type" .string symbol.parentType ++
    Json.present "container" .string symbol.container ++
    [("exported", .bool symbol.exported)] ++
    Json.present "type_text" .string symbol.typeText)

/-- A reference in a listing. -/
def listedReference (reference : Reference) : Json :=
  .object [
    ("id", .string s!"ref_{reference.id}"),
    ("symbol", .string (Symbol.label reference.symbol)),
    ("location", location reference.file reference.region.start reference.span),
    ("kind", .string reference.kind.name),
    ("context", .string reference.context)]

/-- Response to a query for symbols. -/
def symbolListing (listing : SymbolListing) : Json :=
  .object (heading true ++ [
    ("count", .nat listing.symbols.length),
    ("symbols", .array (listing.symbols.map listedSymbol))] ++
    Json.present "stats" stats listing.index)

/-- Response to a query for references. -/
def referenceListing (listing : ReferenceListing) : Json :=
  .object (heading true ++ [
    ("symbols", .array (listing.symbols.map listedSymbol)),
    ("count", .nat listing.references.length),
    ("references", .array (listing.references.map listedReference))])

/-- Members of the response to a transformation. -/
def transformMembers (name : String) (dryRun : Bool) (result : Outcome)
    (filesWritten : Option (List String)) : List (String × Json) :=
  heading result.success ++ [
    ("transform", .string name),
    ("dry_run", .bool dryRun),
    ("result", outcome result)] ++
    Json.present "files_written" .strings filesWritten

/-- An error with its data. -/
def error (error : Error) : Json :=
  .object ([
    ("code", .nat error.code),
    ("kind", .string error.kind.name),
    ("message", .string error.message)] ++
    Json.present "details" id error.details)

/-- Response to a command that was refused. -/
def refusal (reason : Error) : Json := .object (heading false ++ [("error", error reason)])

end Report

end GoRefactor
