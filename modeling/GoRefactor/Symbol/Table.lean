import GoRefactor.Postings
import GoRefactor.Symbol.Basic
import GoRefactor.Text.Blank

/-!
# Symbol tables

All symbols of a build, in order of their numbers, and filed by what queries ask for.
-/

namespace GoRefactor

/-- Symbols with the postings that queries use. -/
structure SymbolTable where
  /-- The symbols, by number. -/
  symbols : Array Symbol
  /-- Symbols by name. -/
  byName : Postings String Symbol
  /-- Symbols by the name of their kind. -/
  byKind : Postings String Symbol
  /-- Symbols by file. -/
  byFile : Postings String Symbol
  /-- Symbols by qualified name. -/
  byQualified : Postings String Symbol
  /-- Fields and methods by the name of their type. -/
  byParent : Postings String Symbol
  /-- Values by declared type. -/
  byDeclaredType : Postings String Symbol
  /-- Symbols by the offset of the declared name. -/
  byOffset : Postings Nat Symbol

namespace SymbolTable

/-- Declared type of a field, variable, constant or parameter, blanks reduced. -/
def declaredType (symbol : Symbol) : Option String :=
  match symbol.kind with
  | .field | .var | .const | .parameter => symbol.typeText.map normalizeText
  | _ => none

/-- File a list of symbols. -/
def ofList (symbols : List Symbol) : SymbolTable where
  symbols := symbols.toArray
  byName := .ofList (fun symbol => some symbol.name) symbols
  byKind := .ofList (fun symbol => some symbol.kind.name) symbols
  byFile := .ofList (fun symbol => some symbol.file) symbols
  byQualified := .ofList (fun symbol => some symbol.qualifiedName) symbols
  byParent := .ofList (fun symbol => symbol.parentType) symbols
  byDeclaredType := .ofList declaredType symbols
  byOffset := .ofList (fun symbol => some symbol.nameSpan.start) symbols

/-- The default table is the empty one. -/
instance : Inhabited SymbolTable := ⟨ofList []⟩

/-- The symbols in order. -/
def toList (table : SymbolTable) : List Symbol := table.symbols.toList

/-- Number of symbols. -/
def size (table : SymbolTable) : Nat := table.symbols.size

/-- The symbol with a number. -/
def get? (table : SymbolTable) (id : Nat) : Option Symbol := table.symbols[id]?

/-- Symbols with a name. -/
def named (table : SymbolTable) (name : String) : List Symbol := table.byName.lookup name

/-- Symbols of a kind. -/
def ofKind (table : SymbolTable) (kind : SymbolKind) : List Symbol :=
  table.byKind.lookup kind.name

/-- Symbols of a file. -/
def inFile (table : SymbolTable) (path : String) : List Symbol := table.byFile.lookup path

/-- Fields, variables, constants and parameters declared with a type, blanks apart. -/
def withDeclaredType (table : SymbolTable) (text : String) : List Symbol :=
  table.byDeclaredType.lookup (normalizeText text)

/-- Symbols with a qualified name. -/
def qualified (table : SymbolTable) (name : String) : List Symbol :=
  table.byQualified.lookup name

/-- Fields and methods of the types with a name, in any package. -/
def membersOf (table : SymbolTable) (typeName : String) : List Symbol :=
  table.byParent.lookup typeName

/-- The last symbol declared with its name at a span. -/
def atOrigin (table : SymbolTable) (file : String) (span : Span) : Option Symbol :=
  ((table.byOffset.lookup span.start).filter fun symbol =>
    symbol.file == file && symbol.nameSpan == span).getLast?

end SymbolTable

/-- References of a build, in order of their numbers. -/
structure ReferenceTable where
  /-- The references, by number. -/
  references : List Reference
  /-- References by the symbol they stand for. -/
  bySymbol : Postings Nat Reference
  /-- References by file. -/
  byFile : Postings String Reference

namespace ReferenceTable

/-- File a list of references. -/
def ofList (references : List Reference) : ReferenceTable where
  references := references
  bySymbol := .ofList (fun reference => some reference.symbol) references
  byFile := .ofList (fun reference => some reference.file) references

/-- The default table is the empty one. -/
instance : Inhabited ReferenceTable := ⟨ofList []⟩

/-- References to a symbol. -/
def toSymbol (table : ReferenceTable) (id : Nat) : List Reference := table.bySymbol.lookup id

/-- References in a file. -/
def inFile (table : ReferenceTable) (path : String) : List Reference := table.byFile.lookup path

end ReferenceTable

end GoRefactor
