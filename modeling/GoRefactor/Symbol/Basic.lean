import GoRefactor.Error
import GoRefactor.Sort
import GoRefactor.Text.Position

/-!
# Symbols, references and diagnostics

A symbol is a declared entity, a reference a use that stands for one, and a diagnostic a use that
could stand for several. Symbols and references are numbered from zero in the order in which a
build finds them. The numbers have no bound; 32 bits hold them for fewer than `2 ^ 32` of either.
-/

namespace GoRefactor

namespace SymbolKind

/-- All kinds, in their order. -/
def all : List SymbolKind :=
  [.package, .type, .struct, .interface, .function, .method, .field, .var, .const, .imported,
    .parameter]

/-- The kind that has a name. -/
def ofName? (name : String) : Option SymbolKind := all.find? fun kind => kind.name == name

/-- Types of every shape. -/
def isType : SymbolKind → Bool
  | .type | .struct | .interface => true
  | _ => false

/-- Members of a parent type. -/
def isMember : SymbolKind → Bool
  | .method | .field => true
  | _ => false

/-- Everything but packages and imports can be renamed. -/
def isRenamable : SymbolKind → Bool
  | .package | .imported => false
  | _ => true

end SymbolKind

/-- A declared entity. -/
structure Symbol where
  /-- Its number. -/
  id : Nat
  /-- Declared name. -/
  name : String
  /-- What it is. -/
  kind : SymbolKind
  /-- Package path, then the parent type or function, then the name. -/
  qualifiedName : String
  /-- Import path of its package. -/
  package : String
  /-- Path of its file. -/
  file : String
  /-- Lines and columns of the whole declaration. -/
  region : Region
  /-- Where the declared name stands. -/
  nameSpan : Span
  /-- Type that owns a method or field. -/
  parentType : Option String
  /-- Function or method that owns a parameter. -/
  container : Option String
  /-- The name is visible in other packages. -/
  exported : Bool
  /-- Declared type, or signature of a function or method. -/
  typeText : Option String
  /-- Doc comment. -/
  doc : Option String
deriving Repr, Inhabited

namespace Symbol

/-- The span touches the declared name. -/
def declaredAt (symbol : Symbol) (file : String) (span : Span) : Bool :=
  symbol.file == file && symbol.nameSpan.overlaps span

/-- Written form of a symbol's number. -/
def label (id : Nat) : String := s!"sym_{id}"

end Symbol

/-- How a use stands to its target. -/
inductive ReferenceKind where
  /-- A plain read. -/
  | read
  /-- The function of a call. -/
  | call
  /-- A member after a dot. -/
  | selector
  /-- A use as a type. -/
  | type
  /-- The target of an assignment. -/
  | write
  /-- A package before a dot. -/
  | imported
deriving DecidableEq, Repr, Inhabited

/-- Name of a kind of reference in output. -/
def ReferenceKind.name : ReferenceKind → String
  | .read => "reference"
  | .call => "call"
  | .selector => "selector"
  | .type => "type_annotation"
  | .write => "write"
  | .imported => "import"

/-- A use of a symbol. -/
structure Reference where
  /-- Its number. -/
  id : Nat
  /-- Number of the symbol it stands for. -/
  symbol : Nat
  /-- Path of the file it is in. -/
  file : String
  /-- Where it stands. -/
  span : Span
  /-- The same in lines and columns. -/
  region : Region
  /-- Name of the function or method around it; empty outside of functions. -/
  context : String
  /-- How it uses its target. -/
  kind : ReferenceKind
deriving Repr, Inhabited

/-- A use that could stand for several symbols. -/
structure Diagnostic where
  /-- Path of the file it is in. -/
  file : String
  /-- Where it stands. -/
  span : Span
  /-- The same in lines and columns. -/
  position : Position
  /-- The name used. -/
  name : String
  /-- Numbers of the symbols it could stand for. -/
  candidates : List Nat
deriving Repr, Inhabited

/-- The diagnostic in words. -/
def Diagnostic.message (diagnostic : Diagnostic) : String :=
  s!"`{diagnostic.name}` matches {diagnostic.candidates.length} declarations; no reference recorded"

/-- What a use stands for. -/
inductive Resolution where
  /-- Exactly one symbol. -/
  | resolved (symbol : Nat)
  /-- Several symbols. -/
  | ambiguous (candidates : List Nat)
  /-- None. -/
  | unresolved
deriving DecidableEq, Repr, Inhabited

/-- Members of a sorted list, each once. -/
def dropRepeats {α : Type} [BEq α] : List α → List α
  | first :: second :: rest =>
    if first == second then dropRepeats (second :: rest) else first :: dropRepeats (second :: rest)
  | short => short

/-- Settle a use on its candidates, which may repeat and come in any order. -/
def Resolution.ofCandidates (candidates : List Nat) : Resolution :=
  match dropRepeats (sortBy (fun left right => left ≤ right) candidates) with
  | [] => .unresolved
  | [symbol] => .resolved symbol
  | several => .ambiguous several

end GoRefactor
