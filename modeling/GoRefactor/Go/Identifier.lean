import GoRefactor.Text.Letter

/-!
# Identifiers

Which texts can be declared as names, and why the others cannot.
-/

namespace GoRefactor

/-- Words that cannot be names. -/
def keywords : List String :=
  ["break", "case", "chan", "const", "continue", "default", "defer", "else", "fallthrough", "for",
    "func", "go", "goto", "if", "import", "interface", "map", "package", "range", "return",
    "select", "struct", "switch", "type", "var"]

/-- Names of the universe scope. -/
def predeclared : List String :=
  ["any", "append", "bool", "byte", "cap", "clear", "close", "comparable", "complex",
    "complex128", "complex64", "copy", "delete", "error", "false", "float32", "float64", "imag",
    "int", "int16", "int32", "int64", "int8", "iota", "len", "make", "max", "min", "new", "nil",
    "panic", "print", "println", "real", "recover", "rune", "string", "true", "uint", "uint16",
    "uint32", "uint64", "uint8", "uintptr"]

/-- The word is a keyword. -/
def isKeyword (name : String) : Bool := keywords.contains name

/-- The name belongs to the universe scope. -/
def isPredeclared (name : String) : Bool := predeclared.contains name

/-- Exported names start with an upper-case letter. -/
def isExported (name : String) : Bool :=
  match name.toList with
  | [] => false
  | first :: _ => isUpper first

/-- Characters that a name is made of. -/
def isNameChar (c : Char) : Bool := c == '_' || isLetter c || isNumeral c

/-- Why a text cannot be declared as a name. -/
inductive NameFlaw where
  /-- There is nothing. -/
  | empty
  /-- The first character is neither a letter nor an underscore. -/
  | badStart
  /-- A later character is no letter, numeral or underscore. -/
  | badCharacter (c : Char)
  /-- The blank identifier. -/
  | blank
  /-- A keyword. -/
  | keyword
  /-- A rename to the same name. -/
  | unchanged
deriving DecidableEq, Repr

/-- The reason in words. -/
def NameFlaw.reason : NameFlaw → String
  | .empty => "name cannot be empty"
  | .badStart => "must start with letter or underscore"
  | .badCharacter c => s!"invalid character: '{c}'"
  | .blank => "the blank identifier cannot be declared by name"
  | .keyword => "cannot use keyword as identifier"
  | .unchanged => "new name equals the current name"

/-- The first flaw of a text as a name. -/
def nameFlaw? (name : String) : Option NameFlaw :=
  match name.toList with
  | [] => some .empty
  | first :: rest =>
    if !isLetter first && first != '_' then some .badStart
    else
      match rest.find? (fun c => !isNameChar c) with
      | some c => some (.badCharacter c)
      | none =>
        if name == "_" then some .blank
        else if isKeyword name then some .keyword
        else none

end GoRefactor
