import GoRefactor.Go.Identifier
import GoRefactor.Text.Case

/-!
# Names for interfaces

Structs that share their methods often share the end of their names, word by word. That end names
the interface; else the first method does, with the ending of an agent noun.
-/

namespace GoRefactor

/-- One method of a method set. -/
structure MethodShape where
  /-- Name of the method. -/
  name : String
  /-- Parameters and results, blanks reduced. -/
  signature : String
deriving DecidableEq, Repr, Inhabited

/-- Order by name, then by signature. -/
def MethodShape.le (left right : MethodShape) : Bool :=
  left.name < right.name || (left.name == right.name && left.signature ≤ right.signature)

/-- A struct that has a method set. -/
structure Implementer where
  /-- Name of the struct. -/
  name : String
  /-- Import path of its package. -/
  package : String
  /-- Path of its file. -/
  file : String
deriving DecidableEq, Repr, Inhabited

/-- Structs with the same method set. -/
structure MethodPattern where
  /-- The methods, by name. -/
  methods : List MethodShape
  /-- The structs, in order of declaration. -/
  implementers : List Implementer
deriving DecidableEq, Repr, Inhabited

/-- Names and signatures of methods in a row. Structs with the same key belong together. -/
def methodKey (methods : List MethodShape) : String :=
  ";".intercalate (methods.map fun method => method.name ++ method.signature)

/-- Key of a pattern. -/
def MethodPattern.key (pattern : MethodPattern) : String := methodKey pattern.methods

namespace Naming

/-- A word starts at an upper-case letter behind a lower-case letter or digit, and at the last of
several upper-case letters when a lower-case letter follows. -/
def startsWord (before c : Char) (behind : List Char) : Bool :=
  isUpper c && (isLower before || before.isDigit ||
    (isUpper before && (behind.head?.map isLower).getD false))

/-- Words of a name, where `word` holds the characters of the current word, the last one first,
and `before` is its last character. -/
def wordsFrom (word : List Char) (before : Char) : List Char → List (List Char)
  | [] => [word.reverse]
  | c :: rest =>
    if startsWord before c rest then word.reverse :: wordsFrom [c] c rest
    else wordsFrom (c :: word) c rest

/-- Words that a name is put together from. -/
def camelWords : List Char → List (List Char)
  | [] => []
  | c :: rest => wordsFrom [c] c rest

/-- What two lists have in common from the start. -/
def commonStart {α : Type} [BEq α] : List α → List α → List α
  | left :: lefts, right :: rights =>
    if left == right then left :: commonStart lefts rights else []
  | _, _ => []

/-- What lists have in common from the start; nothing if there is no list. -/
def commonStartAll {α : Type} [BEq α] : List (List α) → List α
  | [] => []
  | first :: rest => rest.foldl commonStart first

/-- A text with its first letter in upper case, if that is an ASCII letter. -/
def capitalize : List Char → List Char
  | [] => []
  | c :: rest => c.toUpper :: rest

/-- The words at the end that names share, put together, with a capital. -/
def sharedSuffix (names : List (List Char)) : Option (List Char) :=
  match commonStartAll (names.map fun name => (camelWords name).reverse) with
  | [] => none
  | shared => some (capitalize shared.reverse.flatten)

/-- Name used when there is no better one. -/
def fallback : String := "Common"

/-- A method's name as that of its agent. -/
def agentNoun (method : String) : String :=
  if method.toList.getLast? == some 'e' then method ++ "r" else method ++ "er"

/-- The shared end of the structs' names, unless one of them is just that; else the agent noun of
the first method; else the fallback. -/
def interfaceName (pattern : MethodPattern) : String :=
  let names := pattern.implementers.map (·.name)
  let suffix := ((sharedSuffix (names.map String.toList)).map String.ofList).filter fun suffix =>
    !names.contains suffix && (nameFlaw? suffix).isNone
  let agent := (pattern.methods.head?.map fun method => agentNoun method.name).filter fun name =>
    (nameFlaw? name).isNone
  (suffix.or agent).getD fallback

/-- A name in lower case with underscores between its words. -/
def snakeCase (name : String) : String :=
  "_".intercalate ((camelWords name.toList).map fun word => lowerText (String.ofList word))

end Naming

/-- Text of an interface declaration. -/
def renderInterface (name : String) (pattern : MethodPattern) : String :=
  let implementers := ", ".intercalate (pattern.implementers.map (·.name))
  "// " ++ name ++ " is implemented by " ++ implementers ++ ".\ntype " ++ name ++
    " interface \x7b\n" ++
    String.join (pattern.methods.map fun method =>
      "\t" ++ method.name ++ method.signature ++ "\n") ++ "\x7d\n"

end GoRefactor
