import GoRefactor.Glob

/-!
# Matching of glob patterns

A pattern is matched against the whole text, byte by byte. A star or a question mark also matches a
slash. Matching carries the set of places that the parts so far can reach, as one mark for each
place of the text, so its cost is the product of the two lengths.

Some patterns ask for the final name of a path: a name in any directory, or an extension. A path
whose last component is `..` has no final name, and no such pattern matches it.
-/

namespace GoRefactor.Glob

/-- The slash between the components of a path. -/
def slash : UInt8 := 47

/-- The bytes of a class written out: each byte of a character by itself, and between the two
characters of a range the range from the last byte of one to the first of the other. -/
def classRanges (range : Char × Char) : List (UInt8 × UInt8) :=
  let single (byte : UInt8) := (byte, byte)
  if range.1 == range.2 then (charBytes range.1).map single
  else
    match (charBytes range.1).reverse, charBytes range.2 with
    | lastByte :: front, firstByte :: back =>
      front.reverse.map single ++ [(lastByte, firstByte)] ++ back.map single
    | _, _ => []

/-- The byte belongs to the class. -/
def classHas (negated : Bool) (ranges : List (Char × Char)) (byte : UInt8) : Bool :=
  let within := (ranges.flatMap classRanges).any fun range => range.1 ≤ byte && byte ≤ range.2
  within != negated

/-- Places reached by one byte from the marked places. A text has one place more than bytes. -/
def advance (takes : UInt8 → Bool) (text : List UInt8) (marks : List Bool) : List Bool :=
  false :: List.zipWith (fun byte mark => mark && takes byte) text marks

/-- Places at or behind a marked place; `reached` tells whether there was one before. -/
def spread (reached : Bool) : List Bool → List Bool
  | [] => []
  | mark :: marks => (reached || mark) :: spread (reached || mark) marks

/-- Places that are marked in one of two ways. -/
def union (marks others : List Bool) : List Bool := List.zipWith (· || ·) marks others

mutual

/-- Places of a text reached by a part from the marked places. -/
def afterPart (text : List UInt8) : GlobPart → List Bool → List Bool
  | .literal c, marks =>
    (charBytes c).foldl (fun marks byte => advance (· == byte) text marks) marks
  | .any, marks => advance (fun _ => true) text marks
  | .star, marks => spread false marks
  | .leading, marks => union marks (advance (· == slash) text (spread false marks))
  | .trailing, marks => spread false (advance (· == slash) text marks)
  | .between, marks =>
    let below := advance (· == slash) text marks
    union below (advance (· == slash) text (spread false below))
  | .class negated ranges, marks => advance (classHas negated ranges) text marks
  | .choice branches, marks =>
    if allVoid branches then marks else afterBranches text branches marks

/-- Places reached by the parts of a branch, one after the other. -/
def afterBranch (text : List UInt8) : List GlobPart → List Bool → List Bool
  | [], marks => marks
  | part :: parts, marks => afterBranch text parts (afterPart text part marks)

/-- Places reached by one of several branches; empty branches do not count. -/
def afterBranches (text : List UInt8) : List (List GlobPart) → List Bool → List Bool
  | [], marks => marks.map fun _ => false
  | branch :: branches, marks =>
    let others := afterBranches text branches marks
    if isVoidBranch branch then others else union (afterBranch text branch marks) others

end

/-- The parts match the whole text. -/
def spans (parts : List GlobPart) (text : List UInt8) : Bool :=
  (afterBranch text parts (true :: text.map fun _ => false)).getLast? == some true

/-- The part is a written character. -/
def isLiteral : GlobPart → Bool
  | .literal _ => true
  | _ => false

/-- The part is a written character that can stand behind the dot of an extension. -/
def isPlain : GlobPart → Bool
  | .literal c => c != '.' && c != '/'
  | _ => false

/-- The part is a slash. -/
def isSlash : GlobPart → Bool
  | .literal c => c == '/'
  | _ => false

/-- The part is a dot. -/
def isDot : GlobPart → Bool
  | .literal c => c == '.'
  | _ => false

/-- The pattern ends in a dot and the characters of an extension. -/
def endsInExtension (parts : List GlobPart) : Bool :=
  (parts.reverse.dropWhile isPlain).head?.any isDot

/-- The pattern is a text that stands at the beginning of a path. -/
def isOpenText (parts : List GlobPart) : Bool :=
  match parts.reverse with
  | .star :: front => !front.isEmpty && front.all isLiteral
  | .trailing :: front => front.all isLiteral
  | _ => false

/-- How a pattern is compared with a path. -/
inductive Manner where
  /-- A name in any directory, or an extension alone: compared with the final name. -/
  | finalName
  /-- A fixed text, perhaps with an open beginning or end: compared with the whole path. -/
  | text
  /-- Something that ends in an extension: the final name must have it. -/
  | extension
  /-- Anything else. -/
  | free
deriving DecidableEq, Repr

/-- How the pattern is compared with a path. -/
def manner (parts : List GlobPart) : Manner :=
  let anywhere := match parts with
    | .leading :: _ => true
    | _ => false
  let rest := if anywhere then parts.tail else parts
  let ending := if endsInExtension parts then Manner.extension else .free
  if rest.isEmpty then .free
  else if rest.all isLiteral then
    if anywhere && !rest.any isSlash then .finalName else .text
  else
    match rest with
    | .star :: more =>
      if !more.all isLiteral then if isOpenText parts then .text else ending
      else
        match more with
        | [] => .free
        | first :: others =>
          if isDot first && others.all isPlain then .finalName
          else if isSlash first && others.isEmpty then .free
          else .text
    | _ => if isOpenText parts then .text else ending

/-- The pattern asks for the final name of a path. -/
def asksForName (parts : List GlobPart) : Bool :=
  match manner parts with
  | .finalName | .extension => true
  | .text | .free => false

/-- The last component of a path is `..`. -/
def isNameless (path : List UInt8) : Bool :=
  path.reverse.takeWhile (· != slash) == [46, 46]

/-- The pattern matches the text. Two stars alone match everything. -/
def isMatch (parts : List GlobPart) (text : String) : Bool :=
  let bytes := text.toUTF8.toList
  match parts with
  | [.leading] => true
  | _ => !(asksForName parts && isNameless bytes) && spans parts bytes

end GoRefactor.Glob
