import GoRefactor.Glob.Match

/-!
# Glob patterns as regular expressions

Patterns that are neither a fixed text nor a name are compiled as regular expressions over bytes.
Expressions may nest only to a limit: groups, alternatives, sequences, repetitions and classes each
count one level. Patterns that end in an extension are compiled one by one, and before the others,
which are compiled together.
-/

namespace GoRefactor

/-- Why patterns cannot be compiled. -/
inductive GlobLimit where
  /-- The expression of a single pattern nests too deeply. -/
  | deepExpression (expression : String)
  /-- Of the expressions compiled together, the one at the given place nests too deeply. -/
  | deepMember (place : Nat)
deriving DecidableEq, Repr, Inhabited

/-- The limit in words. -/
def GlobLimit.message : GlobLimit → String
  | .deepExpression expression => s!"error parsing glob '{expression}': error parsing pattern 0"
  | .deepMember place => s!"error parsing pattern {place}"

namespace Glob

/-- Characters with a meaning of their own in expressions. -/
def isOperator (c : Char) : Bool := "\\.+*?()|[]\x7b\x7d^$#&-~".toList.contains c

/-- A byte as two hexadecimal digits. -/
def hexByte (byte : UInt8) : List Char :=
  [Nat.digitChar (byte.toNat / 16), Nat.digitChar (byte.toNat % 16)]

/-- A byte in an expression. -/
def byteText (byte : UInt8) : List Char :=
  let c := Char.ofNat byte.toNat
  if 0x80 ≤ byte then '\\' :: 'x' :: hexByte byte
  else if isOperator c then ['\\', c]
  else [c]

/-- A character in an expression. -/
def charText (c : Char) : List Char := (charBytes c).flatMap byteText

/-- A range of a class in an expression. -/
def rangeText (range : Char × Char) : List Char :=
  if range.1 == range.2 then charText range.1
  else charText range.1 ++ '-' :: charText range.2

/-- Texts in a row with a bar between them. -/
def barred : List (List Char) → List Char
  | [] => []
  | [text] => text
  | text :: texts => text ++ '|' :: barred texts

mutual

/-- The expression of a part. -/
def partText : GlobPart → List Char
  | .literal c => charText c
  | .any => ['.']
  | .star => ".*".toList
  | .leading => "(?:/?|.*/)".toList
  | .trailing => "/.*".toList
  | .between => "(?:/|/.*/)".toList
  | .class negated ranges =>
    '[' :: (if negated then ['^'] else []) ++ ranges.flatMap rangeText ++ [']']
  | .choice branches =>
    match branchTexts branches with
    | [] => []
    | texts => "(?:".toList ++ barred texts ++ [')']

/-- The expression of a branch. -/
def branchText : List GlobPart → List Char
  | [] => []
  | part :: parts => partText part ++ branchText parts

/-- The expressions of several branches; those that are empty are left out. -/
def branchTexts : List (List GlobPart) → List (List Char)
  | [] => []
  | branch :: branches =>
    let text := branchText branch
    if text.isEmpty then branchTexts branches else text :: branchTexts branches

end

/-- The expression of a pattern. -/
def expression (parts : List GlobPart) : String :=
  String.ofList ("(?-u)^".toList ++ branchText parts ++ ['$'])

/-- What a sequence is made of: the number of its items and the deepest nesting among them. -/
structure Extent where
  /-- Number of items. -/
  items : Nat
  /-- Deepest nesting. -/
  depth : Nat
deriving DecidableEq, Repr

namespace Extent

/-- One sequence behind another. -/
def append (front back : Extent) : Extent := ⟨front.items + back.items, max front.depth back.depth⟩

/-- Nesting of the sequence as a whole: several items are a level of their own. -/
def nesting (extent : Extent) : Nat := if extent.items < 2 then extent.depth else extent.depth + 1

end Extent

/-- Number of items that a range of a class is written as. -/
def rangeItems (range : Char × Char) : Nat := (classRanges range).length

/-- Total number of items of the ranges of a class. -/
def classItems : List (Char × Char) → Nat
  | [] => 0
  | range :: ranges => rangeItems range + classItems ranges

mutual

/-- Extent of a part. -/
def partExtent : GlobPart → Extent
  | .literal c => ⟨(charBytes c).length, 0⟩
  | .any => ⟨1, 0⟩
  | .star => ⟨1, 1⟩
  | .leading => ⟨1, 4⟩
  | .trailing => ⟨2, 1⟩
  | .between => ⟨1, 4⟩
  | .class _ ranges => ⟨1, if classItems ranges < 2 then 1 else 2⟩
  | .choice branches =>
    let extent := branchesExtent branches
    if extent.items = 0 then ⟨0, 0⟩ else ⟨1, extent.nesting + 1⟩

/-- Extent of a branch. -/
def branchExtent : List GlobPart → Extent
  | [] => ⟨0, 0⟩
  | part :: parts => (partExtent part).append (branchExtent parts)

/-- Extent of alternatives: the number of branches that are not empty, and their nesting. -/
def branchesExtent : List (List GlobPart) → Extent
  | [] => ⟨0, 0⟩
  | branch :: branches =>
    let extent := branchExtent branch
    let others := branchesExtent branches
    if extent.items = 0 then others else Extent.append ⟨1, extent.nesting⟩ others

end

/-- Nesting of the expression of a pattern, which is always a sequence. -/
def nesting (parts : List GlobPart) : Nat := (branchExtent parts).depth + 1

/-- Deepest nesting of expressions. -/
def deepestNesting : Nat := 250

/-- The expression of a pattern nests too deeply. -/
def isTooDeep (parts : List GlobPart) : Bool := deepestNesting < nesting parts

/-- What keeps patterns from being compiled. -/
def limit? (globs : List (List GlobPart)) : Option GlobLimit :=
  match (globs.filter fun parts => manner parts == .extension).find? isTooDeep with
  | some parts => some (.deepExpression (expression parts))
  | none =>
    ((globs.filter fun parts => manner parts == .free).findIdx? isTooDeep).map .deepMember

end Glob

end GoRefactor
