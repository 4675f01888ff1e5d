import GoRefactor.Text.Span

/-!
# Lines and columns

Positions count lines and columns from one, columns in bytes. A line index holds the offsets at
which lines start, and turns offsets into positions.

Offsets are as wide as texts are long, but the two numbers of a position have 32 bits: what exceeds
them is cut off, and the one that is added last wraps around.
-/

namespace GoRefactor

/-- A line and a column, both counted from one. -/
structure Position where
  /-- Line number. -/
  line : UInt32
  /-- Column number, in bytes. -/
  column : UInt32
deriving DecidableEq, Repr, Inhabited

namespace Position

/-- Written form: `line:column`. -/
def text (position : Position) : String := s!"{position.line}:{position.column}"

/-- Reading order of positions. -/
def le (left right : Position) : Bool :=
  left.line < right.line || (left.line == right.line && left.column ≤ right.column)

/-- Strict reading order of positions. -/
def lt (left right : Position) : Bool :=
  left.line < right.line || (left.line == right.line && left.column < right.column)

end Position

/-- Two positions, the second one excluded. -/
structure Region where
  /-- First position. -/
  start : Position
  /-- Position just past the last. -/
  stop : Position
deriving DecidableEq, Repr, Inhabited

namespace Region

/-- The line is between the two end lines, both included. -/
def containsLine (region : Region) (line : UInt32) : Bool :=
  region.start.line ≤ line && line ≤ region.stop.line

/-- The position lies in the region, columns included. -/
def contains (region : Region) (position : Position) : Bool :=
  region.start.le position && position.lt region.stop

end Region

/-- Where the lines of a text start. -/
structure LineIndex where
  /-- Offsets just past each line break, in order. The first line, at offset zero, is implied. -/
  breaks : List Nat
  /-- Number of bytes in the text. -/
  length : Nat
deriving DecidableEq, Repr, Inhabited

namespace LineIndex

/-- Offsets just past each line break of a text that begins at `offset`. -/
def breaksFrom (offset : Nat) : List Char → List Nat
  | [] => []
  | c :: cs =>
    if c == '\n' then (offset + c.utf8Size) :: breaksFrom (offset + c.utf8Size) cs
    else breaksFrom (offset + c.utf8Size) cs

/-- The line index of a text. -/
def ofChars (content : List Char) : LineIndex :=
  ⟨breaksFrom 0 content, byteLength content⟩

/-- The line index of a text. -/
def ofText (content : String) : LineIndex := ofChars content.toList

/-- Offsets at which lines start. -/
def starts (index : LineIndex) : List Nat := 0 :: index.breaks

/-- What a binary search finds among numbers in ascending order: the place of the wanted one, or
else the place where it would be put. -/
def search (wanted : Nat) (numbers : List Nat) : Except Nat Nat :=
  let place := (numbers.takeWhile (· < wanted)).length
  if numbers[place]? = some wanted then .ok place else .error place

/-- The line of an offset, counted from zero. -/
def lineOf (index : LineIndex) (offset : Nat) : Nat :=
  match search offset index.starts with
  | .ok place => place
  | .error place => place - 1

/-- Position of an offset; offsets past the end count as the end. -/
def position (index : LineIndex) (offset : Nat) : Position :=
  let offset := min offset index.length
  let line := index.lineOf offset
  ⟨UInt32.ofNat line + 1, UInt32.ofNat (offset - index.starts.getD line 0) + 1⟩

/-- Positions of both ends of a span. -/
def region (index : LineIndex) (span : Span) : Region :=
  ⟨index.position span.start, index.position span.stop⟩

end LineIndex

end GoRefactor
