import GoRefactor.Text.Position
import GoRefactor.Text.Sha256

/-!
# Edits

A planned change of text: the bytes of a span in one file give way to a replacement. An edit
carries the hash of the text it expects, so that a plan made on other text is refused.
-/

namespace GoRefactor

/-- A replacement of one span of one file. -/
structure Edit where
  /-- Path of the file. -/
  file : String
  /-- The bytes that give way. -/
  span : Span
  /-- The text put in their place. -/
  replacement : String
  /-- The text that stood there when the edit was planned. -/
  replaced : String
  /-- Hash of the text that must stand there. -/
  expected : String
deriving DecidableEq, Repr, Inhabited

/-- Why edits cannot be applied. -/
inductive Conflict where
  /-- Two edits share bytes. -/
  | overlapping (file : String) (first second : Span)
  /-- The span leaves the text. -/
  | outOfBounds (file : String) (span : Span) (length : Nat)
  /-- The span cuts a character. -/
  | splitsCharacter (file : String) (span : Span)
  /-- Other text stands at the span. -/
  | changed (file : String) (span : Span) (expected actual : String)
  /-- There is no such file. -/
  | missingFile (file : String)
deriving DecidableEq, Repr, Inhabited

/-- The conflict in words. -/
def Conflict.message : Conflict → String
  | .overlapping file first second =>
    s!"overlapping edits in {file}: {first.text} and {second.text}"
  | .outOfBounds file span length =>
    s!"edit span {span.text} out of bounds for {file} ({length} bytes)"
  | .splitsCharacter file span => s!"edit span {span.text} in {file} splits a character"
  | .changed file span _ _ => s!"content at {span.text} in {file} changed since planning"
  | .missingFile file => s!"file {file} is not in the module"

namespace Edit

/-- Plan a replacement, if the span is a valid cut of the content. -/
def replace? (file content : String) (span : Span) (replacement : String) : Option Edit :=
  (span.slice? content).map fun replaced =>
    ⟨file, span, replacement, replaced, sha256 replaced⟩

/-- Plan an insertion. -/
def insert (file : String) (offset : Nat) (text : String) : Edit :=
  ⟨file, Span.point offset, text, "", sha256 ""⟩

/-- By how much the edit lengthens the text, as a signed word. -/
def delta (edit : Edit) : Int :=
  signedWord (edit.replacement.utf8ByteSize - signedWord edit.span.length)

/-- The first reason why the edit does not apply to a content. -/
def conflict? (edit : Edit) (content : String) : Option Conflict :=
  let length := content.utf8ByteSize
  if edit.span.stop > length || edit.span.start > edit.span.stop then
    some (.outOfBounds edit.file edit.span length)
  else
    match edit.span.slice? content with
    | none => some (.splitsCharacter edit.file edit.span)
    | some current =>
      let actual := sha256 current
      if actual == edit.expected then none
      else some (.changed edit.file edit.span edit.expected actual)

/-- Order by file, then by span. -/
def le (left right : Edit) : Bool :=
  left.file < right.file || (left.file == right.file && left.span.le right.span)

/-- Two edits that do the same. -/
def sameEffect (left right : Edit) : Bool :=
  left.file == right.file && left.span == right.span && left.replacement == right.replacement

/-- Conflicts between neighbours in a list of edits. -/
def overlaps : List Edit → List Conflict
  | first :: second :: rest =>
    let following := overlaps (second :: rest)
    if first.file == second.file && first.span.overlaps second.span then
      .overlapping first.file first.span second.span :: following
    else following
  | _ => []

end Edit

/-- A textual change as it is reported. -/
structure Change where
  /-- Path of the file. -/
  file : String
  /-- Line on which the change starts. -/
  line : UInt32
  /-- Column at which it starts, in bytes. -/
  column : UInt32
  /-- The text that gave way. -/
  before : String
  /-- The text put in its place. -/
  after : String
deriving DecidableEq, Repr, Inhabited

namespace Change

/-- An edit as a change of the text with the given lines. -/
def ofEditIn (lines : LineIndex) (edit : Edit) : Change :=
  let position := lines.position edit.span.start
  ⟨edit.file, position.line, position.column, edit.replaced, edit.replacement⟩

/-- An edit as a change of the content it was planned on. -/
def ofEdit (edit : Edit) (content : String) : Change := ofEditIn (LineIndex.ofText content) edit

/-- Order by file, line, column and the two texts. -/
def le (left right : Change) : Bool :=
  left.file < right.file || (left.file == right.file &&
    (left.line < right.line || (left.line == right.line &&
      (left.column < right.column || (left.column == right.column &&
        (left.before < right.before || (left.before == right.before &&
          left.after ≤ right.after)))))))

end Change

end GoRefactor
