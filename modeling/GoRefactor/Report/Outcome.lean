import GoRefactor.Snapshot.Syntax
import GoRefactor.Transform.Outcome

/-!
# Edits, changes and outcomes in reports

JSON forms of what transformations plan and do.
-/

namespace GoRefactor.Report

/-- An edit. -/
def edit (edit : Edit) : Json :=
  .object [
    ("file", .string edit.file),
    ("span", Snapshot.encodeSpan edit.span),
    ("replacement", .string edit.replacement),
    ("original", .string edit.replaced),
    ("expected", .string edit.expected)]

/-- A change. -/
def change (change : Change) : Json :=
  .object [
    ("file", .string change.file),
    ("line", .nat change.line.toNat),
    ("column", .nat change.column.toNat),
    ("original", .string change.before),
    ("new", .string change.after)]

/-- Read a change. -/
def change? (json : Json) : Option Change := do
  let record ← json.record? false ["file", "line", "column", "original", "new"]
  let file ← record.required? "file" Json.text?
  let line ← record.required? "line" Json.halfWord?
  let column ← record.required? "column" Json.halfWord?
  let before ← record.required? "original" Json.text?
  let after ← record.required? "new" Json.text?
  return ⟨file, UInt32.ofNat line, UInt32.ofNat column, before, after⟩

/-- A conflict, tagged by its kind. -/
def conflict : Conflict → Json
  | .overlapping file first second =>
    .object [("OverlappingSpans", .object [
      ("file", .string file),
      ("first", Snapshot.encodeSpan first),
      ("second", Snapshot.encodeSpan second)])]
  | .outOfBounds file span length =>
    .object [("SpanOutOfBounds", .object [
      ("file", .string file),
      ("span", Snapshot.encodeSpan span),
      ("file_len", .nat length)])]
  | .splitsCharacter file span =>
    .object [("NotCharBoundary", .object [
      ("file", .string file),
      ("span", Snapshot.encodeSpan span)])]
  | .changed file span expected actual =>
    .object [("HashMismatch", .object [
      ("file", .string file),
      ("span", Snapshot.encodeSpan span),
      ("expected", .string expected),
      ("actual", .string actual)])]
  | .missingFile file => .object [("FileMissing", .object [("file", .string file)])]

/-- Kind, exit code and wording of an error. -/
def failure (error : Error) : Json :=
  .object [
    ("kind", .string error.kind.name),
    ("code", .nat error.code),
    ("message", .string error.message)]

/-- What a transformation reports. -/
def outcome (outcome : Outcome) : Json :=
  .object ([
    ("success", .bool outcome.success),
    ("summary", .string outcome.summary),
    ("changes", .array (outcome.changes.map change)),
    ("affected_files", .strings outcome.affectedFiles),
    ("files_affected", .nat outcome.affectedFiles.length),
    ("warnings", .strings outcome.warnings)] ++
    Json.present "error" failure outcome.failure)

end GoRefactor.Report
