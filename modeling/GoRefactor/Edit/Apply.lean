import GoRefactor.Error
import GoRefactor.Go.Walk
import GoRefactor.Module.Basic
import GoRefactor.Sort
import GoRefactor.Symbol.Basic

/-!
# Applying edits

Edits are checked as a whole before anything changes. Then each file's text is spliced, every
span of its declarations moves to the new text, names at replaced spans are replaced, and the
declarations are put under their new names.
-/

namespace GoRefactor

namespace Edit

/-- Drop edits that do the same as the one kept before them. -/
def distinctAfter (kept : Edit) : List Edit → List Edit
  | [] => []
  | edit :: rest =>
    if kept.sameEffect edit then distinctAfter kept rest else edit :: distinctAfter edit rest

/-- Edits by file and span, those that do the same once. -/
def arrange (edits : List Edit) : List Edit :=
  match sortBy Edit.le edits with
  | [] => []
  | first :: rest => first :: distinctAfter first rest

/-- Put the replacement in place of the edit's span. -/
def splice (edit : Edit) (content : String) : String :=
  match textBetween? content 0 edit.span.start,
      textBetween? content edit.span.stop content.utf8ByteSize with
  | some before, some behind => before ++ edit.replacement ++ behind
  | _, _ => content

/-- Apply ordered edits to a text, the last one first, so that earlier spans stay valid. -/
def spliceAll (edits : List Edit) (content : String) : String := edits.foldr splice content

/-- What an edit does to the offsets of a text. -/
structure Shift where
  /-- The bytes that give way. -/
  span : Span
  /-- By how much the text becomes longer. -/
  delta : Int
deriving DecidableEq, Repr

/-- What the edit does to offsets. -/
def shift (edit : Edit) : Shift := ⟨edit.span, edit.delta⟩

/-- The text changes before an offset: an insertion in front of it, or a replacement that ends at or
before it. -/
def Shift.precedes (shift : Shift) (offset : Nat) : Bool :=
  if shift.span.isEmpty then shift.span.start < offset else shift.span.stop ≤ offset

/-- How much longer the text before an offset becomes. -/
def growthBefore (offset : Nat) : List Shift → Int
  | [] => 0
  | shift :: rest =>
    if shift.precedes offset then shift.delta + growthBefore offset rest
    else growthBefore offset rest

/-- Where an offset of the old text is in the new text. -/
def moveOffset (shifts : List Shift) (offset : Nat) : Nat :=
  shiftOffset (growthBefore offset shifts) offset

/-- The text that replaces what stands at a span. -/
def replacementAt (edits : List Edit) (span : Span) : Option String :=
  (edits.find? fun edit => !edit.span.isEmpty && edit.span == span).map (·.replacement)

/-- Move spans of the old text to the new text, and replace names at replaced spans. -/
def remap (edits : List Edit) : SpanVisitor (Except Fault) :=
  let shifts := edits.map shift
  { span := fun span => Span.between (moveOffset shifts span.start) (moveOffset shifts span.stop)
    name := fun name span => .ok ((replacementAt edits span).getD name) }

/-- A file after edits of its text. -/
def applyToFile (edits : List Edit) (file : SourceFile) : Except Fault SourceFile := do
  let edited := { file with content := spliceAll edits file.content }
  let moved ← (remap edits).file edited
  return moved.rekey

end Edit

namespace Module

/-- The first reason why a file's edits do not apply. -/
def editConflict? (module : Module) (path : String) (edits : List Edit) : Option Conflict :=
  match module.file? path with
  | none => some (.missingFile path)
  | some file => edits.findSome? fun edit => edit.conflict? file.content

/-- Apply checked edits to the file with a path. -/
def editFile (module : Module) (edits : List Edit) (path : String) : Except Fault Module :=
  match module.file? path with
  | none => .ok module
  | some file => do
    let edited ← Edit.applyToFile (edits.filter fun edit => edit.file == path) file
    return (module.updateFile path fun _ => edited).markModified path

/-- Apply checked edits, file by file. -/
def editFiles (module : Module) (edits : List Edit) (paths : List String) : Except Fault Module :=
  paths.foldlM (fun module path => module.editFile edits path) module

/-- Apply edits to the files of a module, all of them or none. Gives the new module and the paths
of the changed files in order. -/
def applyEdits (module : Module) (edits : List Edit) : Attempt (Module × List String) := do
  let arranged := Edit.arrange edits
  let paths := dropRepeats (arranged.map (·.file))
  match (Edit.overlaps arranged).head? with
  | some conflict => Attempt.refuse (.apply conflict)
  | none =>
    match paths.findSome? fun path =>
        module.editConflict? path (arranged.filter fun edit => edit.file == path) with
    | some conflict => Attempt.refuse (.apply conflict)
    | none =>
      let edited ← ExceptT.lift (module.editFiles arranged paths)
      return (edited.touch, paths)

end Module

end GoRefactor
