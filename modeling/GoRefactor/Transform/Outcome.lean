import GoRefactor.Error
import GoRefactor.Sort
import GoRefactor.Text.Blank
import GoRefactor.Text.Split

/-!
# Outcomes

What a transformation reports: the changes it made or would make, in order, the warnings, and the
error if it was refused. Outcomes of several steps are put together one after the other.
-/

namespace GoRefactor

/-- Texts in increasing order. -/
def sortTexts (texts : List String) : List String :=
  sortBy (fun left right => decide (left ≤ right)) texts

/-- Texts in increasing order, each once. -/
def distinctSorted (texts : List String) : List String := (sortTexts texts).eraseDups

/-- What a transformation reports. -/
structure Outcome where
  /-- What happened, in words. -/
  summary : String
  /-- The changes, ordered by file, line and column. -/
  changes : List Change
  /-- What was left alone, in words. -/
  warnings : List String
  /-- Why the transformation was refused, if it was. -/
  failure : Option Error
deriving DecidableEq, Repr, Inhabited

/-- Changes ordered by file, line and column. -/
def sortChanges (changes : List Change) : List Change := sortBy Change.le changes

namespace Outcome

/-- The transformation was carried out. -/
def succeeded (summary : String) (changes : List Change) (warnings : List String) : Outcome :=
  ⟨summary, sortChanges changes, warnings, none⟩

/-- The transformation was refused; nothing changed. -/
def failed (error : Error) : Outcome := ⟨error.message, [], [], some error⟩

/-- The transformation was not refused. -/
def success (outcome : Outcome) : Bool := outcome.failure.isNone

/-- Files with changes, in increasing order. -/
def affectedFiles (outcome : Outcome) : List String :=
  distinctSorted (outcome.changes.map (·.file))

/-- Put the outcome of a further step behind. A refusal brings its own summary. -/
def absorb (outcome next : Outcome) : Outcome where
  summary := if next.success then outcome.summary else next.summary
  changes := sortChanges (outcome.changes ++ next.changes)
  warnings := outcome.warnings ++ next.warnings
  failure := if next.success then outcome.failure else next.failure

/-- One line for each change, numbered. -/
def preview (outcome : Outcome) : String :=
  String.join (outcome.changes.zipIdx.map fun (change, place) =>
    let number := place + 1
    let before := trimTextEnd change.before
    let after := trimTextEnd change.after
    s!"{number}. In {change.file} (line {change.line}): - Before: {before} / - After: {after}\n")

end Outcome

/-- Drop line breaks at the end. -/
def dropFinalBreaks (cs : List Char) : List Char := (cs.reverse.dropWhile (· == '\n')).reverse

/-- Lines of a changed text; none if there is no text. -/
def changedLines (text : String) : List String :=
  if text.isEmpty then []
  else (splitChars '\n' (dropFinalBreaks text.toList)).map String.ofList

/-- The part of a unified diff that shows one change. -/
def diffHunk (change : Change) : String :=
  let removed := changedLines change.before
  let added := changedLines change.after
  s!"@@ -{change.line},{removed.length} +{change.line},{added.length} @@\n" ++
    String.join (removed.map fun line => "-" ++ line ++ "\n") ++
    String.join (added.map fun line => "+" ++ line ++ "\n")

/-- Changes as a unified diff without context: files by path, changes by line and column. -/
def unifiedDiff (changes : List Change) : String :=
  String.join ((distinctSorted (changes.map (·.file))).map fun file =>
    let inOrder (left right : Change) : Bool :=
      (⟨left.line, left.column⟩ : Position).le ⟨right.line, right.column⟩
    let own := sortBy inOrder (changes.filter fun change => change.file == file)
    s!"--- a/{file}\n+++ b/{file}\n" ++ String.join (own.map diffHunk))

end GoRefactor
