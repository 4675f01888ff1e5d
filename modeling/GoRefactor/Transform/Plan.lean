import GoRefactor.Transform.Extract

/-!
# Plans

A plan is a rename, an extraction, or a chain of plans. A chain runs its steps in order and stops
at the first that is refused; what earlier steps did stays done.
-/

namespace GoRefactor

/-- A transformation as data. -/
inductive Transformation where
  /-- Rename declarations. -/
  | rename (options : RenameOptions)
  /-- Extract interfaces. -/
  | extract (options : ExtractionOptions)
  /-- Run steps in order. -/
  | chain (steps : List Transformation)
deriving Inhabited, Repr

namespace Transformation

/-- Name of a transformation in output. -/
def name : Transformation → String
  | .rename _ => "rename"
  | .extract _ => "extract_interfaces"
  | .chain _ => "chain"

/-- What a completed chain reports, in words. -/
def chainSummary (completed : Nat) (outcome : Outcome) : String :=
  s!"{completed} step(s) completed: {outcome.changes.length} change(s) in " ++
    s!"{outcome.affectedFiles.length} file(s)"

mutual

/-- Carry a transformation out. -/
def run : Transformation → Module → Except Fault (Module × Outcome)
  | .rename options, module => options.run module
  | .extract options, module => options.run Naming.interfaceName module
  | .chain steps, module => runSteps steps 0 (.succeeded "" [] []) module

/-- Carry the remaining steps of a chain out, after `completed` steps with an outcome so far. -/
def runSteps : List Transformation → Nat → Outcome → Module → Except Fault (Module × Outcome)
  | [], completed, outcome, module =>
    .ok (module, { outcome with summary := chainSummary completed outcome })
  | step :: rest, completed, outcome, module =>
    match step.run module with
    | .error fault => .error fault
    | .ok (next, result) =>
      if result.success then runSteps rest (completed + 1) (outcome.absorb result) next
      else .ok (next, outcome.absorb result)

end

mutual

/-- Every step only says what would change. -/
def isDry : Transformation → Bool
  | .rename options => options.dryRun
  | .extract options => options.dryRun
  | .chain steps => areDry steps

/-- Every step of a list only says what would change. -/
def areDry : List Transformation → Bool
  | [] => true
  | step :: rest => step.isDry && areDry rest

end

mutual

/-- The transformation with every step made to only say what would change. -/
def dry : Transformation → Transformation
  | .rename options => .rename { options with dryRun := true }
  | .extract options => .extract { options with dryRun := true }
  | .chain steps => .chain (dryAll steps)

/-- Steps made to only say what would change. -/
def dryAll : List Transformation → List Transformation
  | [] => []
  | step :: rest => step.dry :: dryAll rest

end

end Transformation

end GoRefactor
