import GoRefactor.Proofs.Transform.RenamePlan

/-!
# What a dry run says about the real one

A dry run changes nothing. What it reports is what the real run reports, except where the two part:
a single transformation whose plan is accepted may be refused when the plan is carried out, and a
later step of a chain is planned on the module as it was, not on the one that the earlier steps
leave. The laws here say exactly when they do not part.
-/

namespace GoRefactor

namespace Change

/-- Changes are ordered by file, line and column, then by the text before and after. -/
theorem le_iff (left right : Change) :
    left.le right = true ↔
      left.file < right.file ∨ (left.file = right.file ∧
        (left.line < right.line ∨ (left.line = right.line ∧
          (left.column < right.column ∨ (left.column = right.column ∧
            (left.before < right.before ∨ (left.before = right.before ∧
              left.after ≤ right.after))))))) := by
  simp [Change.le]

/-- Of two changes one comes first. -/
theorem le_total (left right : Change) : left.le right = true ∨ right.le left = true := by
  rw [le_iff, le_iff]
  grind

/-- The order of changes is transitive. -/
theorem le_trans (left middle right : Change) (first : left.le middle = true)
    (second : middle.le right = true) : left.le right = true := by
  rw [le_iff] at *
  grind

/-- Changes that the order does not tell apart are equal. -/
theorem le_antisymm (left right : Change) (first : left.le right = true)
    (second : right.le left = true) : left = right := by
  rw [le_iff] at *
  cases left
  cases right
  grind

end Change

/-- Changes are in order. -/
def InOrder (changes : List Change) : Prop :=
  changes.Pairwise fun left right => left.le right = true

/-- Sorted changes are in order. -/
theorem inOrder_sortChanges (changes : List Change) : InOrder (sortChanges changes) :=
  pairwise_sortBy Change.le_total Change.le_trans changes

/-- Two lists of changes in order are equal if they are so behind equal changes. -/
theorem InOrder.cancel {front left right : List Change} (leftOrder : InOrder left)
    (rightOrder : InOrder right)
    (same : sortChanges (front ++ left) = sortChanges (front ++ right)) : left = right := by
  have permuted : (front ++ left).Perm (front ++ right) := by
    have sorted : (sortChanges (front ++ left)).Perm (front ++ right) := by
      rw [same]
      exact sortBy_perm Change.le _
    exact (sortBy_perm Change.le _).symm.trans sorted
  have rest : left.Perm right := (List.perm_append_left_iff front).mp permuted
  exact rest.eq_of_pairwise (fun first second _ _ => Change.le_antisymm first second) leftOrder
    rightOrder

/-- What a run tells its caller, the words of its summary apart. -/
structure Told where
  /-- The run was not refused. -/
  success : Bool
  /-- The changes. -/
  changes : List Change
  /-- Files with changes. -/
  affectedFiles : List String
  /-- What was left alone. -/
  warnings : List String
deriving DecidableEq, Repr

/-- What an outcome tells. -/
def Outcome.told (outcome : Outcome) : Told :=
  ⟨outcome.success, outcome.changes, outcome.affectedFiles, outcome.warnings⟩

/-- What a run tells, if it ends. -/
def told (run : Except Fault (Module × Outcome)) : Except Fault Told :=
  run.map fun result => result.2.told

namespace Outcome

/-- Outcomes tell the same if they agree on success, changes and warnings. -/
theorem told_eq_iff {left right : Outcome} :
    left.told = right.told ↔ left.success = right.success ∧ left.changes = right.changes ∧
      left.warnings = right.warnings := by
  unfold told affectedFiles
  rw [Told.mk.injEq]
  constructor
  · rintro ⟨success, changes, -, warnings⟩
    exact ⟨success, changes, warnings⟩
  · rintro ⟨success, changes, warnings⟩
    exact ⟨success, changes, by rw [changes], warnings⟩

/-- A chain is refused as soon as a step is. -/
theorem success_absorb (outcome next : Outcome) :
    (outcome.absorb next).success = (outcome.success && next.success) := by
  unfold absorb
  cases done : next.success with
  | true =>
    rw [Bool.and_true]
    rfl
  | false =>
    rw [Bool.and_false]
    simpa [success] using done

/-- Behind outcomes that tell the same, two steps tell the same exactly when the whole does. -/
theorem told_absorb_iff {left right leftNext rightNext : Outcome}
    (before : left.told = right.told) (going : left.success = true)
    (leftOrder : InOrder leftNext.changes) (rightOrder : InOrder rightNext.changes) :
    (left.absorb leftNext).told = (right.absorb rightNext).told ↔
      leftNext.told = rightNext.told := by
  obtain ⟨success, changes, warnings⟩ := told_eq_iff.mp before
  rw [told_eq_iff, told_eq_iff, success_absorb, success_absorb, ← success, going, Bool.true_and,
    Bool.true_and]
  have sorted : ∀ outcome next : Outcome,
      (outcome.absorb next).changes = sortChanges (outcome.changes ++ next.changes) :=
    fun _ _ => rfl
  have joined : ∀ outcome next : Outcome,
      (outcome.absorb next).warnings = outcome.warnings ++ next.warnings := fun _ _ => rfl
  rw [sorted, sorted, joined, joined, ← changes, ← warnings, List.append_right_inj]
  constructor
  · rintro ⟨same, equal, rest⟩
    exact ⟨same, leftOrder.cancel rightOrder equal, rest⟩
  · rintro ⟨same, equal, rest⟩
    exact ⟨same, by rw [equal], rest⟩

end Outcome

namespace Transformation

mutual

/-- The transformation with every step made to carry its plan out. -/
def real : Transformation → Transformation
  | .rename options => .rename { options with dryRun := false }
  | .extract options => .extract { options with dryRun := false }
  | .chain steps => .chain (realAll steps)

/-- Steps made to carry their plans out. -/
def realAll : List Transformation → List Transformation
  | [] => []
  | step :: rest => step.real :: realAll rest

end

mutual

/-- A dry run leaves the module as it is. -/
theorem dry_run_keeps : ∀ (transformation : Transformation) {module final : Module}
    {outcome : Outcome}, transformation.dry.run module = .ok (final, outcome) → final = module
  | .rename options, module, final, outcome, run => by
    rw [dry, Transformation.run] at run
    rcases RenameOptions.run_eq_ok.mp run with attempted | ⟨_, -, same, -⟩
    · obtain ⟨_, -, -, same⟩ := RenameOptions.attempt_eq_ok.mp attempted
      exact same
    · exact same
  | .extract options, module, final, outcome, run => by
    rw [dry, Transformation.run] at run
    rcases ExtractionOptions.run_eq_ok.mp run with ⟨_, -, same, -⟩ | ⟨_, -, ending⟩
    · exact same
    · exact ending.1
  | .chain steps, module, final, outcome, run => by
    rw [dry, Transformation.run] at run
    exact dry_runSteps_keeps steps run

/-- Dry steps leave the module as it is. -/
theorem dry_runSteps_keeps : ∀ (steps : List Transformation) {completed : Nat} {before : Outcome}
    {module final : Module} {outcome : Outcome},
    runSteps (dryAll steps) completed before module = .ok (final, outcome) → final = module
  | [], completed, before, module, final, outcome, run => by
    rw [dryAll, runSteps] at run
    cases run
    rfl
  | step :: rest, completed, before, module, final, outcome, run => by
    rw [dryAll, runSteps] at run
    rcases stepped : step.dry.run module with fault | ⟨next, result⟩
    · rw [stepped] at run
      cases run
    · have same := dry_run_keeps step stepped
      simp only [stepped] at run
      split at run
      · rw [same] at run
        exact dry_runSteps_keeps rest run
      · cases run
        exact same

end

mutual

/-- A run reports its changes in order. -/
theorem run_inOrder : ∀ (transformation : Transformation) {module final : Module}
    {outcome : Outcome}, transformation.run module = .ok (final, outcome) →
      InOrder outcome.changes
  | .rename options, module, final, outcome, run => by
    rw [Transformation.run] at run
    rcases RenameOptions.run_eq_ok.mp run with attempted | ⟨error, -, -, rfl⟩
    · obtain ⟨plan, -, reported, -⟩ := RenameOptions.attempt_eq_ok.mp attempted
      rw [show outcome = options.report plan from reported]
      exact inOrder_sortChanges _
    · exact List.Pairwise.nil
  | .extract options, module, final, outcome, run => by
    rw [Transformation.run] at run
    rcases ExtractionOptions.run_eq_ok.mp run with ⟨error, -, -, rfl⟩ | ⟨plan, -, ending⟩
    · exact List.Pairwise.nil
    · split at ending
      · rw [ending.2]
        exact inOrder_sortChanges _
      · rcases ending with ⟨-, rfl⟩ | ⟨error, -, rfl⟩
        · exact inOrder_sortChanges _
        · exact List.Pairwise.nil
  | .chain steps, module, final, outcome, run => by
    rw [Transformation.run] at run
    have none : InOrder (Outcome.succeeded "" [] []).changes := List.Pairwise.nil
    exact runSteps_inOrder steps none run

/-- Steps report their changes in order. -/
theorem runSteps_inOrder : ∀ (steps : List Transformation) {completed : Nat} {before : Outcome}
    {module final : Module} {outcome : Outcome}, InOrder before.changes →
    runSteps steps completed before module = .ok (final, outcome) → InOrder outcome.changes
  | [], completed, before, module, final, outcome, ordered, run => by
    rw [runSteps] at run
    cases run
    exact ordered
  | step :: rest, completed, before, module, final, outcome, ordered, run => by
    rw [runSteps] at run
    rcases stepped : step.run module with fault | ⟨next, result⟩
    · rw [stepped] at run
      cases run
    · simp only [stepped] at run
      split at run
      · exact runSteps_inOrder rest (inOrder_sortChanges _) run
      · cases run
        exact inOrder_sortChanges _

end

/-- A dry run on one module tells what the real run on another one does. -/
def Foretold (transformation : Transformation) (start reached : Module) : Prop :=
  told (transformation.dry.run start) = told (transformation.real.run reached)

/-- A dry run tells what the real run does. -/
def Predicted (transformation : Transformation) (module : Module) : Prop :=
  transformation.Foretold module module

/-- Every step that the real run reaches does there what a dry run of it on the first module
tells. -/
def StepsForetold (start : Module) : List Transformation → Module → Prop
  | [], _ => True
  | step :: rest, reached =>
    step.Foretold start reached ∧
      ∀ next outcome, step.real.run reached = .ok (next, outcome) → outcome.success = true →
        StepsForetold start rest next

/-- A chain that goes on behind a step tells what the step and the rest tell, or stops there. -/
theorem told_runSteps_cons (step : Transformation) (rest : List Transformation) (completed : Nat)
    (before : Outcome) {module next : Module} {result : Outcome}
    (stepped : step.run module = .ok (next, result)) :
    told (runSteps (step :: rest) completed before module) =
      if result.success then told (runSteps rest (completed + 1) (before.absorb result) next)
      else .ok (before.absorb result).told := by
  rw [runSteps, stepped]
  dsimp only
  split
  · rfl
  · rfl

/-- A chain that has come to its end tells what it has told. -/
theorem told_runSteps_nil (completed : Nat) (before : Outcome) (module : Module) :
    told (runSteps [] completed before module) = .ok before.told := by
  rw [runSteps]
  rfl

/-- A fault in a step stops the chain. -/
theorem told_runSteps_fault (step : Transformation) (rest : List Transformation) (completed : Nat)
    (before : Outcome) {module : Module} {fault : Fault}
    (stopped : step.run module = .error fault) :
    told (runSteps (step :: rest) completed before module) = .error fault := by
  rw [runSteps, stopped]
  rfl

/-- A chain with one more step tells what it has told and what the step tells. -/
theorem told_runSteps_singleton (step : Transformation) (completed : Nat) (before : Outcome)
    {module next : Module} {result : Outcome} (stepped : step.run module = .ok (next, result)) :
    told (runSteps [step] completed before module) = .ok (before.absorb result).told := by
  rw [told_runSteps_cons step [] completed before stepped, told_runSteps_nil]
  split
  · rfl
  · rfl

/-- Behind outcomes that tell the same, the dry and the real run of one step tell the same exactly
when they do so alone. -/
theorem told_single_iff (step : Transformation) (start reached : Module) (completed : Nat)
    {before beforeReal : Outcome} (same : before.told = beforeReal.told)
    (going : before.success = true) :
    told (runSteps (dryAll [step]) completed before start) =
        told (runSteps (realAll [step]) completed beforeReal reached) ↔
      step.Foretold start reached := by
  unfold Foretold
  simp only [dryAll, realAll]
  rcases dry : step.dry.run start with fault | ⟨kept, predicted⟩
  · rw [told_runSteps_fault _ _ _ _ dry]
    rcases real : step.real.run reached with stop | ⟨next, actual⟩
    · rw [told_runSteps_fault _ _ _ _ real]
      exact Iff.rfl
    · rw [told_runSteps_singleton _ _ _ real]
      constructor
      · intro equal
        cases equal
      · intro equal
        cases equal
  · rw [told_runSteps_singleton _ _ _ dry]
    rcases real : step.real.run reached with stop | ⟨next, actual⟩
    · rw [told_runSteps_fault _ _ _ _ real]
      constructor
      · intro equal
        cases equal
      · intro equal
        cases equal
    · rw [told_runSteps_singleton _ _ _ real]
      have absorbed := Outcome.told_absorb_iff same going (run_inOrder _ dry) (run_inOrder _ real)
      constructor
      · intro equal
        exact congrArg Except.ok (absorbed.mp (Except.ok.inj equal))
      · intro equal
        exact congrArg Except.ok (absorbed.mpr (Except.ok.inj equal))

/-- Behind outcomes that tell the same, all beginnings of a chain are predicted exactly when every
step that is reached is foretold. -/
theorem stepsForetold_iff (start : Module) (steps : List Transformation) (completed : Nat)
    {before beforeReal : Outcome} (reached : Module) (same : before.told = beforeReal.told)
    (going : before.success = true) :
    (∀ count, told (runSteps (dryAll (steps.take count)) completed before start) =
        told (runSteps (realAll (steps.take count)) completed beforeReal reached)) ↔
      StepsForetold start steps reached := by
  -- The induction is on the steps; the outcomes so far and the module reached vary with it.
  induction steps generalizing completed before beforeReal reached with
  | nil =>
    simp only [List.take_nil, dryAll, realAll, told_runSteps_nil, same, implies_true,
      StepsForetold]
  | cons step rest ih =>
    rw [StepsForetold]
    constructor
    · intro predicted
      have first : step.Foretold start reached :=
        (told_single_iff step start reached completed same going).mp (predicted 1)
      refine ⟨first, ?_⟩
      intro next actual real done
      unfold Foretold at first
      rcases dry : step.dry.run start with fault | ⟨kept, expected⟩
      · rw [dry, real] at first
        cases first
      · have unchanged := dry_run_keeps step dry
        subst unchanged
        rw [dry, real] at first
        have tells : expected.told = actual.told := Except.ok.inj first
        have accepted : expected.success = true := (Outcome.told_eq_iff.mp tells).1.trans done
        have absorbed := (Outcome.told_absorb_iff same going (run_inOrder _ dry)
          (run_inOrder _ real)).mpr tells
        refine (ih (completed + 1) next absorbed
          (by rw [Outcome.success_absorb, going, accepted]; rfl)).mp ?_
        intro count
        have longer := predicted (count + 1)
        simp only [List.take_succ_cons, dryAll, realAll] at longer
        rw [told_runSteps_cons _ _ _ _ dry, told_runSteps_cons _ _ _ _ real, accepted,
          done] at longer
        exact longer
    · rintro ⟨first, later⟩ count
      cases count with
      | zero => rw [List.take_zero, dryAll, realAll, told_runSteps_nil, told_runSteps_nil, same]
      | succ count =>
        have foretold := first
        unfold Foretold at foretold
        simp only [List.take_succ_cons, dryAll, realAll]
        rcases dry : step.dry.run start with fault | ⟨kept, expected⟩
        · rcases real : step.real.run reached with stop | ⟨next, actual⟩
          · rw [told_runSteps_fault _ _ _ _ dry, told_runSteps_fault _ _ _ _ real]
            rw [dry, real] at foretold
            exact foretold
          · rw [dry, real] at foretold
            cases foretold
        · rcases real : step.real.run reached with stop | ⟨next, actual⟩
          · rw [dry, real] at foretold
            cases foretold
          · have unchanged := dry_run_keeps step dry
            subst unchanged
            rw [dry, real] at foretold
            have tells : expected.told = actual.told := Except.ok.inj foretold
            have success := (Outcome.told_eq_iff.mp tells).1
            have absorbed := (Outcome.told_absorb_iff same going (run_inOrder _ dry)
              (run_inOrder _ real)).mpr tells
            rw [told_runSteps_cons _ _ _ _ dry, told_runSteps_cons _ _ _ _ real, success]
            by_cases done : actual.success = true
            · rw [if_pos done, if_pos done]
              refine (ih (completed + 1) next absorbed ?_).mpr (later next actual real done) count
              rw [Outcome.success_absorb, going, success, done]
              rfl
            · rw [if_neg done, if_neg done, absorbed]

/-- The dry run of a rename predicts the real one exactly when the edits of its plan, if there is
one, are accepted. -/
theorem predicted_rename_iff (options : RenameOptions) (module : Module) :
    (rename options).Predicted module ↔
      ∀ plan, (options.plan module).run = .ok (.ok plan) →
        ∃ edited paths, (module.applyEdits plan.edits).run = .ok (.ok (edited, paths)) := by
  have samePlan : ∀ dryRun, ({ options with dryRun } : RenameOptions).plan module =
      options.plan module := fun _ => rfl
  unfold Predicted Foretold
  rw [dry, real, Transformation.run, Transformation.run]
  rcases planned : (options.plan module).run with fault | error | plan
  · have stops : ∀ dryRun, ({ options with dryRun } : RenameOptions).run module =
        .error fault := fun dryRun =>
      RenameOptions.run_of_fault (Attempt.run_bind_fault _ ((samePlan dryRun).symm ▸ planned))
    rw [stops, stops]
    simp
  · have refused : ∀ dryRun, ({ options with dryRun } : RenameOptions).run module =
        .ok (module, .failed error) := fun dryRun =>
      RenameOptions.run_eq_ok.mpr (Or.inr
        ⟨error, Attempt.run_bind_error _ ((samePlan dryRun).symm ▸ planned), rfl, rfl⟩)
    rw [refused, refused]
    simp
  · have predicted : ({ options with dryRun := true } : RenameOptions).run module =
        .ok (module, RenameOptions.report { options with dryRun := true } plan) :=
      RenameOptions.run_eq_ok.mpr (Or.inl (RenameOptions.attempt_eq_ok.mpr
        ⟨plan, (samePlan true).symm ▸ planned, rfl, rfl⟩))
    rw [predicted]
    have carry := Attempt.run_bind_ok (fun plan => do
      let outcome := RenameOptions.report { options with dryRun := false } plan
      let applied ← module.applyEdits plan.edits
      return (applied.1, outcome)) planned
    constructor
    · intro same other given
      cases given
      rcases applied : (module.applyEdits plan.edits).run with fault | error | ⟨edited, paths⟩
      · have stopped : ({ options with dryRun := false } : RenameOptions).run module =
            .error fault :=
          RenameOptions.run_of_fault (carry.trans (Attempt.run_bind_fault _ applied))
        rw [stopped] at same
        cases same
      · have refused : ({ options with dryRun := false } : RenameOptions).run module =
            .ok (module, .failed error) :=
          RenameOptions.run_eq_ok.mpr (Or.inr
            ⟨error, carry.trans (Attempt.run_bind_error _ applied), rfl, rfl⟩)
        rw [refused] at same
        cases (Outcome.told_eq_iff.mp (Except.ok.inj same)).1
      · exact ⟨edited, paths, rfl⟩
    · intro accepted
      obtain ⟨edited, paths, applied⟩ := accepted plan rfl
      have done : ({ options with dryRun := false } : RenameOptions).run module =
          .ok (edited, RenameOptions.report { options with dryRun := false } plan) :=
        RenameOptions.run_eq_ok.mpr (Or.inl (carry.trans (Attempt.run_bind_ok _ applied)))
      rw [done]
      rfl

/-- The dry run of an extraction predicts the real one exactly when the interfaces of its plan, if
there is one, are all declared. -/
theorem predicted_extract_iff (options : ExtractionOptions) (module : Module) :
    (extract options).Predicted module ↔
      ∀ plan, (options.plan Naming.interfaceName module).run = .ok (.ok plan) →
        ∃ final, module.declareInterfaces plan.interfaces = .ok (final, none) := by
  have samePlan : ∀ dryRun, ({ options with dryRun } : ExtractionOptions).plan
      Naming.interfaceName module = options.plan Naming.interfaceName module := fun _ => rfl
  unfold Predicted Foretold
  rw [dry, real, Transformation.run, Transformation.run]
  rcases planned : (options.plan Naming.interfaceName module).run with fault | error | plan
  · have stops : ∀ dryRun, ({ options with dryRun } : ExtractionOptions).run
        Naming.interfaceName module = .error fault := fun dryRun =>
      ExtractionOptions.run_of_fault ((samePlan dryRun).symm ▸ planned)
    rw [stops, stops]
    simp
  · have refused : ∀ dryRun, ({ options with dryRun } : ExtractionOptions).run
        Naming.interfaceName module = .ok (module, .failed error) := fun dryRun =>
      ExtractionOptions.run_eq_ok.mpr
        (Or.inl ⟨error, (samePlan dryRun).symm ▸ planned, rfl, rfl⟩)
    rw [refused, refused]
    simp
  · have predicted : ({ options with dryRun := true } : ExtractionOptions).run
        Naming.interfaceName module =
          .ok (module, ExtractionOptions.report { options with dryRun := true } plan) :=
      ExtractionOptions.run_eq_ok.mpr
        (Or.inr ⟨plan, (samePlan true).symm ▸ planned, rfl, rfl⟩)
    rw [predicted]
    constructor
    · intro same other given
      cases given
      rcases declared : module.declareInterfaces plan.interfaces with fault | ⟨final, none | error⟩
      · have stopped : ({ options with dryRun := false } : ExtractionOptions).run
            Naming.interfaceName module = .error fault :=
          ExtractionOptions.run_of_declare_fault rfl planned declared
        rw [stopped] at same
        cases same
      · exact ⟨final, rfl⟩
      · have refused : ({ options with dryRun := false } : ExtractionOptions).run
            Naming.interfaceName module = .ok (final, .failed error) :=
          ExtractionOptions.run_eq_ok.mpr
            (Or.inr ⟨plan, planned, Or.inr ⟨error, declared, rfl⟩⟩)
        rw [refused] at same
        cases (Outcome.told_eq_iff.mp (Except.ok.inj same)).1
    · intro accepted
      obtain ⟨final, declared⟩ := accepted plan rfl
      have done : ({ options with dryRun := false } : ExtractionOptions).run
          Naming.interfaceName module =
            .ok (final, ExtractionOptions.report { options with dryRun := false } plan) :=
        ExtractionOptions.run_eq_ok.mpr (Or.inr ⟨plan, planned, Or.inl ⟨declared, rfl⟩⟩)
      rw [done]
      rfl

/-- All beginnings of a chain are predicted exactly when every step that the real run reaches is
foretold. -/
theorem predicted_chain_iff (steps : List Transformation) (module : Module) :
    (∀ count, (chain (steps.take count)).Predicted module) ↔
      StepsForetold module steps module := by
  have going : (Outcome.succeeded "" [] []).success = true := rfl
  rw [← stepsForetold_iff module steps 0 module rfl going]
  unfold Predicted Foretold
  simp only [dry, real, Transformation.run]

end Transformation

/-- **What a dry run says about the real one.** A dry run of any plan leaves the module as it is. It
tells the real run's success, changes, files and warnings exactly in these cases: for a rename,
when the edits of its plan are accepted; for an extraction, when the interfaces of its plan are all
declared; for a chain with all its beginnings, when every step that the real run reaches does there
what a dry run of the step on the first module tells. -/
theorem dry_run_predicts_iff (module : Module) :
    (∀ transformation final outcome,
      Transformation.run (Transformation.dry transformation) module = .ok (final, outcome) →
        final = module) ∧
    (∀ options : RenameOptions, (Transformation.rename options).Predicted module ↔
      ∀ plan, (options.plan module).run = .ok (.ok plan) →
        ∃ edited paths, (module.applyEdits plan.edits).run = .ok (.ok (edited, paths))) ∧
    (∀ options : ExtractionOptions, (Transformation.extract options).Predicted module ↔
      ∀ plan, (options.plan Naming.interfaceName module).run = .ok (.ok plan) →
        ∃ final, module.declareInterfaces plan.interfaces = .ok (final, none)) ∧
    ∀ steps, (∀ count, (Transformation.chain (steps.take count)).Predicted module) ↔
      Transformation.StepsForetold module steps module :=
  ⟨fun transformation _ _ run => Transformation.dry_run_keeps transformation run,
    fun options => Transformation.predicted_rename_iff options module,
    fun options => Transformation.predicted_extract_iff options module,
    fun steps => Transformation.predicted_chain_iff steps module⟩

/-- A file with one variable. -/
def oneVariable : List (String × String) := [("a.go", "package p\n\nvar A = 1\n")]

/-- The step from `A` to `B`, and the one from there to `C`, which needs the first. -/
def renameTwice : List Transformation :=
  [.rename { old := "A", new := "B" }, .rename { old := "B", new := "C" }]

/-- A rename is predicted, and the chain that goes on from it is not: on the module as it was, the
second name is not declared. -/
theorem dry_run_misses_second_step :
    ∃ module, Module.ofSources "m" oneVariable = .ok module ∧
      (Transformation.rename { old := "A", new := "B" }).Predicted module ∧
      ¬(Transformation.chain renameTwice).Predicted module ∧
      ¬Transformation.StepsForetold module renameTwice module := by
  have evaluated : checkOk (Module.ofSources "m" oneVariable) (fun module =>
      checkOk (RenameOptions.runPlanned { old := "A", new := "B" } module) (fun ran =>
        ran.2.success && checkOk (RenameOptions.runPlanned { old := "B", new := "C" } ran.1)
          fun again => again.2.success) &&
      checkOk (RenameOptions.runPlanned { old := "B", new := "C", dryRun := true } module)
        fun dry => !dry.2.success) = true := by
    decide +kernel
  obtain ⟨module, loaded, checked⟩ := exists_of_checkOk evaluated
  obtain ⟨done, missed⟩ := Bool.and_eq_true_iff.mp checked
  obtain ⟨⟨next, outcome⟩, ran, checked⟩ := exists_of_checkOk done
  obtain ⟨success, done⟩ := Bool.and_eq_true_iff.mp checked
  obtain ⟨⟨final, outcome'⟩, ran', success'⟩ := exists_of_checkOk done
  obtain ⟨⟨kept, predicted⟩, dry, fails⟩ := exists_of_checkOk missed
  dsimp only at success ran' success' fails
  rw [← RenameOptions.run_eq_runPlanned] at ran ran' dry
  rcases RenameOptions.run_eq_ok.mp ran with attempted | ⟨error, -, -, rfl⟩
  · obtain ⟨plan, planned, -, paths, applied⟩ := RenameOptions.attempt_eq_ok.mp attempted
    have accepted : (Transformation.rename { old := "A", new := "B" }).Predicted module := by
      refine ((dry_run_predicts_iff module).2.1 _).mpr fun plan' planned' => ?_
      cases planned.symm.trans planned'
      exact ⟨next, paths, applied⟩
    have quiet : RenameOptions.run { old := "A", new := "B", dryRun := true } module =
        .ok (module, RenameOptions.report { old := "A", new := "B", dryRun := true } plan) :=
      RenameOptions.run_eq_ok.mpr
        (Or.inl (RenameOptions.attempt_eq_ok.mpr ⟨plan, planned, rfl, rfl⟩))
    have going : (RenameOptions.report { old := "A", new := "B", dryRun := true } plan).success =
        true := rfl
    have refused : predicted.success = false := by simpa using fails
    have apart : ¬(Transformation.chain renameTwice).Predicted module := by
      intro same
      unfold Transformation.Predicted Transformation.Foretold at same
      simp only [renameTwice, Transformation.dry, Transformation.dryAll, Transformation.real,
        Transformation.realAll, Transformation.run, Transformation.runSteps, ran, ran', quiet, dry,
        success, success', going, refused, if_true, if_neg Bool.false_ne_true, told, Except.map,
        Except.ok.injEq] at same
      have ends : (Outcome.absorb _ predicted).success =
          (((Outcome.succeeded "" [] []).absorb outcome).absorb outcome').success :=
        congrArg Told.success same
      rw [Outcome.success_absorb, refused, Bool.and_false, Outcome.success_absorb,
        Outcome.success_absorb, success, success'] at ends
      cases ends
    exact ⟨module, loaded, accepted, apart, fun foretold =>
      apart (((dry_run_predicts_iff module).2.2.2 renameTwice).mpr foretold 2)⟩
  · cases success

end GoRefactor
