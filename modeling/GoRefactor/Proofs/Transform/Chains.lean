import GoRefactor.Proofs.Sort
import GoRefactor.Proofs.Transform.DryRun
import Mathlib.Data.List.Induction

/-!
# Chains and what they are made of

A chain may hold chains. What it does is what its renames and extractions do one after the other,
up to and including the first that is refused: how they are put into chains makes no difference to
the module in the end, and none to what is reported, the words of the summary apart.

The reason is that putting outcomes together is associative, and that the outcome a chain starts
from is neutral. Everything else follows the recursion of plans.
-/

namespace GoRefactor

/-! ## Putting outcomes together -/

/-- What a run reports, the words of its summary apart. -/
structure RunReport extends Told where
  /-- Why the run was refused, if it was. -/
  failure : Option Error
deriving DecidableEq, Repr

/-- What an outcome reports. -/
def Outcome.report (outcome : Outcome) : RunReport := ⟨outcome.told, outcome.failure⟩

/-- The report of outcomes that came one after the other. -/
def RunReport.ofOutcomes (outcomes : List Outcome) : RunReport :=
  let changes := sortChanges (outcomes.flatMap (·.changes))
  { success := outcomes.all (·.success)
    changes
    affectedFiles := distinctSorted (changes.map (·.file))
    warnings := outcomes.flatMap (·.warnings)
    failure := (outcomes.filterMap (·.failure)).getLast? }

/-- Changes that differ in order only are sorted alike. -/
theorem sortChanges_eq_of_perm {left right : List Change} (permuted : left.Perm right) :
    sortChanges left = sortChanges right := by
  have sorted : (sortChanges left).Perm (sortChanges right) :=
    (sortBy_perm Change.le left).trans (permuted.trans (sortBy_perm Change.le right).symm)
  exact sorted.eq_of_pairwise (fun first second _ _ => Change.le_antisymm first second)
    (inOrder_sortChanges left) (inOrder_sortChanges right)

/-- Sorting changes in the front changes nothing for the whole. -/
theorem sortChanges_append_left (front back : List Change) :
    sortChanges (sortChanges front ++ back) = sortChanges (front ++ back) :=
  sortChanges_eq_of_perm ((sortBy_perm Change.le front).append_right back)

/-- Sorting changes at the back changes nothing for the whole. -/
theorem sortChanges_append_right (front back : List Change) :
    sortChanges (front ++ sortChanges back) = sortChanges (front ++ back) :=
  sortChanges_eq_of_perm ((sortBy_perm Change.le back).append_left front)

/-- Changes in order are sorted as they are. -/
theorem InOrder.sortChanges_eq {changes : List Change} (ordered : InOrder changes) :
    sortChanges changes = changes :=
  sortBy_of_pairwise ordered

namespace Outcome

/-- Outcomes report the same if they agree on changes, warnings and failure. -/
theorem report_eq_iff {left right : Outcome} :
    left.report = right.report ↔ left.changes = right.changes ∧ left.warnings = right.warnings ∧
      left.failure = right.failure := by
  have split : left.report = right.report ↔ left.told = right.told ∧ left.failure = right.failure :=
    RunReport.mk.injEq _ _ _ _ ▸ Iff.rfl
  rw [split, told_eq_iff]
  constructor
  · rintro ⟨⟨-, changes, warnings⟩, failure⟩
    exact ⟨changes, warnings, failure⟩
  · rintro ⟨changes, warnings, failure⟩
    exact ⟨⟨by rw [success, success, failure], changes, warnings⟩, failure⟩

/-- The changes of two outcomes together are those of both, sorted. -/
@[simp]
theorem changes_absorb (outcome next : Outcome) :
    (outcome.absorb next).changes = sortChanges (outcome.changes ++ next.changes) := rfl

/-- The warnings of two outcomes together are those of the first, then those of the second. -/
@[simp]
theorem warnings_absorb (outcome next : Outcome) :
    (outcome.absorb next).warnings = outcome.warnings ++ next.warnings := rfl

/-- The failure of two outcomes together: that of the later one, if it has one. -/
@[simp]
theorem failure_absorb (outcome next : Outcome) :
    (outcome.absorb next).failure = next.failure.or outcome.failure := by
  unfold absorb success
  cases next.failure with
  | none => rfl
  | some error => rfl

/-- What two outcomes report together depends on nothing but what each of them reports. -/
theorem report_absorb_congr {outcome outcome' next next' : Outcome}
    (same : outcome.report = outcome'.report) (same' : next.report = next'.report) :
    (outcome.absorb next).report = (outcome'.absorb next').report := by
  obtain ⟨changes, warnings, failure⟩ := report_eq_iff.mp same
  obtain ⟨changes', warnings', failure'⟩ := report_eq_iff.mp same'
  refine report_eq_iff.mpr ⟨?_, ?_, ?_⟩
  · rw [changes_absorb, changes_absorb, changes, changes']
  · rw [warnings_absorb, warnings_absorb, warnings, warnings']
  · rw [failure_absorb, failure_absorb, failure, failure']

/-- **Putting outcomes together is associative.** -/
theorem report_absorb_assoc (first second third : Outcome) :
    (first.absorb (second.absorb third)).report = ((first.absorb second).absorb third).report := by
  refine report_eq_iff.mpr ⟨?_, ?_, ?_⟩
  · simp only [changes_absorb, sortChanges_append_left, sortChanges_append_right,
      List.append_assoc]
  · simp only [warnings_absorb, List.append_assoc]
  · simp only [failure_absorb, Option.or_assoc]

/-- What a chain starts from is neutral in front of an outcome. -/
theorem report_start_absorb {outcome : Outcome} (ordered : InOrder outcome.changes) :
    ((succeeded "" [] []).absorb outcome).report = outcome.report := by
  refine report_eq_iff.mpr ⟨ordered.sortChanges_eq, rfl, ?_⟩
  rw [failure_absorb]
  exact Option.or_none

/-- What a chain starts from is neutral behind an outcome. -/
theorem report_absorb_start {outcome : Outcome} (ordered : InOrder outcome.changes) :
    (outcome.absorb (succeeded "" [] [])).report = outcome.report := by
  refine report_eq_iff.mpr ⟨?_, List.append_nil _, ?_⟩
  · rw [changes_absorb]
    exact (congrArg sortChanges (List.append_nil _)).trans ordered.sortChanges_eq
  · rw [failure_absorb]
    exact Option.none_or

/-- Outcomes put together one by one, behind one that was put together before. -/
theorem report_absorb_foldl (outcome first : Outcome) (others : List Outcome) :
    (outcome.absorb (others.foldl absorb first)).report =
      (others.foldl absorb (outcome.absorb first)).report := by
  induction others using List.reverseRecOn with
  | nil => rfl
  | append_singleton front last ih =>
    rw [List.foldl_append, List.foldl_append]
    exact (report_absorb_assoc outcome _ last).trans (report_absorb_congr ih rfl)

/-- Outcomes put together one by one report the same behind outcomes that do. -/
theorem report_foldl_congr {outcome outcome' : Outcome} (same : outcome.report = outcome'.report)
    (others : List Outcome) :
    (others.foldl absorb outcome).report = (others.foldl absorb outcome').report := by
  induction others generalizing outcome outcome' with
  | nil => exact same
  | cons next rest ih => exact ih (report_absorb_congr same rfl)

/-- Outcomes put together are no refusal exactly if none of them is one. -/
theorem success_foldl (outcome : Outcome) (others : List Outcome) :
    (others.foldl absorb outcome).success = (outcome.success && others.all (·.success)) := by
  induction others generalizing outcome with
  | nil => rw [List.all_nil, Bool.and_true]; rfl
  | cons next rest ih => rw [List.foldl_cons, ih, success_absorb, List.all_cons, Bool.and_assoc]

/-- **What outcomes report that a chain puts together**: the changes of all of them, sorted, and
the warnings of all of them, in order. -/
theorem report_foldl_start (outcomes : List Outcome) :
    (outcomes.foldl absorb (succeeded "" [] [])).report = RunReport.ofOutcomes outcomes := by
  have collected : let whole := outcomes.foldl absorb (succeeded "" [] [])
      whole.changes = sortChanges (outcomes.flatMap (·.changes)) ∧
      whole.warnings = outcomes.flatMap (·.warnings) ∧
      whole.failure = (outcomes.filterMap (·.failure)).getLast? := by
    induction outcomes using List.reverseRecOn with
    | nil => exact ⟨rfl, rfl, rfl⟩
    | append_singleton front last ih =>
      obtain ⟨changes, warnings, failure⟩ := ih
      simp only [List.foldl_append, List.foldl_cons, List.foldl_nil, List.flatMap_append,
        List.flatMap_singleton, List.filterMap_append, List.getLast?_append]
      refine ⟨?_, ?_, ?_⟩
      · rw [changes_absorb, changes, sortChanges_append_left]
      · rw [warnings_absorb, warnings]
      · rw [failure_absorb, failure]
        cases told : last.failure with
        | none => simp [told]
        | some error => simp [told]
  obtain ⟨changes, warnings, failure⟩ := collected
  unfold report told RunReport.ofOutcomes affectedFiles
  rw [success_foldl, changes, warnings, failure]
  rfl

end Outcome

/-! ## Renames and extractions one after the other -/

/-- A transformation that is not a chain. -/
inductive Single where
  /-- Rename declarations. -/
  | rename (options : RenameOptions)
  /-- Extract interfaces. -/
  | extract (options : ExtractionOptions)
deriving Repr

namespace Single

/-- The same as a plan. -/
def transformation : Single → Transformation
  | .rename options => .rename options
  | .extract options => .extract options

/-- Carry the transformation out. -/
def run : Single → Module → Except Fault (Module × Outcome)
  | .rename options, module => options.run module
  | .extract options, module => options.run Naming.interfaceName module

/-- Carry transformations out one after the other, up to and including the first that is refused:
the module in the end, and the outcome of each that was carried out, in order. -/
def runInTurn : List Single → Module → Except Fault (Module × List Outcome)
  | [], module => .ok (module, [])
  | single :: rest, module =>
    match single.run module with
    | .error fault => .error fault
    | .ok (next, outcome) =>
      if outcome.success then
        (runInTurn rest next).map fun (final, outcomes) => (final, outcome :: outcomes)
      else .ok (next, [outcome])

/-- What is carried out behind other transformations: nothing, if one of them is refused. -/
theorem runInTurn_append (front back : List Single) (module : Module) :
    runInTurn (front ++ back) module =
      match runInTurn front module with
      | .error fault => .error fault
      | .ok (next, outcomes) =>
        if outcomes.all (·.success) then
          (runInTurn back next).map fun (final, others) => (final, outcomes ++ others)
        else .ok (next, outcomes) := by
  induction front generalizing module with
  | nil =>
    change runInTurn back module =
      (runInTurn back module).map fun (final, others) => (final, others)
    cases runInTurn back module with
    | error fault => rfl
    | ok result => rfl
  | cons single rest ih =>
    rw [List.cons_append, runInTurn, runInTurn]
    rcases single.run module with fault | ⟨next, outcome⟩
    · rfl
    · dsimp only
      by_cases success : outcome.success = true
      · rw [if_pos success, if_pos success, ih]
        rcases runInTurn rest next with fault | ⟨reached, outcomes⟩
        · rfl
        · simp only [Except.map, List.all_cons, success, Bool.true_and]
          by_cases further : outcomes.all (·.success) = true
          · rw [if_pos further, if_pos further]
            cases runInTurn back reached with
            | error fault => rfl
            | ok result => rfl
          · rw [if_neg further, if_neg further]
      · rw [if_neg success, if_neg success]
        simp only [List.all_cons, Bool.eq_false_iff.mpr success, Bool.false_and,
          if_neg Bool.false_ne_true]

end Single

/-- What a run leaves and reports, if it ends. -/
def reported (run : Except Fault (Module × Outcome)) : Except Fault (Module × RunReport) :=
  run.map fun (final, outcome) => (final, outcome.report)

namespace Transformation

mutual

/-- The renames and extractions of a plan, in order. -/
def singles : Transformation → List Single
  | .rename options => [.rename options]
  | .extract options => [.extract options]
  | .chain steps => singlesOf steps

/-- The renames and extractions of plans, in order. -/
def singlesOf : List Transformation → List Single
  | [] => []
  | step :: rest => step.singles ++ singlesOf rest

end

/-- A plan without chains is made of its steps. -/
theorem singlesOf_transformation (singles : List Single) :
    singlesOf (singles.map Single.transformation) = singles := by
  induction singles with
  | nil => rfl
  | cons single rest ih =>
    rw [List.map_cons, singlesOf, ih]
    cases single with
    | rename options => rfl
    | extract options => rfl

/-- A single transformation reports what it does in a chain of its own. -/
theorem reported_single (single : Single) (module : Module) :
    reported (single.run module) =
      (Single.runInTurn [single] module).map fun (final, outcomes) =>
        (final, (outcomes.foldl Outcome.absorb (.succeeded "" [] [])).report) := by
  rw [Single.runInTurn]
  rcases ran : single.run module with fault | ⟨next, outcome⟩
  · rfl
  · have same : single.transformation.run module = .ok (next, outcome) := by
      rw [← ran]
      cases single with
      | rename options => rfl
      | extract options => rfl
    have neutral := Outcome.report_start_absorb (run_inOrder _ same)
    dsimp only
    split
    · exact congrArg (fun report => Except.ok (next, report)) neutral.symm
    · exact congrArg (fun report => Except.ok (next, report)) neutral.symm

mutual

/-- A plan does what its renames and extractions do one after the other. -/
theorem reported_run : ∀ (transformation : Transformation) (module : Module),
    reported (transformation.run module) =
      (Single.runInTurn transformation.singles module).map fun (final, outcomes) =>
        (final, (outcomes.foldl Outcome.absorb (.succeeded "" [] [])).report)
  | .rename options, module => by
    rw [run, singles]
    exact reported_single (.rename options) module
  | .extract options, module => by
    rw [run, singles]
    exact reported_single (.extract options) module
  | .chain steps, module => by
    rw [run, singles]
    have none : InOrder (Outcome.succeeded "" [] []).changes := List.Pairwise.nil
    exact reported_runSteps steps 0 rfl none module

/-- The remaining steps of a chain do what their renames and extractions do one after the other,
and report it behind what the chain has so far. -/
theorem reported_runSteps : ∀ (steps : List Transformation) (completed : Nat) {before : Outcome}
    (_ : before.success = true) (_ : InOrder before.changes) (module : Module),
    reported (runSteps steps completed before module) =
      (Single.runInTurn (singlesOf steps) module).map fun (final, outcomes) =>
        (final, (outcomes.foldl Outcome.absorb before).report)
  | [], completed, before, _, _, module => by
    rw [runSteps, singlesOf, Single.runInTurn]
    rfl
  | step :: rest, completed, before, going, ordered, module => by
    have first := reported_run step module
    rw [runSteps, singlesOf, Single.runInTurn_append]
    rcases ran : step.run module with fault | ⟨next, result⟩
    · rw [ran] at first
      rcases inTurn : Single.runInTurn step.singles module with fault' | ⟨next', outcomes⟩
      · rw [inTurn] at first
        cases first
        rfl
      · rw [inTurn] at first
        cases first
    · rw [ran] at first
      rcases inTurn : Single.runInTurn step.singles module with fault' | ⟨next', outcomes⟩
      · rw [inTurn] at first
        cases first
      · rw [inTurn] at first
        obtain ⟨rfl, report⟩ := Prod.mk.inj (Except.ok.inj first)
        -- What the step reports behind the chain so far is what its parts report behind it.
        have behind : (before.absorb result).report =
            (outcomes.foldl Outcome.absorb before).report := by
          rw [Outcome.report_absorb_congr rfl report, Outcome.report_absorb_foldl]
          exact Outcome.report_foldl_congr (Outcome.report_absorb_start ordered) outcomes
        have accepted : result.success = outcomes.all (·.success) := by
          have told := congrArg (fun report => report.success) report
          exact told.trans (Outcome.success_foldl _ outcomes)
        dsimp only
        rw [accepted]
        by_cases success : outcomes.all (·.success) = true
        · rw [if_pos success, if_pos success,
            reported_runSteps rest (completed + 1) _ (inOrder_sortChanges _) next]
          · rcases Single.runInTurn (singlesOf rest) next with fault | ⟨final, others⟩
            · rfl
            · refine congrArg (fun report => Except.ok (final, report)) ?_
              rw [List.foldl_append]
              exact Outcome.report_foldl_congr behind others
          · rw [Outcome.success_absorb, going, accepted, success]
            rfl
        · rw [if_neg success, if_neg success]
          exact congrArg (fun report => Except.ok (next, report)) behind

end

end Transformation

/-- **Chains are a fold that stops at the first refusal, and nesting does not matter.** A chain of
any plans, chains among them, ends with the module that its renames and extractions leave that are
carried out one after the other, up to and including the first that is refused; it reports the
changes of these, sorted, the files with changes, their warnings in order, and success unless one
of them is refused, in which case it reports the error of that one. A fault stops it exactly where
it stops them. The chain of the renames and extractions themselves does the same. -/
theorem chain_runs_in_turn (steps : List Transformation) (module : Module) :
    reported ((Transformation.chain steps).run module) =
      (Single.runInTurn (Transformation.singlesOf steps) module).map (fun (final, outcomes) =>
        (final, RunReport.ofOutcomes outcomes)) ∧
    reported ((Transformation.chain
        ((Transformation.singlesOf steps).map Single.transformation)).run module) =
      reported ((Transformation.chain steps).run module) := by
  have inTurn (steps : List Transformation) := Transformation.reported_run (.chain steps) module
  simp only [Outcome.report_foldl_start, Transformation.singles] at inTurn
  refine ⟨inTurn steps, ?_⟩
  rw [inTurn, inTurn, Transformation.singlesOf_transformation]

end GoRefactor
