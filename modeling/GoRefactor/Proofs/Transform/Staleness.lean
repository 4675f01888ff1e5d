import GoRefactor.Proofs.Transform.Refusal
import GoRefactor.Symbol.Index
import Mathlib.Data.List.Chain

/-!
# Revisions and stale indexes

A module is changed in many places: texts are spliced, declarations are moved and put under new
names, files are flagged, types are registered and files are created. Whatever a step does, it
either leaves the module alone or records its changes in the revision, also when it is refused
halfway. So an index that carries the revision of a module was built from that very module.
-/

namespace GoRefactor

namespace Module

/-- So many recorded changes lead from one module to the other. Without a change the module is the
same, and as long as revisions do not run out, every change raises the revision by one. -/
def RaisedBy (count : Nat) (before after : Module) : Prop :=
  (count = 0 → after = before) ∧
    (before.revision + count < UInt64.size → after.revision = before.revision + count)

/-- A module is reached from itself by no changes. -/
theorem RaisedBy.refl (module : Module) : RaisedBy 0 module module :=
  ⟨fun _ => rfl, fun _ => rfl⟩

/-- Two runs of changes, one after the other, raise the revision by the sum of their numbers. -/
theorem RaisedBy.trans {first second : Nat} {before between after : Module}
    (early : RaisedBy first before between) (late : RaisedBy second between after) :
    RaisedBy (first + second) before after := by
  constructor
  · intro nothing
    rw [late.1 (by omega), early.1 (by omega)]
  · intro bounded
    have raised := early.2 (by omega)
    rw [late.2 (by omega), raised, Nat.add_assoc]

/-- A module whose revision is the next one comes by one change. -/
theorem RaisedBy.of_revision {before after : Module}
    (next : after.revision = before.touch.revision) : RaisedBy 1 before after := by
  constructor
  · intro impossible
    cases impossible
  · intro bounded
    rw [next]
    exact Nat.mod_eq_of_lt bounded

/-- The module is the same, revision included, or has a higher revision. -/
def Follows (before after : Module) : Prop :=
  after = before ∨ before.revision < after.revision

/-- What follows from a module that follows from a third follows from that. -/
theorem Follows.trans {before between after : Module} (early : Follows before between)
    (late : Follows between after) : Follows before after := by
  rcases early with rfl | lower
  · exact late
  · rcases late with rfl | higher
    · exact Or.inr lower
    · exact Or.inr (Nat.lt_trans lower higher)

instance : IsTrans Module Follows := ⟨fun _ _ _ => Follows.trans⟩

/-- As long as revisions do not run out, what recorded changes lead to follows. -/
theorem RaisedBy.follows {count : Nat} {before after : Module}
    (raised : RaisedBy count before after) (bounded : before.revision + count < UInt64.size) :
    Follows before after := by
  by_cases nothing : count = 0
  · exact Or.inl (raised.1 nothing)
  · have revision := raised.2 bounded
    exact Or.inr (by omega)

/-- Changing a file does not record the change. -/
@[simp]
theorem revision_updateFile (module : Module) (path : String)
    (change : SourceFile → SourceFile) :
    (module.updateFile path change).revision = module.revision := by
  unfold updateFile
  split
  · rfl
  · rfl

/-- Flagging a file does not record a change. -/
@[simp]
theorem revision_markModified (module : Module) (path : String) :
    (module.markModified path).revision = module.revision := rfl

/-- Modules with the same revision get the same next one. -/
theorem revision_touch_congr {left right : Module} (same : left.revision = right.revision) :
    left.touch.revision = right.touch.revision := by
  unfold touch
  rw [same]

/-- Editing files one after the other does not record the changes. -/
theorem revision_editFiles {module edited : Module} {edits : List Edit} {paths : List String}
    (done : module.editFiles edits paths = .ok edited) : edited.revision = module.revision := by
  refine foldlM_keeps (fun state : Module => state.revision = module.revision) ?_ paths module
    edited rfl done
  intro state path next same stepped
  unfold editFile at stepped
  cases held : state.file? path with
  | none =>
    rw [held] at stepped
    cases stepped
    exact same
  | some file =>
    rw [held] at stepped
    obtain ⟨moved, -, returned⟩ := bind_eq_ok.mp stepped
    cases returned
    rw [revision_markModified, revision_updateFile]
    exact same

/-- Accepted edits are one recorded change, however many files they reach. -/
theorem raisedBy_of_applyEdits {module edited : Module} {edits : List Edit} {paths : List String}
    (applied : (module.applyEdits edits).run = .ok (.ok (edited, paths))) :
    RaisedBy 1 module edited := by
  obtain ⟨-, -, -, spliced, files, rfl⟩ := applyEdits_eq_ok.mp applied
  exact .of_revision (revision_touch_congr (revision_editFiles files))

/-- A declared interface is recorded once, wherever it goes. -/
theorem revision_declareInterface {module next : Module} {planned : PlannedInterface}
    (declared : (module.declareInterface planned).run = .ok (.ok next)) :
    next.revision = module.touch.revision := by
  unfold declareInterface at declared
  cases placed : planned.placement with
  | append edit =>
    rw [placed] at declared
    obtain ⟨file, types, edited, paths, -, -, applied, rfl⟩ := appendInterface_eq_ok.mp declared
    -- The types are registered after the edit was recorded, and are not recorded again.
    obtain ⟨-, -, -, spliced, files, rfl⟩ := applyEdits_eq_ok.mp applied
    rw [revision_updateFile]
    exact revision_touch_congr (revision_editFiles files)
  | create package =>
    rw [placed] at declared
    obtain ⟨file, owner, -, -, rfl⟩ := createFile_eq_ok.mp declared
    rfl

/-- A declared interface is one recorded change. -/
theorem raisedBy_of_declareInterface {module next : Module} {planned : PlannedInterface}
    (declared : (module.declareInterface planned).run = .ok (.ok next)) :
    RaisedBy 1 module next := .of_revision (revision_declareInterface declared)

/-- Interfaces are recorded one by one, up to the first that is refused. -/
theorem raisedBy_of_declareInterfaces {module final : Module}
    {interfaces : List PlannedInterface} {refusal : Option Error}
    (declared : module.declareInterfaces interfaces = .ok (final, refusal)) :
    RaisedBy (module.declaredCount interfaces) module final := by
  induction interfaces generalizing module with
  | nil =>
    cases declared
    exact .refl final
  | cons planned rest ih =>
    rw [declaredCount]
    rcases declareInterfaces_cons.mp declared with ⟨next, step, later⟩ | ⟨_, step, rfl, -⟩
    · simp only [step]
      rw [Nat.add_comm]
      exact (raisedBy_of_declareInterface step).trans (ih later)
    · simp only [step]
      exact .refl final

end Module

namespace RenameOptions

/-- How many changes a rename records: one if its edits are carried out. -/
def recorded (options : RenameOptions) (module : Module) : Nat :=
  match options.run module with
  | .ok (_, outcome) => if outcome.success && !options.dryRun then 1 else 0
  | .error _ => 0

/-- A rename records what it changes. -/
theorem raisedBy_of_run {options : RenameOptions} {module final : Module} {outcome : Outcome}
    (run : options.run module = .ok (final, outcome)) :
    module.RaisedBy (options.recorded module) final := by
  unfold recorded
  rw [run]
  rcases run_eq_ok.mp run with attempted | ⟨error, -, rfl, rfl⟩
  · obtain ⟨plan, -, reported, ending⟩ := attempt_eq_ok.mp attempted
    have done : outcome.success = true := by
      rw [show outcome = options.report plan from reported]
      rfl
    cases dry : options.dryRun with
    | true =>
      rw [dry, if_pos rfl] at ending
      rw [show final = module from ending]
      simpa using Module.RaisedBy.refl module
    | false =>
      rw [dry, if_neg Bool.false_ne_true] at ending
      obtain ⟨paths, applied⟩ := ending
      simpa [done] using Module.raisedBy_of_applyEdits applied
  · simpa using Module.RaisedBy.refl final

end RenameOptions

/-- An extraction records every interface that it declares. -/
theorem ExtractionOptions.raisedBy_of_run {options : ExtractionOptions}
    {naming : MethodPattern → String} {module final : Module} {outcome : Outcome}
    (run : options.run naming module = .ok (final, outcome)) :
    module.RaisedBy (options.declaredCount naming module) final := by
  unfold declaredCount
  rcases run_eq_ok.mp run with ⟨error, planned, rfl, -⟩ | ⟨plan, planned, ending⟩
  · rw [planned]
    simpa using Module.RaisedBy.refl final
  · rw [planned]
    cases dry : options.dryRun with
    | true =>
      rw [dry, if_pos rfl] at ending
      rw [ending.1]
      simpa using Module.RaisedBy.refl module
    | false =>
      rw [dry, if_neg Bool.false_ne_true] at ending
      rcases ending with ⟨declared, -⟩ | ⟨error, declared, -⟩
      · simpa using Module.raisedBy_of_declareInterfaces declared
      · simpa using Module.raisedBy_of_declareInterfaces declared

namespace Transformation

mutual

/-- How many changes a transformation records. -/
def recorded : Transformation → Module → Nat
  | .rename options, module => options.recorded module
  | .extract options, module => options.declaredCount Naming.interfaceName module
  | .chain steps, module => recordedBySteps steps module

/-- How many changes the steps of a chain record, up to the first that is refused. -/
def recordedBySteps : List Transformation → Module → Nat
  | [], _ => 0
  | step :: rest, module =>
    match step.run module with
    | .error _ => 0
    | .ok (next, result) =>
      if result.success then step.recorded module + recordedBySteps rest next
      else step.recorded module

end

mutual

/-- A transformation records what it changes. -/
theorem raisedBy_of_run : ∀ (transformation : Transformation) {module final : Module}
    {outcome : Outcome}, transformation.run module = .ok (final, outcome) →
      module.RaisedBy (transformation.recorded module) final
  | .rename _, _, _, _, run => RenameOptions.raisedBy_of_run run
  | .extract _, _, _, _, run => ExtractionOptions.raisedBy_of_run run
  | .chain steps, _, _, _, run => raisedBy_of_runSteps steps run

/-- A chain records what its steps change, and keeps it when a later step is refused. -/
theorem raisedBy_of_runSteps : ∀ (steps : List Transformation) {completed : Nat}
    {before : Outcome} {module final : Module} {outcome : Outcome},
    runSteps steps completed before module = .ok (final, outcome) →
      module.RaisedBy (recordedBySteps steps module) final
  | [], _, _, module, _, _, run => by
    cases run
    exact .refl module
  | step :: rest, _, _, module, _, _, run => by
    rw [runSteps] at run
    rw [recordedBySteps]
    rcases first : step.run module with fault | ⟨next, result⟩
    · rw [first] at run
      cases run
    · rw [first] at run
      have early := raisedBy_of_run step first
      cases done : result.success with
      | true =>
        simp only [done, if_true] at run ⊢
        exact early.trans (raisedBy_of_runSteps rest run)
      | false =>
        simp only [done] at run ⊢
        cases run
        exact early

end

end Transformation

/-- What can be done to a module. -/
inductive Step where
  /-- Apply edits. -/
  | edit (edits : List Edit)
  /-- Extract interfaces, with names from anywhere. -/
  | extract (options : ExtractionOptions) (naming : MethodPattern → String)
  /-- Carry a rename, an extraction or a chain out. -/
  | transform (transformation : Transformation)

namespace Step

/-- The module after a step, whether it was refused or not. -/
def run : Step → Module → Except Fault Module
  | .edit edits, module =>
    match (module.applyEdits edits).run with
    | .error fault => .error fault
    | .ok (.error _) => .ok module
    | .ok (.ok (edited, _)) => .ok edited
  | .extract options naming, module => (options.run naming module).map Prod.fst
  | .transform transformation, module => (transformation.run module).map Prod.fst

/-- How many changes a step records. -/
def recorded : Step → Module → Nat
  | .edit edits, module =>
    match (module.applyEdits edits).run with
    | .ok (.ok _) => 1
    | _ => 0
  | .extract options naming, module => options.declaredCount naming module
  | .transform transformation, module => transformation.recorded module

/-- A step records what it changes. -/
theorem raisedBy_of_run {step : Step} {module next : Module} (run : step.run module = .ok next) :
    module.RaisedBy (step.recorded module) next := by
  cases step with
  | edit edits =>
    rw [Step.run] at run
    rw [recorded]
    rcases applied : (module.applyEdits edits).run with fault | error | ⟨edited, paths⟩
    · rw [applied] at run
      cases run
    · rw [applied] at run
      cases run
      exact .refl module
    · rw [applied] at run
      cases run
      exact Module.raisedBy_of_applyEdits applied
  | extract options naming =>
    obtain ⟨⟨final, outcome⟩, ran, rfl⟩ := map_eq_ok.mp run
    exact ExtractionOptions.raisedBy_of_run ran
  | transform transformation =>
    obtain ⟨⟨final, outcome⟩, ran, rfl⟩ := map_eq_ok.mp run
    exact transformation.raisedBy_of_run ran

/-- The states of a module over a run: the one before the first step, and the one after each. -/
def states : List Step → Module → Except Fault (List Module)
  | [], module => .ok [module]
  | step :: rest, module => do
    let next ← step.run module
    let later ← states rest next
    return module :: later

/-- How many changes a run records. -/
def totalRecorded : List Step → Module → Nat
  | [], _ => 0
  | step :: rest, module =>
    match step.run module with
    | .ok next => step.recorded module + totalRecorded rest next
    | .error _ => 0

/-- A run starts with the module it is given, and as long as revisions do not run out, each of its
states follows from the one before. -/
theorem states_spec {steps : List Step} {module : Module} {reached : List Module}
    (ran : states steps module = .ok reached)
    (bounded : module.revision + totalRecorded steps module < UInt64.size) :
    reached.head? = some module ∧ reached.IsChain Module.Follows := by
  induction steps generalizing module reached with
  | nil =>
    cases ran
    exact ⟨rfl, .singleton module⟩
  | cons step rest ih =>
    rw [states] at ran
    obtain ⟨next, stepped, ran⟩ := bind_eq_ok.mp ran
    obtain ⟨later, continued, returned⟩ := bind_eq_ok.mp ran
    cases returned
    rw [totalRecorded, stepped] at bounded
    dsimp only at bounded
    have raised := raisedBy_of_run stepped
    have revision := raised.2 (by omega)
    obtain ⟨first, chained⟩ := ih continued (by omega)
    refine ⟨rfl, chained.cons ?_⟩
    intro other member
    rw [first] at member
    cases member
    exact raised.follows (by omega)

end Step

/-- An index carries the revision of the module it was built from. -/
theorem Module.revision_of_index {module : Module} {options : IndexOptions} {index : Index}
    (built : (module.index options).run = .ok (.ok index)) :
    index.revision = module.revision := by
  unfold Module.index at built
  split at built
  · cases built
  · obtain ⟨symbols, -, built⟩ := Attempt.run_bind_eq_ok.mp built
    cases walked : module.findings options symbols with
    | error error =>
      rw [walked] at built
      cases built
    | ok findings =>
      rw [walked] at built
      cases built
      rfl

/-- An index of a module is up to date for what follows exactly when that is the module itself. -/
theorem Module.Follows.isStale_eq_false_iff {earlier later : Module} {options : IndexOptions}
    {index : Index} (follows : Follows earlier later)
    (built : (earlier.index options).run = .ok (.ok index)) :
    index.isStale later = false ↔ later = earlier := by
  unfold Index.isStale
  rw [Module.revision_of_index built, bne_eq_false_iff_eq]
  constructor
  · intro same
    rcases follows with rfl | higher
    · rfl
    · exact absurd same (Nat.ne_of_gt higher)
  · rintro rfl
    rfl

/-- **Staleness is never missed.** In a run of edits, renames, extractions and chains, refused or
not, that does not use up the revisions, each step leaves the whole module as it is or raises its
revision. So an index built from one state of the run passes for up to date at a later state exactly
when the two states are the same module. -/
theorem isStale_eq_false_iff_unchanged (steps : List Step) (module : Module)
    (reached : List Module) (ran : Step.states steps module = .ok reached)
    (bounded : module.revision + Step.totalRecorded steps module < UInt64.size) :
    (reached.IsChain fun before after =>
      after = before ∨ before.revision < after.revision) ∧
    reached.Pairwise fun earlier later =>
      ∀ (options : IndexOptions) (index : Index),
        (earlier.index options).run = .ok (.ok index) →
          (index.isStale later = false ↔ later = earlier) := by
  have chained := (Step.states_spec ran bounded).2
  refine ⟨chained, (List.isChain_iff_pairwise.mp chained).imp ?_⟩
  intro earlier later follows options index built
  exact follows.isStale_eq_false_iff built

/-- Extractions of all method sets: one that only says what would change, and one that is refused
after its first interface. -/
def quietThenRefused : List Step :=
  [.extract { minTypes := 1, dryRun := true } Naming.interfaceName,
    .extract { minTypes := 1 } Naming.interfaceName]

/-- An index stays up to date over a dry run and is stale after a refused extraction that declared
one interface. -/
theorem index_is_stale_after_refused_extraction :
    ∃ module quiet final index, Module.ofSources "m" brokenSignature = .ok module ∧
      (module.index {}).run = .ok (.ok index) ∧
      Step.states quietThenRefused module = .ok [module, quiet, final] ∧
      module.revision + Step.totalRecorded quietThenRefused module < UInt64.size ∧
      quiet = module ∧ index.isStale final = true ∧ final ≠ module := by
  have evaluated : checkOk (Module.ofSources "m" brokenSignature) (fun module =>
      decide (module.revision = 0) &&
      checkOk (module.index {}).run (fun ending => checkOk ending fun _ => true) &&
      checkOk
        (ExtractionOptions.plan { minTypes := 1 } Naming.interfaceName module).run fun ending =>
        checkOk ending fun plan => decide (plan.interfaces.length < UInt64.size) &&
          checkOk (module.declareAllPlanned plan.interfaces) fun ran =>
            ran.2.isSome && ran.1.revision != module.revision) = true := by
    decide +kernel
  obtain ⟨module, loaded, checked⟩ := exists_of_checkOk evaluated
  obtain ⟨checked, refused⟩ := Bool.and_eq_true_iff.mp checked
  obtain ⟨unchanged, indexed⟩ := Bool.and_eq_true_iff.mp checked
  obtain ⟨ending, built, ended⟩ := exists_of_checkOk indexed
  obtain ⟨index, rfl, -⟩ := exists_of_checkOk ended
  obtain ⟨ending, planned, ended⟩ := exists_of_checkOk refused
  obtain ⟨plan, rfl, checkedPlan⟩ := exists_of_checkOk ended
  obtain ⟨few, stops⟩ := Bool.and_eq_true_iff.mp checkedPlan
  obtain ⟨⟨final, refusal⟩, stopped, changed⟩ := exists_of_checkOk stops
  obtain ⟨refused, raised⟩ := Bool.and_eq_true_iff.mp changed
  obtain ⟨error, rfl⟩ := Option.isSome_iff_exists.mp refused
  rw [← Module.declareInterfaces_eq_planned (ExtractionOptions.inserts_of_plan planned)] at stopped
  have quiet : ExtractionOptions.run { minTypes := 1, dryRun := true } Naming.interfaceName module =
      .ok (module, _) :=
    ExtractionOptions.run_eq_ok.mpr (Or.inr ⟨plan, planned, rfl, rfl⟩)
  have run : ExtractionOptions.run { minTypes := 1 } Naming.interfaceName module =
      .ok (final, .failed error) :=
    ExtractionOptions.run_eq_ok.mpr (Or.inr ⟨plan, planned, Or.inr ⟨error, stopped, rfl⟩⟩)
  have ran : Step.states quietThenRefused module = .ok [module, module, final] := by
    simp only [quietThenRefused, Step.states, Step.run, quiet, run, Except.map, bind_ok]
    rfl
  have bounded : module.revision + Step.totalRecorded quietThenRefused module < UInt64.size := by
    have none := ExtractionOptions.declaredCount_of_dry { minTypes := 1, dryRun := true } rfl
      Naming.interfaceName module
    simp only [quietThenRefused, Step.totalRecorded, Step.run, quiet, run, Except.map,
      Step.recorded, none, ExtractionOptions.declaredCount_of_plan rfl planned]
    have most := module.declaredCount_le plan.interfaces
    have few := of_decide_eq_true few
    rw [of_decide_eq_true unchanged]
    omega
  have compared := (isStale_eq_false_iff_unchanged quietThenRefused module _ ran bounded).2
  have apart : final ≠ module := by
    rintro rfl
    simp at raised
  refine ⟨module, module, final, index, loaded, built, ran, bounded, rfl, ?_, apart⟩
  have stale := (List.pairwise_cons.mp compared).1 final (by simp) {} index built
  exact eq_true_of_ne_false fun fresh => apart (stale.mp fresh)

end GoRefactor
