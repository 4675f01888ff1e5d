import GoRefactor.Proofs.Attempt
import GoRefactor.Proofs.Edit.Arranged
import GoRefactor.Transform.Plan

/-!
# Runs of single transformations

A rename and an extraction each plan first and then, unless they only say what would change, carry
the plan out. The laws here list the ways in which such a run can end; everything about runs is
derived from them.
-/

namespace GoRefactor

namespace RenameOptions

/-- What a rename reports when its plan is carried out. -/
def report (options : RenameOptions) (plan : RenamePlan) : Outcome :=
  .succeeded (options.summary plan) plan.changes plan.warnings

/-- The ways in which the planning and application of a rename end well. -/
theorem attempt_eq_ok {options : RenameOptions} {module : Module} {result : Module × Outcome} :
    (options.attempt module).run = .ok (.ok result) ↔
      ∃ plan, (options.plan module).run = .ok (.ok plan) ∧ result.2 = options.report plan ∧
        if options.dryRun then result.1 = module
        else ∃ paths, (module.applyEdits plan.edits).run = .ok (.ok (result.1, paths)) := by
  unfold attempt
  rw [Attempt.run_bind_eq_ok]
  constructor
  · rintro ⟨plan, planned, given⟩
    refine ⟨plan, planned, ?_⟩
    by_cases dry : options.dryRun = true
    · rw [if_pos dry] at given ⊢
      cases given
      exact ⟨rfl, rfl⟩
    · rw [if_neg dry] at given ⊢
      obtain ⟨⟨edited, paths⟩, applied, returned⟩ := Attempt.run_bind_eq_ok.mp given
      cases returned
      exact ⟨rfl, paths, applied⟩
  · rintro ⟨plan, planned, reported, ending⟩
    refine ⟨plan, planned, ?_⟩
    by_cases dry : options.dryRun = true
    · rw [if_pos dry] at ending ⊢
      have same : result = (module, options.report plan) := Prod.ext ending reported
      rw [same]
      rfl
    · rw [if_neg dry] at ending ⊢
      obtain ⟨paths, applied⟩ := ending
      refine Attempt.run_bind_eq_ok.mpr ⟨(result.1, paths), applied, ?_⟩
      have same : result = (result.1, options.report plan) := Prod.ext rfl reported
      rw [same]
      rfl

/-- A rename ends as its attempt does, or with the module unchanged where that was refused. -/
theorem run_eq_ok {options : RenameOptions} {module final : Module} {outcome : Outcome} :
    options.run module = .ok (final, outcome) ↔
      (options.attempt module).run = .ok (.ok (final, outcome)) ∨
        ∃ error, (options.attempt module).run = .ok (.error error) ∧ final = module ∧
          outcome = .failed error := by
  unfold run
  rw [bind_eq_ok]
  constructor
  · rintro ⟨error | result, attempted, given⟩
    · cases given
      exact Or.inr ⟨error, attempted, rfl, rfl⟩
    · cases given
      exact Or.inl attempted
  · rintro (attempted | ⟨error, attempted, rfl, rfl⟩)
    · exact ⟨_, attempted, rfl⟩
    · exact ⟨_, attempted, rfl⟩

/-- A fault in a rename stops it. -/
theorem run_of_fault {options : RenameOptions} {module : Module} {fault : Fault}
    (stopped : (options.attempt module).run = .error fault) :
    options.run module = .error fault := by
  unfold run
  rw [stopped]
  rfl

end RenameOptions

namespace ExtractionOptions

/-- What an extraction reports when its plan is carried out. -/
def report (options : ExtractionOptions) (plan : ExtractionPlan) : Outcome :=
  .succeeded (options.summary plan) (plan.interfaces.map (·.change)) plan.warnings

/-- The ways in which an extraction ends: its plan is refused, or only reported, or carried out up
to its end or to the first interface that is refused. -/
theorem run_eq_ok {options : ExtractionOptions} {naming : MethodPattern → String}
    {module final : Module} {outcome : Outcome} :
    options.run naming module = .ok (final, outcome) ↔
      (∃ error, (options.plan naming module).run = .ok (.error error) ∧ final = module ∧
        outcome = .failed error) ∨
      ∃ plan, (options.plan naming module).run = .ok (.ok plan) ∧
        if options.dryRun then final = module ∧ outcome = options.report plan
        else
          (module.declareInterfaces plan.interfaces = .ok (final, none) ∧
            outcome = options.report plan) ∨
          ∃ error, module.declareInterfaces plan.interfaces = .ok (final, some error) ∧
            outcome = .failed error := by
  unfold run
  rw [bind_eq_ok]
  constructor
  · rintro ⟨error | plan, planned, given⟩
    · cases given
      exact Or.inl ⟨error, planned, rfl, rfl⟩
    · refine Or.inr ⟨plan, planned, ?_⟩
      by_cases dry : options.dryRun = true
      · rw [if_pos dry]
        simp only [dry, if_true] at given
        cases given
        exact ⟨rfl, rfl⟩
      · rw [if_neg dry]
        simp only [dry] at given
        obtain ⟨⟨extended, _ | error⟩, declared, returned⟩ := bind_eq_ok.mp given
        · cases returned
          exact Or.inl ⟨declared, rfl⟩
        · cases returned
          exact Or.inr ⟨error, declared, rfl⟩
  · rintro (⟨error, planned, rfl, rfl⟩ | ⟨plan, planned, ending⟩)
    · exact ⟨_, planned, rfl⟩
    · refine ⟨.ok plan, planned, ?_⟩
      by_cases dry : options.dryRun = true
      · rw [if_pos dry] at ending
        obtain ⟨rfl, rfl⟩ := ending
        simp only [dry, if_true]
        rfl
      · rw [if_neg dry] at ending
        simp only [dry]
        rcases ending with ⟨declared, rfl⟩ | ⟨error, declared, rfl⟩
        · exact bind_eq_ok.mpr ⟨_, declared, rfl⟩
        · exact bind_eq_ok.mpr ⟨_, declared, rfl⟩

/-- An extraction that is carried out declares all interfaces of its plan. -/
theorem exists_declared_of_success {options : ExtractionOptions}
    {naming : MethodPattern → String} {module final : Module} {outcome : Outcome}
    (real : options.dryRun = false) (run : options.run naming module = .ok (final, outcome))
    (succeeded : outcome.success = true) :
    ∃ plan, (options.plan naming module).run = .ok (.ok plan) ∧
      module.declareInterfaces plan.interfaces = .ok (final, none) ∧
      outcome = options.report plan := by
  rcases run_eq_ok.mp run with ⟨error, -, -, rfl⟩ | ⟨plan, planned, ending⟩
  · cases succeeded
  · rw [if_neg (by simp [real])] at ending
    rcases ending with ⟨declared, reported⟩ | ⟨error, -, rfl⟩
    · exact ⟨plan, planned, declared, reported⟩
    · cases succeeded

/-- A fault while an extraction is planned stops it. -/
theorem run_of_fault {options : ExtractionOptions} {naming : MethodPattern → String}
    {module : Module} {fault : Fault}
    (stopped : (options.plan naming module).run = .error fault) :
    options.run naming module = .error fault := by
  unfold run
  rw [stopped]
  rfl

/-- A fault while interfaces are declared stops the extraction. -/
theorem run_of_declare_fault {options : ExtractionOptions} {naming : MethodPattern → String}
    {module : Module} {plan : ExtractionPlan} {fault : Fault} (real : options.dryRun = false)
    (planned : (options.plan naming module).run = .ok (.ok plan))
    (stopped : module.declareInterfaces plan.interfaces = .error fault) :
    options.run naming module = .error fault := by
  unfold run
  rw [planned]
  simp only [bind, Except.bind, real, stopped]
  rfl

/-- The text of the file with a path after the changes planned so far, if there is one. -/
def plannedText (module : Module) (state : Extraction) (path : String) : Option String :=
  (state.pending.get? path).or ((module.file? path).map (·.content))

/-- The interface planned for a file: at the end of its text, or in a new file. -/
def placed (package : Package) (path name rendered : String) : Option String → PlannedInterface
  | some content => planAppend path content name rendered
  | none => planCreate package path name rendered

/-- The interface goes to the file that it is placed in. -/
theorem file_placed (package : Package) (path name rendered : String) (existing : Option String) :
    (placed package path name rendered existing).change.file = path := by
  cases existing with
  | none => rfl
  | some content => rfl

/-- What a plan is made of: a target, the method sets that are discovered on an index, and what is
planned for them one after the other. -/
theorem plan_eq_ok {options : ExtractionOptions} {naming : MethodPattern → String}
    {module : Module} {plan : ExtractionPlan} :
    (options.plan naming module).run = .ok (.ok plan) ↔
      options.validate = .ok () ∧
      ∃ target index patterns state, (options.target module).run = .ok (.ok target) ∧
        (module.index ⟨false, options.includePrivate⟩).run = .ok (.ok index) ∧
        discover index options = .ok patterns ∧
        patterns.foldlM (options.planPattern naming module target) {} = .ok state ∧
        plan = ⟨patterns.length, state.interfaces.reverse, state.warnings.reverse⟩ := by
  unfold ExtractionOptions.plan
  constructor
  · intro planned
    obtain ⟨⟨⟩, valid, planned⟩ := Attempt.run_bind_eq_ok.mp planned
    obtain ⟨target, aimed, planned⟩ := Attempt.run_bind_eq_ok.mp planned
    obtain ⟨index, built, planned⟩ := Attempt.run_bind_eq_ok.mp planned
    obtain ⟨patterns, found, planned⟩ := Attempt.run_bind_eq_ok.mp planned
    obtain ⟨state, folded, planned⟩ := Attempt.run_bind_eq_ok.mp planned
    cases planned
    exact ⟨Except.ok.inj valid, target, index, patterns, state, aimed, built, Except.ok.inj found,
      Except.ok.inj folded, rfl⟩
  · rintro ⟨valid, target, index, patterns, state, aimed, built, found, folded, rfl⟩
    refine Attempt.run_bind_eq_ok.mpr ⟨(), congrArg Except.ok valid, ?_⟩
    refine Attempt.run_bind_eq_ok.mpr ⟨target, aimed, ?_⟩
    refine Attempt.run_bind_eq_ok.mpr ⟨index, built, ?_⟩
    refine Attempt.run_bind_eq_ok.mpr ⟨patterns, congrArg Except.ok found, ?_⟩
    exact Attempt.run_bind_eq_ok.mpr ⟨state, congrArg Except.ok folded, rfl⟩

/-- Where the module has no index, nothing is planned. -/
theorem plan_of_index_refused {options : ExtractionOptions} {naming : MethodPattern → String}
    {module : Module} {target : ExtractionTarget} {error : Error}
    (valid : options.validate = .ok ()) (aimed : (options.target module).run = .ok (.ok target))
    (refused : (module.index ⟨false, options.includePrivate⟩).run = .ok (.error error)) :
    (options.plan naming module).run = .ok (.error error) := by
  unfold ExtractionOptions.plan
  refine Attempt.run_bind_eq_error.mpr (Or.inr ⟨(), congrArg Except.ok valid, ?_⟩)
  refine Attempt.run_bind_eq_error.mpr (Or.inr ⟨target, aimed, ?_⟩)
  exact Attempt.run_bind_error _ refused

/-- Every interface of a plan has what planning one method set gives to each interface it adds. -/
theorem forall_mem_plan {options : ExtractionOptions} {naming : MethodPattern → String}
    {module : Module} {plan : ExtractionPlan} {kept : PlannedInterface → Prop}
    (keeps : ∀ target state pattern next, (∀ interface ∈ state.interfaces, kept interface) →
      options.planPattern naming module target state pattern = .ok next →
        ∀ interface ∈ next.interfaces, kept interface)
    (planned : (options.plan naming module).run = .ok (.ok plan)) :
    ∀ interface ∈ plan.interfaces, kept interface := by
  obtain ⟨-, target, -, patterns, state, -, -, -, folded, rfl⟩ := plan_eq_ok.mp planned
  have each :=
    foldlM_keeps (fun state : Extraction => ∀ interface ∈ state.interfaces, kept interface)
    (fun state pattern next => keeps target state pattern next) patterns {} state
    (List.forall_mem_nil _) folded
  exact fun interface member => each interface (List.mem_reverse.mp member)

/-- What planning one method set does: it adds nothing but a warning at most, if there is no struct
or the name is taken, or it adds one interface, for a package of the module and a name that was free
there. -/
theorem planPattern_cases {options : ExtractionOptions} {naming : MethodPattern → String}
    {module : Module} {target : ExtractionTarget} {state next : Extraction}
    {pattern : MethodPattern}
    (stepped : options.planPattern naming module target state pattern = .ok next) :
    ((∀ first, pattern.implementers.head? = some first → ∃ package,
        module.package? (target.package.getD first.package) = some package ∧
        (package.declares (options.interfaceName.getD (naming pattern)) = true ∨
          (target.package.getD first.package, options.interfaceName.getD (naming pattern)) ∈
            state.claimed)) ∧
      ∃ warnings, next = { state with warnings := warnings }) ∨
    ∃ first package path,
      let name := options.interfaceName.getD (naming pattern)
      let rendered := renderInterface name pattern
      let existing := plannedText module state path
      let planned := placed package path name rendered existing
      pattern.implementers.head? = some first ∧
      module.package? (target.package.getD first.package) = some package ∧
      package.declares name = false ∧
      (target.package.getD first.package, name) ∉ state.claimed ∧
      options.targetPath target package first name = .ok path ∧
      next = { state with
        claimed := (target.package.getD first.package, name) :: state.claimed
        pending := state.pending.insert path (existing.getD "" ++ planned.change.after)
        interfaces := planned :: state.interfaces } := by
  unfold planPattern at stepped
  cases implemented : pattern.implementers.head? with
  | none =>
    simp only [implemented] at stepped
    cases stepped
    exact Or.inl ⟨fun _ none => (nomatch none), state.warnings, rfl⟩
  | some first =>
    simp only [implemented] at stepped
    cases held : module.package? (target.package.getD first.package) with
    | none =>
      simp only [held] at stepped
      cases stepped
    | some package =>
      simp only [held] at stepped
      split at stepped
      · rename_i taken
        cases stepped
        refine Or.inl ⟨?_, _, rfl⟩
        rintro _ ⟨⟩
        exact ⟨package, held, (Bool.or_eq_true_iff.mp taken).imp_right List.contains_iff_mem.mp⟩
      · rename_i free
        cases aimed : options.targetPath target package first
            (options.interfaceName.getD (naming pattern)) with
        | error error =>
          simp only [aimed] at stepped
          cases stepped
        | ok path =>
          simp only [aimed] at stepped
          rw [Bool.or_eq_true, not_or, Bool.not_eq_true] at free
          have unclaimed : (target.package.getD first.package,
              options.interfaceName.getD (naming pattern)) ∉ state.claimed := by
            intro member
            exact free.2 (List.contains_iff_mem.mpr member)
          refine Or.inr ⟨first, package, path, rfl, held, free.1, unclaimed, aimed, ?_⟩
          cases existing : plannedText module state path with
          | none =>
            unfold plannedText at existing
            simp only [existing] at stepped
            exact (Except.ok.inj stepped).symm
          | some content =>
            unfold plannedText at existing
            simp only [existing] at stepped
            exact (Except.ok.inj stepped).symm

end ExtractionOptions

/-! ## Declaring an interface -/

/-- A file that is scanned is parsed. -/
theorem parse_of_scanFile {path content : String} {file : SourceFile}
    (scanned : scanFile path content = .ok file) : SourceFile.parse path content = .ok file := by
  unfold scanFile at scanned
  split at scanned
  · cases scanned
    assumption
  · cases scanned

namespace Module

variable {module next : Module}

/-- To append a declaration to a file that is there is to read its types on their own, to apply the
edit and to register the types. -/
theorem appendInterface_eq_ok {edit : Edit} {rendered : String} :
    (module.appendInterface edit rendered).run = .ok (.ok next) ↔
      ∃ file types edited paths, module.file? edit.file = some file ∧
        snippetTypes edit.file file.packageName rendered
          (edit.span.start + (edit.replacement.utf8ByteSize - rendered.utf8ByteSize)) =
            .ok types ∧
        (module.applyEdits [edit]).run = .ok (.ok (edited, paths)) ∧
        next = edited.updateFile edit.file (SourceFile.register types) := by
  unfold appendInterface
  cases held : module.file? edit.file with
  | none => simp
  | some file =>
    simp only [Attempt.run_bind_eq_ok]
    constructor
    · rintro ⟨types, made, ⟨edited, paths⟩, applied, returned⟩
      cases returned
      exact ⟨file, types, edited, paths, rfl, Except.ok.inj made, applied, rfl⟩
    · rintro ⟨_, types, edited, paths, found, made, applied, rfl⟩
      cases found
      exact ⟨types, congrArg Except.ok made, (edited, paths), applied, rfl⟩

/-- To create a file is to scan it and to add it to a package that is there. -/
theorem createFile_eq_ok {package path content : String} :
    (module.createFile package path content).run = .ok (.ok next) ↔
      ∃ file owner, scanFile path content = .ok file ∧ module.package? package = some owner ∧
        next = (module.addFile package file).touch := by
  unfold createFile
  simp only [Attempt.run_bind_eq_ok]
  cases held : module.package? package with
  | none => simp
  | some owner =>
    constructor
    · rintro ⟨file, scanned, returned⟩
      cases returned
      exact ⟨file, owner, Except.ok.inj scanned, rfl, rfl⟩
    · rintro ⟨file, _, scanned, -, rfl⟩
      exact ⟨file, congrArg Except.ok scanned, rfl⟩

/-- The first of some interfaces is declared and the others behind it, or it is refused and the
module stays as it is. -/
theorem declareInterfaces_cons {first : PlannedInterface} {rest : List PlannedInterface}
    {refusal : Option Error} :
    module.declareInterfaces (first :: rest) = .ok (next, refusal) ↔
      (∃ between, (module.declareInterface first).run = .ok (.ok between) ∧
        between.declareInterfaces rest = .ok (next, refusal)) ∨
      ∃ error, (module.declareInterface first).run = .ok (.error error) ∧ next = module ∧
        refusal = some error := by
  rw [declareInterfaces]
  simp only [ExceptT.run]
  rcases module.declareInterface first with fault | error | between
  · simp
  · simp [eq_comm]
  · simp

end Module

/-! ## Runs that do not ask whether a text changed -/

/-- The interface gets a file of its own, or is inserted as a text. -/
def PlannedInterface.Inserts (planned : PlannedInterface) : Prop :=
  ∀ edit, planned.placement = .append edit → ∃ path offset text, edit = Edit.insert path offset text

namespace Module

/-- Append a declaration, where an insertion between two characters is not asked what it expects. -/
def appendPlanned (module : Module) (edit : Edit) (rendered : String) : Attempt Module :=
  match module.file? edit.file with
  | none => Attempt.refuse (.fileNotFound edit.file)
  | some file => do
    let separator := edit.replacement.utf8ByteSize - rendered.utf8ByteSize
    let types ← ExceptT.mk (.ok (snippetTypes edit.file file.packageName rendered
      (edit.span.start + separator)))
    let (edited, _) ← if edit.span.slice? file.content = some "" then module.applyPlanned [edit]
      else module.applyEdits [edit]
    return edited.updateFile edit.file fun file =>
      { file with
        types := types.foldl (fun map (name, decl) => map.insert name decl) file.types }

/-- An insertion has nothing to expect. -/
theorem appendInterface_insert (module : Module) (path : String) (offset : Nat)
    (text rendered : String) :
    module.appendInterface (Edit.insert path offset text) rendered =
      module.appendPlanned (Edit.insert path offset text) rendered := by
  unfold appendInterface appendPlanned
  cases held : module.file? (Edit.insert path offset text).file with
  | none => rfl
  | some file =>
    dsimp only
    split
    · rename_i between
      rw [applyEdits_eq_applyPlanned (List.forall_mem_singleton.mpr ⟨file, held, ?_⟩)]
      rw [Edit.replace?, between]
      rfl
    · rfl

/-- Declare a planned interface, where an insertion is not asked what it expects. -/
def declarePlanned (module : Module) (planned : PlannedInterface) : Attempt Module :=
  match planned.placement with
  | .append edit => module.appendPlanned edit planned.rendered
  | .create package => module.createFile package planned.change.file planned.change.after

/-- Declare planned interfaces one after the other, up to the first that is refused. -/
def declareAllPlanned (module : Module) :
    List PlannedInterface → Except Fault (Module × Option Error)
  | [] => .ok (module, none)
  | planned :: rest =>
    match module.declarePlanned planned with
    | .error fault => .error fault
    | .ok (.error error) => .ok (module, some error)
    | .ok (.ok next) => next.declareAllPlanned rest

/-- An interface that is inserted is declared without such a question. -/
theorem declareInterface_eq_planned {planned : PlannedInterface} (inserts : planned.Inserts)
    (module : Module) : module.declareInterface planned = module.declarePlanned planned := by
  unfold declareInterface declarePlanned
  cases placed : planned.placement with
  | append edit =>
    obtain ⟨path, offset, text, rfl⟩ := inserts edit placed
    exact module.appendInterface_insert path offset text planned.rendered
  | create package => rfl

/-- A list of interfaces that are all inserted is declared without such a question. -/
theorem declareInterfaces_eq_planned {interfaces : List PlannedInterface}
    (inserts : ∀ interface ∈ interfaces, interface.Inserts) (module : Module) :
    module.declareInterfaces interfaces = module.declareAllPlanned interfaces := by
  induction interfaces generalizing module with
  | nil => rfl
  | cons planned rest ih =>
    obtain ⟨first, later⟩ := List.forall_mem_cons.mp inserts
    rw [declareInterfaces, declareAllPlanned, declareInterface_eq_planned first]
    rcases module.declarePlanned planned with fault | stopped | next
    · rfl
    · rfl
    · exact ih later next

end Module

namespace ExtractionOptions

/-- What is planned is inserted. -/
theorem inserts_of_plan {options : ExtractionOptions} {naming : MethodPattern → String}
    {module : Module} {plan : ExtractionPlan}
    (planned : (options.plan naming module).run = .ok (.ok plan)) :
    ∀ interface ∈ plan.interfaces, interface.Inserts := by
  refine forall_mem_plan (fun target state pattern next inserts stepped => ?_) planned
  rcases planPattern_cases stepped with
    ⟨-, warnings, rfl⟩ | ⟨_, package, path, _, _, _, _, _, rfl⟩
  · exact inserts
  · refine List.forall_mem_cons.mpr ⟨fun edit placed => ?_, inserts⟩
    cases existing : plannedText module state path with
    | none =>
      rw [existing] at placed
      cases placed
    | some content =>
      rw [existing] at placed
      cases placed
      exact ⟨_, _, _, rfl⟩

/-- Plan the extraction and declare the interfaces, asking nothing about insertions. -/
def runPlanned (options : ExtractionOptions) (naming : MethodPattern → String) (module : Module) :
    Except Fault (Module × Outcome) := do
  match ← (options.plan naming module).run with
  | .error error => return (module, .failed error)
  | .ok plan =>
    if options.dryRun then return (module, options.report plan)
    else
      match ← module.declareAllPlanned plan.interfaces with
      | (extended, none) => return (extended, options.report plan)
      | (extended, some error) => return (extended, .failed error)

/-- **An extraction has nothing to ask about its insertions.** -/
theorem run_eq_runPlanned (options : ExtractionOptions) (naming : MethodPattern → String)
    (module : Module) : options.run naming module = options.runPlanned naming module := by
  unfold run runPlanned
  rcases planned : (options.plan naming module).run with fault | error | plan
  · rfl
  · rfl
  · have declared := Module.declareInterfaces_eq_planned (inserts_of_plan planned) module
    simp only [bind_ok, declared]
    rfl

end ExtractionOptions

namespace Outcome

/-- A report of a plan that is carried out is no refusal. -/
@[simp]
theorem success_succeeded (summary : String) (changes : List Change) (warnings : List String) :
    (succeeded summary changes warnings).success = true := rfl

/-- A refusal is reported as one. -/
@[simp]
theorem success_failed (error : Error) : (failed error).success = false := rfl

end Outcome

end GoRefactor
