import GoRefactor.Proofs.Transform.Flags
import GoRefactor.Proofs.Transform.NewFiles

/-!
# Runs that keep modules in shape

Renames, extractions and chains take a module whose files are laid out and addressed to another one:
none of them faults, and what a refused one leaves is in shape as well. Texts must stay short enough
for their offsets to be counted, and interfaces need names that can be declared.
-/

namespace GoRefactor

/-- What all modules of a run have in common: the files keep to their texts, which are not too long,
and are found where their paths say. -/
structure Module.Reloadable (module : Module) : Prop where
  laid : module.LaidOut
  small : module.Small
  addressed : module.Addressed

/-- **A module from source text is in shape.** -/
theorem Module.reloadable_of_ofSources {path : String} {sources : List (String × String)}
    {module : Module} (loaded : Module.ofSources path sources = .ok module)
    (short : ∀ source ∈ sources, source.2.utf8ByteSize < 2 ^ 63) : module.Reloadable where
  laid file member := SourceFile.laidOut_of_parse (scanned_of_ofSources loaded file member)
  small file member := short _ (source_of_ofSources loaded file member)
  addressed := addressed_of_ofSources loaded

namespace Transformation

mutual

/-- The texts that a transformation puts in place of others, or into new files. -/
def writes : Transformation → Module → List String
  | .rename options, module => options.writes module
  | .extract options, module => options.writes Naming.interfaceName module
  | .chain steps, module => writesBySteps steps module

/-- The texts that the steps of a chain write, up to the first that is refused. -/
def writesBySteps : List Transformation → Module → List String
  | [], _ => []
  | step :: rest, module =>
    step.writes module ++
      match step.run module with
      | .ok (next, outcome) => if outcome.success then writesBySteps rest next else []
      | .error _ => []

end

end Transformation

namespace Module.Reloadable

variable {module : Module}

/-- A rename keeps a module in shape. -/
theorem rename (shaped : module.Reloadable) {options : RenameOptions}
    (fits : ∀ text ∈ options.writes module, text.utf8ByteSize < 2 ^ 63) :
    ∃ final outcome, options.run module = .ok (final, outcome) ∧ final.Reloadable := by
  obtain ⟨final, outcome, ran, laid, small⟩ := options.run_laidOut shaped.laid shaped.small fits
  refine ⟨final, outcome, ran, laid, small, ?_⟩
  rcases RenameOptions.run_eq_ok.mp ran with attempted | ⟨error, -, rfl, -⟩
  · obtain ⟨plan, -, -, ending⟩ := RenameOptions.attempt_eq_ok.mp attempted
    by_cases dry : options.dryRun = true
    · rw [if_pos dry] at ending
      rw [show final = module from ending]
      exact shaped.addressed
    · rw [if_neg dry] at ending
      obtain ⟨paths, applied⟩ := ending
      exact shaped.addressed.applyEdits applied
  · exact shaped.addressed

/-- An extraction keeps a module in shape, also when it is refused halfway. -/
theorem extract (shaped : module.Reloadable) {options : ExtractionOptions}
    {naming : MethodPattern → String} (named : ∀ pattern, nameFlaw? (naming pattern) = none)
    (fits : ∀ text ∈ options.writes naming module, text.utf8ByteSize < 2 ^ 63) :
    ∃ final outcome, options.run naming module = .ok (final, outcome) ∧ final.Reloadable := by
  obtain ⟨final, outcome, ran, laid, small⟩ :=
    options.run_laidOut shaped.laid shaped.small naming fits
  refine ⟨final, outcome, ran, laid, small, ?_⟩
  rcases ExtractionOptions.run_eq_ok.mp ran with ⟨error, -, rfl, -⟩ | ⟨plan, planned, ending⟩
  · exact shaped.addressed
  · have inside := ExtractionOptions.relative_of_plan shaped.addressed.relative named planned
    by_cases dry : options.dryRun = true
    · rw [if_pos dry] at ending
      rw [ending.1]
      exact shaped.addressed
    · rw [if_neg dry] at ending
      rcases ending with ⟨declared, -⟩ | ⟨error, declared, -⟩
      · exact shaped.addressed.declareInterfaces inside declared
      · exact shaped.addressed.declareInterfaces inside declared

mutual

/-- A transformation keeps a module in shape. -/
theorem transform : ∀ (transformation : Transformation) {module : Module}, module.Reloadable →
    (∀ text ∈ transformation.writes module, text.utf8ByteSize < 2 ^ 63) →
      ∃ final outcome, transformation.run module = .ok (final, outcome) ∧ final.Reloadable
  | .rename _, _, shaped, fits => shaped.rename fits
  | .extract _, _, shaped, fits => shaped.extract Naming.nameFlaw?_interfaceName fits
  | .chain steps, _, shaped, fits => transformSteps steps 0 _ shaped fits

/-- A chain keeps a module in shape, up to the first step that is refused. -/
theorem transformSteps : ∀ (steps : List Transformation) (completed : Nat) (before : Outcome)
    {module : Module}, module.Reloadable →
    (∀ text ∈ Transformation.writesBySteps steps module, text.utf8ByteSize < 2 ^ 63) →
      ∃ final outcome, Transformation.runSteps steps completed before module =
        .ok (final, outcome) ∧ final.Reloadable
  | [], _, _, module, shaped, _ => ⟨module, _, rfl, shaped⟩
  | step :: rest, completed, before, module, shaped, fits => by
    rw [Transformation.writesBySteps, List.forall_mem_append] at fits
    obtain ⟨here, later⟩ := fits
    obtain ⟨between, result, first, kept⟩ := transform step shaped here
    rw [first] at later
    rw [Transformation.runSteps, first]
    cases done : result.success with
    | true =>
      simp only [done, if_true] at later ⊢
      exact transformSteps rest _ _ kept later
    | false =>
      simp only [done]
      exact ⟨between, _, rfl, kept⟩

end

end Module.Reloadable

namespace Step

/-- The texts that a step puts in place of others, or into new files. -/
def writes : Step → Module → List String
  | .edit edits, module => module.sourceFiles.map fun file =>
    Edit.spliceAll ((Edit.arrange edits).filter fun edit => edit.file == file.path) file.content
  | .extract options naming, module => options.writes naming module
  | .transform transformation, module => transformation.writes module

/-- A step that keeps modules in shape: no bare edits, and no interface with a name that cannot be
declared. -/
def IsPlanned : Step → Prop
  | .edit _ => False
  | .extract _ naming => ∀ pattern, nameFlaw? (naming pattern) = none
  | .transform _ => True

/-- No text that the steps write, one after the other, is too long. -/
def AllFit : List Step → Module → Prop
  | [], _ => True
  | step :: rest, module =>
    (∀ text ∈ step.writes module, text.utf8ByteSize < 2 ^ 63) ∧
      match step.run module with
      | .ok next => AllFit rest next
      | .error _ => True

/-- Whether the texts fit can be evaluated. -/
instance decidableAllFit : ∀ (steps : List Step) (module : Module), Decidable (AllFit steps module)
  | [], _ => .isTrue trivial
  | step :: rest, module =>
    have : Decidable (match step.run module with
        | .ok next => AllFit rest next
        | .error _ => True) :=
      match step.run module with
      | .ok next => decidableAllFit rest next
      | .error _ => .isTrue trivial
    inferInstanceAs (Decidable (_ ∧ _))

variable {module : Module}

/-- A planned step keeps a module in shape. -/
theorem run_reloadable (shaped : module.Reloadable) {step : Step} (planned : step.IsPlanned)
    (fits : ∀ text ∈ step.writes module, text.utf8ByteSize < 2 ^ 63) :
    ∃ next, step.run module = .ok next ∧ next.Reloadable := by
  cases step with
  | edit edits => exact planned.elim
  | extract options naming =>
    obtain ⟨final, outcome, ran, kept⟩ := shaped.extract planned fits
    exact ⟨final, by rw [run, ran]; rfl, kept⟩
  | transform transformation =>
    obtain ⟨final, outcome, ran, kept⟩ := Module.Reloadable.transform transformation shaped fits
    exact ⟨final, by rw [run, ran]; rfl, kept⟩

/-- **Planned steps, one after the other, keep a module in shape.** -/
theorem runAll_reloadable (shaped : module.Reloadable) {steps : List Step}
    (planned : ∀ step ∈ steps, step.IsPlanned) (fits : AllFit steps module) :
    ∃ final, runAll steps module = .ok final ∧ final.Reloadable := by
  induction steps generalizing module with
  | nil => exact ⟨module, rfl, shaped⟩
  | cons step rest ih =>
    obtain ⟨first, others⟩ := List.forall_mem_cons.mp planned
    obtain ⟨here, later⟩ := fits
    obtain ⟨next, ran, kept⟩ := run_reloadable shaped first here
    rw [ran] at later
    obtain ⟨final, ran', shaped'⟩ := ih kept others later
    refine ⟨final, ?_, shaped'⟩
    rw [runAll, List.foldlM_cons]
    exact bind_eq_ok.mpr ⟨next, ran, ran'⟩

end Step

end GoRefactor
