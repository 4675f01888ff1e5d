import GoRefactor.Proofs.Transform.ExtractionSafety
import GoRefactor.Proofs.Transform.Staleness

/-!
# Flags of changed files

A file is changed in one place and flagged in another, both by its path. As long as paths tell files
apart, the two meet: after any run of edits, renames, extractions and chains, refused or not, a file
that is not flagged is the very file that was there at the start. Created files are flagged when
they are made, and none of them takes a path that another file has.
-/

namespace GoRefactor

namespace Module

variable {start module next : Module}

/-- What is left of the files of a module: paths tell them apart, those that are not flagged are
files of the start, and no file of the start is lost. -/
structure Descends (start module : Module) : Prop where
  distinct : module.DistinctPaths
  unflagged : ∀ file ∈ module.sourceFiles, file.modified = false → file ∈ start.sourceFiles
  present : ∀ file ∈ start.sourceFiles, file.path ∈ module.sourceFiles.map SourceFile.path

/-- A module with distinct paths descends from itself. -/
theorem Descends.refl (distinct : start.DistinctPaths) : start.Descends start :=
  ⟨distinct, fun _ member _ => member, fun _ member => List.mem_map_of_mem member⟩

namespace Descends

/-- A change of one file that keeps its path and leaves it flagged. -/
theorem of_flagged (descends : start.Descends module) {path : String}
    {change : SourceFile → SourceFile}
    (made : next.sourceFiles = module.sourceFiles.map fun file =>
      if file.path = path then change file else file)
    (keeps : ∀ file ∈ module.sourceFiles, file.path = path → (change file).path = path)
    (flags : ∀ file ∈ module.sourceFiles, file.path = path → (change file).modified = true) :
    start.Descends next := by
  have paths : next.sourceFiles.map SourceFile.path =
      module.sourceFiles.map SourceFile.path := by
    rw [made, List.map_map]
    refine List.map_congr_left fun file member => ?_
    by_cases here : file.path = path
    · simp [here, keeps file member here]
    · simp [here]
  refine ⟨?_, fun file member fresh => ?_, fun file member => ?_⟩
  · unfold DistinctPaths
    rw [paths]
    exact descends.distinct
  · rw [made] at member
    obtain ⟨former, inside, same⟩ := List.mem_map.mp member
    by_cases here : former.path = path
    · rw [if_pos here] at same
      rw [← same, flags former inside here] at fresh
      cases fresh
    · rw [if_neg here] at same
      rw [← same] at fresh ⊢
      exact descends.unflagged former inside fresh
  · rw [paths]
    exact descends.present file member

/-- A file that takes the place of another and is flagged. -/
theorem updateFile_markModified (descends : start.Descends module) {path : String}
    {image : SourceFile} (here : image.path = path) :
    start.Descends ((module.updateFile path fun _ => image).markModified path) ∧
      ∀ file ∈ ((module.updateFile path fun _ => image).markModified path).sourceFiles,
        file.path = path → file.modified = true := by
  have updated := sourceFiles_updateFile_of_distinct descends.distinct path fun _ => image
  have paths : (module.updateFile path fun _ => image).DistinctPaths := by
    unfold DistinctPaths
    rw [updated, List.map_map]
    refine (List.map_congr_left fun file _ => ?_) ▸ descends.distinct
    by_cases there : file.path = path
    · simp [there, here]
    · simp [there]
  have made : ((module.updateFile path fun _ => image).markModified path).sourceFiles =
      module.sourceFiles.map fun file =>
        if file.path = path then { image with modified := true } else file := by
    rw [sourceFiles_markModified paths, updated, List.map_map]
    refine List.map_congr_left fun file _ => ?_
    by_cases there : file.path = path
    · simp [there, here]
    · simp [there]
  refine ⟨descends.of_flagged made (fun _ _ _ => here) (fun _ _ _ => rfl), ?_⟩
  intro file member there
  rw [made] at member
  obtain ⟨former, -, same⟩ := List.mem_map.mp member
  by_cases beneath : former.path = path
  · rw [if_pos beneath] at same
    rw [← same]
  · rw [if_neg beneath] at same
    rw [same] at beneath
    exact absurd there beneath

/-- Recording a change keeps the files. -/
theorem touch (descends : start.Descends module) : start.Descends module.touch :=
  ⟨descends.distinct, descends.unflagged, descends.present⟩

/-- Editing a file flags it. -/
theorem editFile (descends : start.Descends module) {edits : List Edit} {path : String}
    (done : module.editFile edits path = .ok next) : start.Descends next := by
  unfold Module.editFile at done
  cases held : module.file? path with
  | none =>
    rw [held] at done
    cases done
    exact descends
  | some file =>
    rw [held] at done
    obtain ⟨edited, applied, returned⟩ := bind_eq_ok.mp done
    cases returned
    obtain ⟨kept, -⟩ := Edit.applyToFile_keeps applied
    exact (descends.updateFile_markModified (kept.trans (mem_of_file? held).2)).1

/-- Accepted edits flag the files that they change. -/
theorem applyEdits (descends : start.Descends module) {edits : List Edit} {paths : List String}
    (applied : (module.applyEdits edits).run = .ok (.ok (next, paths))) : start.Descends next := by
  obtain ⟨-, -, -, spliced, files, rfl⟩ := applyEdits_eq_ok.mp applied
  have edited : start.Descends spliced := foldlM_keeps (fun state => start.Descends state)
    (fun _ _ _ holds stepped => editFile holds stepped) paths module spliced descends files
  exact edited.touch

/-- A declaration at the end of a file flags the file. -/
theorem appendInterface (descends : start.Descends module) {edit : Edit} {rendered : String}
    (declared : (module.appendInterface edit rendered).run = .ok (.ok next)) :
    start.Descends next ∧
      next.sourceFiles.map SourceFile.path = module.sourceFiles.map SourceFile.path := by
  obtain ⟨file, types, edited, paths, held, -, applied, rfl⟩ :=
    appendInterface_eq_ok.mp declared
  obtain ⟨other, moved, found, -, edits, rfl⟩ := applyEdits_single applied
  rw [held] at found
  cases found
  have here : moved.path = edit.file :=
    (Edit.applyToFile_keeps edits).1.trans (mem_of_file? held).2
  obtain ⟨flagged, marks⟩ := descends.updateFile_markModified here
  -- The types are registered in the file that the edit has flagged.
  have registered := sourceFiles_updateFile_of_distinct flagged.touch.distinct edit.file
    (SourceFile.register types)
  have placed : module.Replaces
      ((module.updateFile edit.file fun _ => moved).markModified edit.file).touch
        edit.file moved :=
    replaces_updateFile module edit.file moved
  constructor
  · exact flagged.touch.of_flagged registered (fun _ _ same => same)
      (fun file member same => marks file member same)
  · have last := placed.updateFile here (fun file => file.unflagged_register types)
    exact last.paths here

/-- A file that is created under a free path is flagged. -/
theorem createFile (descends : start.Descends module) {package path content : String}
    (free : path ∉ module.sourceFiles.map SourceFile.path)
    (created : (module.createFile package path content).run = .ok (.ok next)) :
    start.Descends next ∧ (next.sourceFiles.map SourceFile.path).Perm
      (path :: module.sourceFiles.map SourceFile.path) := by
  obtain ⟨file, owner, scanned, held, rfl⟩ := createFile_eq_ok.mp created
  have there : file.flagged.path = path :=
    (SourceFile.path_of_parse (parse_of_scanFile scanned)).1
  have grown := perm_sourceFiles_grown held file
  have paths := grown.map SourceFile.path
  rw [List.map_cons, there] at paths
  refine ⟨⟨?_, fun other member fresh => ?_, fun other member => ?_⟩, paths⟩
  · exact paths.nodup_iff.mpr (List.nodup_cons.mpr ⟨free, descends.distinct⟩)
  · rcases List.mem_cons.mp (grown.mem_iff.mp member) with rfl | former
    · cases fresh
    · exact descends.unflagged other former fresh
  · exact paths.mem_iff.mpr (List.mem_cons_of_mem _ (descends.present other member))

/-- The texts that interfaces are planned on are there for every file. -/
def Covers (texts : String → Option String) (module : Module) : Prop :=
  ∀ path ∈ module.sourceFiles.map SourceFile.path, texts path ≠ none

/-- The texts of a module are there for every file. -/
theorem covers_text? (distinct : module.DistinctPaths) : Covers module.text? module := by
  intro path member
  obtain ⟨file, inside, rfl⟩ := List.mem_map.mp member
  rw [text?, file?_path distinct inside]
  exact Option.some_ne_none _

/-- An interface that is planned on texts of all files flags the file that it goes to. -/
theorem declareInterface (descends : start.Descends module) {texts : String → Option String}
    (covers : Covers texts module) {planned : PlannedInterface}
    (placed : ∃ package path name rendered,
      planned = ExtractionOptions.placed package path name rendered (texts path))
    (declared : (module.declareInterface planned).run = .ok (.ok next)) :
    start.Descends next ∧ Covers (planned.textsAfter texts) next := by
  obtain ⟨package, path, name, rendered, rfl⟩ := placed
  have known : ∀ other, texts other ≠ none →
      (ExtractionOptions.placed package path name rendered (texts path)).textsAfter texts other ≠
        none := by
    intro other given
    rw [PlannedInterface.textsAfter, Function.update_apply]
    split
    · exact Option.some_ne_none _
    · exact given
  cases text : texts path with
  | some content =>
    rw [text] at declared known
    obtain ⟨kept, paths⟩ := descends.appendInterface declared
    refine ⟨kept, fun other member => known other (covers other ?_)⟩
    rwa [← paths]
  | none =>
    rw [text] at declared known
    obtain ⟨kept, paths⟩ := descends.createFile (fun member => covers path member text) declared
    refine ⟨kept, fun other member => ?_⟩
    rcases List.mem_cons.mp (paths.mem_iff.mp member) with rfl | former
    · rw [PlannedInterface.textsAfter, ExtractionOptions.file_placed, Function.update_self]
      exact Option.some_ne_none _
    · exact known other (covers other former)

/-- Interfaces that are planned one on the other flag the files that they go to, up to the first
that is refused. -/
theorem declareInterfaces (descends : start.Descends module) {texts : String → Option String}
    (covers : Covers texts module) {interfaces : List PlannedInterface}
    (planned : ExtractionPlan.PlannedOn texts interfaces) {refusal : Option Error}
    (declared : module.declareInterfaces interfaces = .ok (next, refusal)) :
    start.Descends next := by
  induction interfaces generalizing module texts with
  | nil =>
    cases declared
    exact descends
  | cons first rest ih =>
    rcases declareInterfaces_cons.mp declared with ⟨between, step, later⟩ | ⟨_, -, rfl, -⟩
    · obtain ⟨kept, covers'⟩ := descends.declareInterface covers planned.1 step
      exact ih kept covers' planned.2 later
    · exact descends

/-- A rename flags what it changes. -/
theorem rename (descends : start.Descends module) {options : RenameOptions} {outcome : Outcome}
    (run : options.run module = .ok (next, outcome)) : start.Descends next := by
  rcases RenameOptions.run_eq_ok.mp run with attempted | ⟨error, -, rfl, -⟩
  · obtain ⟨plan, -, -, ending⟩ := RenameOptions.attempt_eq_ok.mp attempted
    by_cases dry : options.dryRun = true
    · rw [if_pos dry] at ending
      rw [show next = module from ending]
      exact descends
    · rw [if_neg dry] at ending
      obtain ⟨paths, applied⟩ := ending
      exact descends.applyEdits applied
  · exact descends

/-- An extraction flags what it changes and what it creates, also when it is refused halfway. -/
theorem extract (descends : start.Descends module) {options : ExtractionOptions}
    {naming : MethodPattern → String} {outcome : Outcome}
    (run : options.run naming module = .ok (next, outcome)) : start.Descends next := by
  rcases ExtractionOptions.run_eq_ok.mp run with ⟨error, -, rfl, -⟩ | ⟨plan, planned, ending⟩
  · exact descends
  · have on := ExtractionOptions.plannedOn_of_plan planned
    have covers := covers_text? descends.distinct
    by_cases dry : options.dryRun = true
    · rw [if_pos dry] at ending
      rw [ending.1]
      exact descends
    · rw [if_neg dry] at ending
      rcases ending with ⟨declared, -⟩ | ⟨error, declared, -⟩
      · exact descends.declareInterfaces covers on declared
      · exact descends.declareInterfaces covers on declared

mutual

/-- A transformation flags what it changes. -/
theorem transform : ∀ (transformation : Transformation) {module next : Module} {outcome : Outcome},
    start.Descends module → transformation.run module = .ok (next, outcome) → start.Descends next
  | .rename _, _, _, _, descends, run => descends.rename run
  | .extract _, _, _, _, descends, run => descends.extract run
  | .chain steps, _, _, _, descends, run => transformSteps steps descends run

/-- A chain flags what its steps change, up to the first that is refused. -/
theorem transformSteps : ∀ (steps : List Transformation) {completed : Nat} {before : Outcome}
    {module next : Module} {outcome : Outcome}, start.Descends module →
      Transformation.runSteps steps completed before module = .ok (next, outcome) →
        start.Descends next
  | [], _, _, _, _, _, descends, run => by
    cases run
    exact descends
  | step :: rest, _, _, module, _, _, descends, run => by
    rw [Transformation.runSteps] at run
    rcases first : step.run module with fault | ⟨between, result⟩
    · rw [first] at run
      cases run
    · rw [first] at run
      have kept := transform step descends first
      cases done : result.success with
      | true =>
        simp only [done, if_true] at run
        exact transformSteps rest kept run
      | false =>
        simp only [done] at run
        cases run
        exact kept

end

/-- A step of a run flags what it changes. -/
theorem step (descends : start.Descends module) {step : Step} (run : step.run module = .ok next) :
    start.Descends next := by
  cases step with
  | edit edits =>
    rw [Step.run] at run
    rcases applied : (module.applyEdits edits).run with fault | error | ⟨edited, paths⟩
    · rw [applied] at run
      cases run
    · rw [applied] at run
      cases run
      exact descends
    · rw [applied] at run
      cases run
      exact descends.applyEdits applied
  | extract options naming =>
    obtain ⟨⟨final, outcome⟩, ran, rfl⟩ := map_eq_ok.mp run
    exact descends.extract ran
  | transform transformation =>
    obtain ⟨⟨final, outcome⟩, ran, rfl⟩ := map_eq_ok.mp run
    exact transform transformation descends ran

end Descends

end Module

/-- The module after several steps. -/
def Step.runAll (steps : List Step) (module : Module) : Except Fault Module :=
  steps.foldlM (fun module step => step.run module) module

/-- **A file that is not flagged after a run is one of the start.** -/
theorem Module.descends_of_runAll {start final : Module} {steps : List Step}
    (distinct : start.DistinctPaths) (ran : Step.runAll steps start = .ok final) :
    start.Descends final :=
  foldlM_keeps (fun state => start.Descends state) (fun _ _ _ holds stepped => holds.step stepped)
    steps start final (.refl distinct) ran

end GoRefactor
