import GoRefactor.Proofs.Module.Changes
import GoRefactor.Proofs.Module.Sources
import GoRefactor.Proofs.NameMap
import GoRefactor.Proofs.Transform.Runs

/-!
# Addresses in a module

A module that was built from source text has its packages under their own paths and its files inside
its root, and counts its changes in a word. Edits, new declarations and new files keep it so, as
long as a new file goes to a path inside the root.
-/

namespace GoRefactor

namespace NameMap

variable {α : Type} {name : α → String} {map : NameMap α}

/-- Values stay under their names when one is changed but for its name. -/
theorem Keyed.modify (keyed : map.Keyed name) {change : α → α}
    (keeps : ∀ value, name (change value) = name value) (key : String) :
    (map.modify key change).Keyed name := by
  intro entry member
  obtain ⟨former, held, rfl⟩ := List.mem_map.mp member
  split
  · exact (keyed former held).trans (keeps former.2).symm
  · exact keyed former held

/-- Values stay under their names when all are changed but for their names. -/
theorem Keyed.mapValues (keyed : map.Keyed name) {change : α → α}
    (keeps : ∀ value, name (change value) = name value) : (map.mapValues change).Keyed name := by
  intro entry member
  obtain ⟨former, held, rfl⟩ := List.mem_map.mp member
  exact (keyed former held).trans (keeps former.2).symm

end NameMap

namespace Module

variable {module next : Module}

/-- The path is that of a file of the module. -/
def HasFile (module : Module) (path : String) : Prop :=
  ∃ file ∈ module.sourceFiles, file.path = path

/-- Packages and files can be found where their paths say, and changes are counted in a word. -/
structure Addressed (module : Module) : Prop where
  /-- Packages stand under their own paths. -/
  keyed : module.packages.Keyed Package.path
  /-- Files stand inside the root. -/
  relative : ∀ path, module.HasFile path → isModuleRelative path = true
  /-- The revision fits into a word. -/
  revision : module.revision < UInt64.size

/-- Sources that are sorted into directories have paths inside the root. -/
theorem relative_of_scanInto {directories result : NameMap (List SourceFile)} {seen : List String}
    {sources : List (String × String)} (sorted : scanInto directories seen sources = .ok result) :
    ∀ source ∈ sources, isModuleRelative source.1 = true := by
  induction sources generalizing directories seen with
  | nil => exact fun _ none => nomatch none
  | cons source rest ih =>
    obtain ⟨path, content⟩ := source
    rw [scanInto] at sorted
    split at sorted
    · cases sorted
    · rename_i inside
      split at sorted
      · cases sorted
      · split at sorted
        · cases sorted
        · exact List.forall_mem_cons.mpr ⟨by simpa using inside, ih sorted⟩

/-- Packages are put under their own paths. -/
theorem keyed_assemble {path : String} {packages result : NameMap Package}
    {directories : List (String × List SourceFile)} (keyed : packages.Keyed Package.path)
    (assembled : assemble path packages directories = .ok result) : result.Keyed Package.path := by
  induction directories generalizing packages with
  | nil =>
    cases assembled
    exact keyed
  | cons entry rest ih =>
    obtain ⟨directory, files⟩ := entry
    rw [assemble] at assembled
    split at assembled
    · cases assembled
    · rename_i name _
      exact ih (NameMap.keyed_insert keyed ⟨importPath path directory, name, files, false⟩)
        assembled

/-- **A module from source text is addressed.** -/
theorem addressed_of_ofSources {path : String} {sources : List (String × String)}
    (loaded : ofSources path sources = .ok module) : module.Addressed := by
  have listed := source_of_ofSources loaded
  unfold ofSources at loaded
  cases sorted : scanInto ∅ [] sources with
  | error error =>
    rw [sorted] at loaded
    cases loaded
  | ok directories =>
    simp only [sorted] at loaded
    cases assembled : assemble path ∅ directories.entries with
    | error error =>
      rw [assembled] at loaded
      cases loaded
    | ok packages =>
      rw [assembled] at loaded
      cases loaded
      have none : (∅ : NameMap Package).Keyed Package.path := List.forall_mem_nil _
      refine ⟨keyed_assemble none assembled, ?_, Nat.two_pow_pos 64⟩
      rintro _ ⟨file, member, rfl⟩
      exact relative_of_scanInto sorted _ (listed file member)

namespace Addressed

/-- A package is found under its path. -/
theorem package?_eq_some (addressed : module.Addressed) {package : Package}
    (listed : package ∈ module.packageList) : module.package? package.path = some package := by
  obtain ⟨⟨path, _⟩, held, rfl⟩ := List.mem_map.mp listed
  have same : path = _ := addressed.keyed _ held
  exact NameMap.get?_eq_some_iff.mpr (same ▸ held)

/-- Whoever has the same paths has the same files. -/
theorem relative_of_paths (addressed : module.Addressed)
    (paths : next.sourceFiles.map SourceFile.path = module.sourceFiles.map SourceFile.path) :
    ∀ path, next.HasFile path → isModuleRelative path = true := by
  rintro _ ⟨file, member, rfl⟩
  have listed : file.path ∈ module.sourceFiles.map SourceFile.path :=
    paths ▸ List.mem_map_of_mem member
  obtain ⟨former, held, same⟩ := List.mem_map.mp listed
  exact addressed.relative _ ⟨former, held, same⟩

/-- Recording a change keeps a module addressed. -/
theorem touch (addressed : module.Addressed) : module.touch.Addressed :=
  ⟨addressed.keyed, addressed.relative, Nat.mod_lt _ (by decide)⟩

/-- Flagging a file keeps a module addressed. -/
theorem markModified (addressed : module.Addressed) (path : String) :
    (module.markModified path).Addressed := by
  refine ⟨addressed.keyed.mapValues fun package => ?_, ?_, addressed.revision⟩
  · split
    · rfl
    · rfl
  · have unseen (files : List SourceFile) : files.map SourceFile.path =
        (files.map SourceFile.unflagged).map SourceFile.path := by
      rw [List.map_map]
      rfl
    refine addressed.relative_of_paths ?_
    rw [unseen, map_unflagged_markModified, ← unseen]

/-- Changing a file but for its path keeps a module addressed. -/
theorem updateFile (addressed : module.Addressed) {path : String}
    {change : SourceFile → SourceFile}
    (keeps : ∀ file, file.path = path → (change file).path = path) :
    (module.updateFile path change).Addressed := by
  have paths : (module.updateFile path change).sourceFiles.map SourceFile.path =
      module.sourceFiles.map SourceFile.path := by
    rw [sourceFiles_updateFile]
    refine map_modifyFirst_of_passes _ (fun file passed => ?_) _
    have here := eq_of_beq passed
    rw [keeps file here, here]
  refine ⟨?_, addressed.relative_of_paths paths, ?_⟩
  · unfold Module.updateFile
    split
    · exact addressed.keyed
    · refine addressed.keyed.modify ?_ _
      exact fun _ => rfl
  · unfold Module.updateFile
    split
    · exact addressed.revision
    · exact addressed.revision

/-- Editing a file keeps a module addressed. -/
theorem editFile (addressed : module.Addressed) {edits : List Edit} {path : String}
    (done : module.editFile edits path = .ok next) : next.Addressed := by
  unfold Module.editFile at done
  cases held : module.file? path with
  | none =>
    rw [held] at done
    cases done
    exact addressed
  | some file =>
    rw [held] at done
    obtain ⟨edited, applied, returned⟩ := bind_eq_ok.mp done
    cases returned
    have kept := (Edit.applyToFile_keeps applied).1
    exact (addressed.updateFile fun _ _ => kept.trans (mem_of_file? held).2).markModified path

/-- Accepted edits keep a module addressed. -/
theorem applyEdits (addressed : module.Addressed) {edits : List Edit} {paths : List String}
    (applied : (module.applyEdits edits).run = .ok (.ok (next, paths))) : next.Addressed := by
  obtain ⟨-, -, -, spliced, files, rfl⟩ := applyEdits_eq_ok.mp applied
  have edited : spliced.Addressed := foldlM_keeps (fun state => state.Addressed)
    (fun _ _ _ holds stepped => holds.editFile stepped) paths module spliced addressed files
  exact edited.touch

/-- A declaration at the end of a file keeps a module addressed. -/
theorem appendInterface (addressed : module.Addressed) {edit : Edit} {rendered : String}
    (declared : (module.appendInterface edit rendered).run = .ok (.ok next)) : next.Addressed := by
  obtain ⟨file, types, edited, paths, -, -, applied, rfl⟩ := appendInterface_eq_ok.mp declared
  exact (addressed.applyEdits applied).updateFile fun _ same => same

/-- A new file inside the root keeps a module addressed. -/
theorem createFile (addressed : module.Addressed) {package path content : String}
    (inside : isModuleRelative path = true)
    (created : (module.createFile package path content).run = .ok (.ok next)) : next.Addressed := by
  obtain ⟨file, owner, scanned, held, rfl⟩ := createFile_eq_ok.mp created
  have there : file.path = path := (SourceFile.path_of_parse (parse_of_scanFile scanned)).1
  have grown := perm_sourceFiles_grown held file
  let extend (owner : Package) : Package :=
    { owner with files := owner.files ++ [file.flagged], modified := true }
  have keeps (owner : Package) : (extend owner).path = owner.path := rfl
  refine Addressed.touch ⟨addressed.keyed.modify keeps package, ?_, addressed.revision⟩
  rintro _ ⟨other, member, rfl⟩
  rcases List.mem_cons.mp (grown.mem_iff.mp member) with rfl | former
  · exact there ▸ inside
  · exact addressed.relative _ ⟨other, former, rfl⟩

/-- An interface for a file inside the root keeps a module addressed. -/
theorem declareInterface (addressed : module.Addressed) {planned : PlannedInterface}
    (inside : isModuleRelative planned.change.file = true)
    (declared : (module.declareInterface planned).run = .ok (.ok next)) : next.Addressed := by
  unfold Module.declareInterface at declared
  cases placed : planned.placement with
  | append edit =>
    rw [placed] at declared
    exact addressed.appendInterface declared
  | create package =>
    rw [placed] at declared
    exact addressed.createFile inside declared

/-- **Interfaces for files inside the root keep a module addressed**, up to the first that is
refused. -/
theorem declareInterfaces (addressed : module.Addressed) {interfaces : List PlannedInterface}
    (inside : ∀ interface ∈ interfaces, isModuleRelative interface.change.file = true)
    {refusal : Option Error}
    (declared : module.declareInterfaces interfaces = .ok (next, refusal)) : next.Addressed := by
  induction interfaces generalizing module with
  | nil =>
    cases declared
    exact addressed
  | cons first rest ih =>
    obtain ⟨here, others⟩ := List.forall_mem_cons.mp inside
    rcases declareInterfaces_cons.mp declared with ⟨between, step, later⟩ | ⟨_, -, rfl, -⟩
    · exact ih (addressed.declareInterface here step) others later
    · exact addressed

end Addressed

end Module

end GoRefactor
