import GoRefactor.Proofs.Transform.AppliedEdits

/-!
# Packages after edits

Edits that are made keep the packages of a module and the order of their files. Each file becomes
what its own edits make of it, flagged, or stays as it is where it has none.
-/

namespace GoRefactor

/-- What the edits of a file make of it: with edits their image, flagged, and else the file. -/
def Edit.Makes (edits : List Edit) (file image : SourceFile) : Prop :=
  (edits = [] ∧ image = file) ∨ ∃ moved, applyToFile edits file = .ok moved ∧ image = moved.flagged

namespace Module

variable {module edited : Module} {edits : List Edit} {paths : List String}

/-- What a module is without its files' contents: its path, and of each package the key, the import
path, the name and the paths of the files. -/
def skeleton (module : Module) : String × List (String × String × String × List String) :=
  (module.path, module.packages.entries.map fun entry =>
    (entry.1, entry.2.path, entry.2.name, entry.2.files.map SourceFile.path))

/-- Changing a file but for its path keeps the skeleton. -/
theorem skeleton_updateFile (module : Module) {path : String} {change : SourceFile → SourceFile}
    (keeps : ∀ file, file.path = path → (change file).path = file.path) :
    (module.updateFile path change).skeleton = module.skeleton := by
  unfold updateFile
  split
  · rfl
  · unfold skeleton NameMap.modify
    refine congrArg (Prod.mk _) ?_
    rw [List.map_map]
    refine List.map_congr_left fun entry _ => ?_
    simp only [Function.comp_apply]
    split
    · simp only [map_modifyFirst_of_passes SourceFile.path fun file passed =>
        keeps file (eq_of_beq passed)]
    · rfl

/-- Flagging a file keeps the skeleton. -/
theorem skeleton_markModified (module : Module) (path : String) :
    (module.markModified path).skeleton = module.skeleton := by
  have flagged (file : SourceFile) : file.flagged.path = file.path := rfl
  unfold skeleton markModified NameMap.mapValues
  refine congrArg (Prod.mk _) ?_
  rw [List.map_map]
  refine List.map_congr_left fun entry _ => ?_
  simp only [Function.comp_apply]
  split
  · refine congrArg (fun files => (entry.1, entry.2.path, entry.2.name, files)) ?_
    exact map_modifyFirst_of_passes SourceFile.path (fun file _ => flagged file) _
  · rfl

/-- Edits file by file keep the skeleton. -/
theorem skeleton_editFiles (done : module.editFiles edits paths = .ok edited) :
    edited.skeleton = module.skeleton := by
  refine foldlM_keeps (fun state : Module => state.skeleton = module.skeleton)
    (fun state path next same stepped => ?_) paths module edited rfl done
  unfold editFile at stepped
  cases held : state.file? path with
  | none =>
    rw [held] at stepped
    cases stepped
    exact same
  | some file =>
    rw [held] at stepped
    obtain ⟨moved, applied, returned⟩ := bind_eq_ok.mp stepped
    cases returned
    rw [skeleton_markModified, skeleton_updateFile, same]
    exact fun other here =>
      (Edit.applyToFile_keeps applied).1.trans ((mem_of_file? held).2.trans here.symm)

/-- Import paths of the packages, each with the paths of its files. -/
def outline (module : Module) : List (String × List String) :=
  module.packageList.map fun package => (package.path, package.files.map SourceFile.path)

/-- The outline is a part of the skeleton. -/
theorem outline_eq (module : Module) :
    module.outline = module.skeleton.2.map fun entry => (entry.2.1, entry.2.2.2) := by
  unfold outline skeleton packageList NameMap.values
  rw [List.map_map, List.map_map]
  rfl

/-- The paths of the files are a part of the skeleton. -/
theorem map_path_sourceFiles (module : Module) : module.sourceFiles.map SourceFile.path =
    module.skeleton.2.flatMap fun entry => entry.2.2.2 := by
  unfold sourceFiles skeleton packageList NameMap.values
  rw [List.map_flatMap, List.flatMap_map, List.flatMap_map]

/-- With the skeleton the paths stay distinct. -/
theorem DistinctPaths.of_skeleton {left right : Module} (distinct : left.DistinctPaths)
    (same : right.skeleton = left.skeleton) : right.DistinctPaths := by
  unfold DistinctPaths
  rw [map_path_sourceFiles, same, ← map_path_sourceFiles]
  exact distinct

/-- Modules with one skeleton whose files with the same path are the same, flags apart, differ in
flags and revision only. -/
theorem unflagged_eq_of_skeleton {left right : Module} (distinct : left.DistinctPaths)
    (same : right.skeleton = left.skeleton)
    (each : ∀ file ∈ left.sourceFiles, ∃ image, right.file? file.path = some image ∧
      image.unflagged = file.unflagged) : right.unflagged = left.unflagged := by
  obtain ⟨path, entries⟩ := Prod.mk.inj same
  have distinct' := distinct.of_skeleton same
  have agree : ∀ entry ∈ left.packages.entries, ∀ entry' ∈ right.packages.entries,
      (entry'.1, entry'.2.path, entry'.2.name, entry'.2.files.map SourceFile.path) =
        (entry.1, entry.2.path, entry.2.name, entry.2.files.map SourceFile.path) →
      (entry'.1, entry'.2.unflagged) = (entry.1, entry.2.unflagged) := by
    rintro ⟨key, package⟩ member ⟨key', package'⟩ member' alike
    obtain ⟨keys, packagePaths, names, filePaths⟩ : key' = key ∧ package'.path = package.path ∧
        package'.name = package.name ∧
          package'.files.map SourceFile.path = package.files.map SourceFile.path := by
      simpa using alike
    have owned {module : Module} {key : String} {package : Package} {file : SourceFile}
        (member : (key, package) ∈ module.packages.entries) (held : file ∈ package.files) :
        file ∈ module.sourceFiles :=
      List.mem_flatMap.mpr ⟨package, List.mem_map_of_mem member, held⟩
    have files : package'.files.map SourceFile.unflagged =
        package.files.map SourceFile.unflagged := by
      refine map_eq_map_of_forall₂ _ _ (fun _ _ same => same)
        ((forall₂_of_map_eq filePaths).imp fun file file' ⟨held, held', here⟩ => ?_)
      obtain ⟨image, found, equal⟩ := each file (owned member held)
      rw [← here, file?_path distinct' (owned member' held')] at found
      cases found
      exact equal
    rw [Package.unflagged, Package.unflagged, keys, packagePaths, names, files]
  have packages : right.packages.mapValues Package.unflagged =
      left.packages.mapValues Package.unflagged :=
    NameMap.ext (map_eq_map_of_forall₂ _ _ (fun _ _ same => same)
      ((forall₂_of_map_eq entries).imp fun entry entry' ⟨member, member', alike⟩ =>
        agree entry member entry' member' alike))
  rw [unflagged, unflagged, packages, path]

/-- Edits that are made keep the skeleton. -/
theorem skeleton_of_applyEdits
    (applied : (module.applyEdits edits).run = .ok (.ok (edited, paths))) :
    edited.skeleton = module.skeleton := by
  obtain ⟨-, -, -, spliced, done, rfl⟩ := applyEdits_eq_ok.mp applied
  have recorded : spliced.touch.skeleton = spliced.skeleton := rfl
  exact recorded.trans (skeleton_editFiles done)

/-- Edits that are made leave a file without edits alone, and make of another what its own edits
make of it, flagged. -/
theorem file?_of_applyEdits (distinct : module.DistinctPaths)
    (applied : (module.applyEdits edits).run = .ok (.ok (edited, paths))) {file : SourceFile}
    (member : file ∈ module.sourceFiles) :
    ∃ image, edited.file? file.path = some image ∧
      (Edit.own (Edit.arrange edits) file.path = [] → image = file) ∧
      (Edit.own (Edit.arrange edits) file.path ≠ [] → ∃ moved,
        Edit.applyToFile (Edit.own (Edit.arrange edits) file.path) file = .ok moved ∧
          image = moved.flagged) := by
  obtain ⟨rfl, -, -, spliced, done, rfl⟩ := applyEdits_eq_ok.mp applied
  obtain ⟨keeps, turns⟩ := file?_of_editFiles (Edit.nodup_files_arrange edits) done
    (file?_path distinct member)
  by_cases none : Edit.own (Edit.arrange edits) file.path = []
  · exact ⟨file, keeps fun listed => mem_edited_iff.mp listed none, fun _ => rfl,
      fun given => absurd none given⟩
  · obtain ⟨moved, made, held⟩ := turns (mem_edited_iff.mpr none)
    exact ⟨moved.flagged, held, fun given => absurd given none, fun _ => ⟨moved, made, rfl⟩⟩

/-- **Edits that are made keep the packages**, and make of each file what its own edits make of
it. -/
theorem packages_of_applyEdits (distinct : module.DistinctPaths)
    (applied : (module.applyEdits edits).run = .ok (.ok (edited, paths))) :
    List.Forall₂ (fun package image => image.path = package.path ∧
        List.Forall₂ (fun file image => image.path = file.path ∧
          Edit.Makes (Edit.own (Edit.arrange edits) file.path) file image)
          package.files image.files)
      module.packageList edited.packageList := by
  have skeleton := skeleton_of_applyEdits applied
  have distinct' := distinct.of_skeleton skeleton
  have outlines : edited.outline = module.outline := by rw [outline_eq, outline_eq, skeleton]
  refine (forall₂_of_map_eq outlines).imp fun package image facts => ?_
  obtain ⟨listed, listed', same⟩ := facts
  obtain ⟨path, files⟩ := Prod.mk.inj same
  refine ⟨path, (forall₂_of_map_eq files).imp fun file image ⟨member, member', here⟩ => ⟨here, ?_⟩⟩
  obtain ⟨found, held, keeps, turns⟩ :=
    file?_of_applyEdits distinct applied (List.mem_flatMap.mpr ⟨package, listed, member⟩)
  rw [← here, file?_path distinct' (List.mem_flatMap.mpr ⟨_, listed', member'⟩)] at held
  cases held
  by_cases none : Edit.own (Edit.arrange edits) file.path = []
  · exact Or.inl ⟨none, keeps none⟩
  · exact Or.inr (turns none)

section Files

variable (distinct : module.DistinctPaths)
  (applied : (module.applyEdits edits).run = .ok (.ok (edited, paths)))

include distinct applied

/-- A file after edits is what its own edits make of a former one. -/
theorem exists_makes {image : SourceFile} (member : image ∈ edited.sourceFiles) :
    ∃ file ∈ module.sourceFiles, image.path = file.path ∧
      Edit.Makes (Edit.own (Edit.arrange edits) file.path) file image := by
  obtain ⟨package', listed', held'⟩ := List.mem_flatMap.mp member
  obtain ⟨package, listed, -, files⟩ :=
    exists_mem_of_forall₂ (packages_of_applyEdits distinct applied) listed'
  obtain ⟨file, held, made⟩ := exists_mem_of_forall₂ files held'
  exact ⟨file, List.mem_flatMap.mpr ⟨package, listed, held⟩, made⟩

/-- Edits keep declarations under their names. -/
theorem keyed_of_applyEdits (keyed : ∀ file ∈ module.sourceFiles, file.Keyed) :
    ∀ file ∈ edited.sourceFiles, file.Keyed := by
  intro image member
  obtain ⟨file, inside, -, ⟨-, rfl⟩ | ⟨moved, made, rfl⟩⟩ := exists_makes distinct applied member
  · exact keyed image inside
  · obtain ⟨types, functions, vars, consts⟩ := (Edit.applyToFile_eq_ok.mp made).1.keyed
    exact ⟨types, functions, vars, consts⟩

end Files

end Module

end GoRefactor
