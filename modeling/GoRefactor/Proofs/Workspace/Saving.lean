import GoRefactor.Proofs.Transform.Flags
import GoRefactor.Proofs.Workspace.Writing
import GoRefactor.Workspace.Save

/-!
# What a save writes

A save looks at all changed files before it writes the first of them: if one could lead out of the
root, nothing is written. Otherwise each changed file is found below the root with its text, and
nothing else is different. After a run on a module without flags, the files that are not written
are those of the start, so a tree that held the module's texts holds them again.
-/

namespace GoRefactor

namespace Workspace

variable {workspace written : Workspace} {root : String}

/-- Where a path from a module's root leads below a root. -/
def placeBelow (workspace : Workspace) (root path : String) : TreePath :=
  workspace.placeOf root ++ splitText '/' path

/-- Different paths lead to different places. -/
theorem placeBelow_injective (workspace : Workspace) (root : String) {left right : String}
    (same : workspace.placeBelow root left = workspace.placeBelow root right) : left = right :=
  splitText_injective '/' (List.append_cancel_left same)

/-- Where a path leads depends on the working directory only. -/
theorem placeBelow_congr (same : written.directory = workspace.directory) (root path : String) :
    written.placeBelow root path = workspace.placeBelow root path := by
  unfold placeBelow placeOf start
  rw [same]

/-- A module's file is written below the root, and at no other place. -/
theorem write?_below {path : String} {content : FileContent}
    (done : workspace.write? (joinPath root path) content = some written)
    (relative : isModuleRelative path = true) :
    written.directory = workspace.directory ∧ ∀ other,
      written.tree.find? other =
        if workspace.placeBelow root path = other then some content
        else workspace.tree.find? other := by
  have plain := plain_of_isModuleRelative relative
  have named : ∀ name ∈ (splitText '/' (joinPath root path)).getLast?, IsPlainSegment name := by
    intro name last
    obtain ⟨front, whole⟩ := suffix_splitText_joinPath root relative
    rw [← whole, List.getLast?_append_of_ne_nil _ (splitText_ne_nil '/' path)] at last
    exact plain name (List.mem_of_getLast? last)
  have spec := write?_spec done named
  rw [placeOf_joinPath workspace root relative] at spec
  exact spec

/-- Files are written one after the other. -/
theorem writeFiles_cons (workspace : Workspace) (root : String) (file : SourceFile)
    (rest : List SourceFile) :
    workspace.writeFiles root (file :: rest) =
      match workspace.write? (joinPath root file.path) (.text file.content) with
      | none => (workspace, some (.io (.unwritable file.path)))
      | some written => written.writeFiles root rest := by
  rfl

/-- Writing files is refused by the tree only. -/
theorem unwritable_of_writeFiles {files : List SourceFile} {error : Error}
    (stopped : workspace.writeFiles root files = (written, some error)) :
    ∃ path, error = .io (.unwritable path) := by
  induction files generalizing workspace with
  | nil => cases stopped
  | cons first rest ih =>
    rw [writeFiles_cons] at stopped
    cases one : workspace.write? (joinPath root first.path) (.text first.content) with
    | none =>
      rw [one] at stopped
      cases stopped
      exact ⟨first.path, rfl⟩
    | some next =>
      rw [one] at stopped
      exact ih stopped

/-- Files that are all written are found below the root, and nothing else is different. -/
theorem writeFiles_spec {files : List SourceFile}
    (done : workspace.writeFiles root files = (written, none))
    (relative : ∀ file ∈ files, isModuleRelative file.path = true)
    (distinct : (files.map SourceFile.path).Nodup) :
    (∀ file ∈ files,
      written.tree.find? (workspace.placeBelow root file.path) = some (.text file.content)) ∧
    ∀ place, (∀ file ∈ files, workspace.placeBelow root file.path ≠ place) →
      written.tree.find? place = workspace.tree.find? place := by
  induction files generalizing workspace with
  | nil =>
    cases done
    exact ⟨fun _ none => (by cases none), fun _ _ => rfl⟩
  | cons first rest ih =>
    rw [writeFiles_cons] at done
    cases one : workspace.write? (joinPath root first.path) (.text first.content) with
    | none =>
      rw [one] at done
      cases done
    | some next =>
      rw [one] at done
      obtain ⟨fresh, later⟩ := List.nodup_cons.mp distinct
      rw [List.forall_mem_cons] at relative
      obtain ⟨same, found⟩ := write?_below one relative.1
      obtain ⟨others, frame⟩ := ih done relative.2 later
      simp only [placeBelow_congr same] at others frame
      constructor
      · rw [List.forall_mem_cons]
        refine ⟨?_, others⟩
        -- No later file has the path of the first.
        rw [frame _ fun file member equal => ?_, found, if_pos rfl]
        have again := placeBelow_injective workspace root equal
        exact fresh (again ▸ List.mem_map_of_mem member)
      · intro place missed
        rw [List.forall_mem_cons] at missed
        rw [frame place missed.2, found, if_neg missed.1]

end Workspace

namespace Module

/-- The changed files are those of the module that are flagged. -/
theorem mem_modifiedFiles {module : Module} {file : SourceFile} :
    file ∈ module.modifiedFiles ↔ file ∈ module.sourceFiles ∧ file.modified = true := by
  unfold modifiedFiles
  rw [map_snd_files, List.mem_filter]

/-- The changed files are saved unless one of them could lead out of the root. -/
theorem filesToSave_cases (module : Module) (root : String) :
    (∃ file ∈ module.modifiedFiles, isModuleRelative file.path = false ∧
      module.filesToSave root = .error (.io (.outsideRoot root file.path))) ∨
    ((∀ file ∈ module.modifiedFiles, isModuleRelative file.path = true) ∧
      ∃ files, module.filesToSave root = .ok files ∧ files.Perm module.modifiedFiles) := by
  have sorted := sortBy_perm (fun left right : SourceFile => decide (left.path ≤ right.path))
    module.modifiedFiles
  unfold filesToSave
  simp only
  cases found : (sortBy (fun left right : SourceFile => decide (left.path ≤ right.path))
      module.modifiedFiles).find? fun file => !isModuleRelative file.path with
  | some file =>
    refine Or.inl ⟨file, sorted.mem_iff.mp (List.mem_of_find?_eq_some found), ?_, rfl⟩
    simpa using List.find?_some found
  | none =>
    refine Or.inr ⟨fun file member => ?_, _, rfl, sorted⟩
    simpa using List.find?_eq_none.mp found file (sorted.mem_iff.mpr member)

/-- Where paths tell files apart, they tell the changed files apart. -/
theorem DistinctPaths.modified {module : Module} (distinct : module.DistinctPaths) :
    (module.modifiedFiles.map SourceFile.path).Nodup := by
  refine distinct.sublist (List.Sublist.map _ ?_)
  unfold modifiedFiles
  rw [map_snd_files]
  exact List.filter_sublist

/-- The text of the file with a path, as a tree holds it. -/
def heldText? (module : Module) (path : String) : Option FileContent :=
  (module.file? path).map fun file => .text file.content

/-- Where paths tell files apart, the text under a file's path is the file's. -/
theorem DistinctPaths.heldText? {module : Module} (distinct : module.DistinctPaths)
    {file : SourceFile} (member : file ∈ module.sourceFiles) :
    module.heldText? file.path = some (.text file.content) := by
  rw [Module.heldText?, file?_path distinct member]
  rfl

/-- There is no text under a path that no file has. -/
theorem heldText?_eq_none {module : Module} {path : String}
    (missing : path ∉ module.sourceFiles.map SourceFile.path) : module.heldText? path = none := by
  have none : module.file? path = none := by
    rw [file?_eq_find?, List.find?_eq_none]
    intro file member same
    exact missing (beq_iff_eq.mp same ▸ List.mem_map_of_mem member)
  rw [heldText?, none]
  rfl

/-- What a path holds after a run is what it held before, unless a changed file has the path. -/
theorem Descends.heldText?_of_unflagged {start module : Module} (descends : start.Descends module)
    (distinct : start.DistinctPaths) {path : String}
    (missed : ∀ file ∈ module.modifiedFiles, file.path ≠ path) :
    module.heldText? path = start.heldText? path := by
  by_cases listed : path ∈ module.sourceFiles.map SourceFile.path
  · obtain ⟨file, member, rfl⟩ := List.mem_map.mp listed
    have fresh : file.modified = false := by
      cases flag : file.modified with
      | true => exact absurd rfl (missed file (mem_modifiedFiles.mpr ⟨member, flag⟩))
      | false => rfl
    rw [descends.distinct.heldText? member,
      distinct.heldText? (descends.unflagged file member fresh)]
  · have gone : path ∉ start.sourceFiles.map SourceFile.path := by
      intro former
      obtain ⟨file, member, rfl⟩ := List.mem_map.mp former
      exact listed (descends.present file member)
    rw [heldText?_eq_none listed, heldText?_eq_none gone]

end Module

/-- A save that the tree takes and that stays below the root writes the changed files. -/
theorem Workspace.save_of_relative {workspace : Workspace} {root : String} {module : Module}
    (relative : ∀ file ∈ module.modifiedFiles, isModuleRelative file.path = true)
    (accepted : ∀ path, (workspace.save root module).2 ≠ .error (.io (.unwritable path))) :
    ∃ saved files, workspace.save root module = (saved, .ok files) ∧
      files.Perm module.modifiedFiles ∧ workspace.writeFiles root files = (saved, none) := by
  rcases module.filesToSave_cases root with ⟨file, member, outside, -⟩ | ⟨-, files, kept, same⟩
  · rw [relative file member] at outside
    cases outside
  · unfold save at accepted ⊢
    simp only [kept] at accepted ⊢
    rcases wrote : workspace.writeFiles root files with ⟨saved, _ | error⟩
    · exact ⟨saved, files, rfl, same, wrote⟩
    · obtain ⟨path, rfl⟩ := unwritable_of_writeFiles wrote
      rw [wrote] at accepted
      exact absurd rfl (accepted path)

/-- **A save after a run loses nothing and stays below the root.** On a module with distinct paths,
edits, renames, extractions and chains are carried out, with any outcome. Every file whose text
differs from the start, and every file that was not there, is flagged. A save is refused with
nothing written exactly when the path of a flagged file could lead out of the root. Otherwise, if
the tree takes the files, the flagged ones are found with their texts at the root's place followed
by plain segments and nothing else is different, so that wherever the tree held the text of the
start, or nothing where there was no file, it holds that of the module. -/
theorem save_after_run (start final : Module) (steps : List Step) (workspace : Workspace)
    (root : String) (distinct : (start.sourceFiles.map SourceFile.path).Nodup)
    (ran : Step.runAll steps start = .ok final)
    (accepted : ∀ path, (workspace.save root final).2 ≠ .error (.io (.unwritable path))) :
    (∀ file ∈ final.sourceFiles,
      (∀ former ∈ start.sourceFiles, former.path = file.path → former.content ≠ file.content) →
        file.modified = true) ∧
    ((∃ error, workspace.save root final = (workspace, .error error)) ↔
      ∃ file ∈ final.modifiedFiles, isModuleRelative file.path = false) ∧
    ((∀ file ∈ final.modifiedFiles, isModuleRelative file.path = true) →
      ∃ saved files, workspace.save root final = (saved, .ok files) ∧
        files.Perm final.modifiedFiles ∧
        (∀ file ∈ final.modifiedFiles,
          (∀ segment ∈ splitText '/' file.path, IsPlainSegment segment) ∧
          workspace.placeOf (joinPath root file.path) =
            workspace.placeOf root ++ splitText '/' file.path ∧
          saved.tree.find? (workspace.placeOf root ++ splitText '/' file.path) =
            some (.text file.content)) ∧
        (∀ place, (∀ file ∈ final.modifiedFiles,
            workspace.placeOf root ++ splitText '/' file.path ≠ place) →
          saved.tree.find? place = workspace.tree.find? place) ∧
        ∀ path,
          workspace.tree.find? (workspace.placeOf root ++ splitText '/' path) =
              (start.file? path).map (fun file => .text file.content) →
            saved.tree.find? (workspace.placeOf root ++ splitText '/' path) =
              (final.file? path).map fun file => .text file.content) := by
  have descends := Module.descends_of_runAll distinct ran
  refine ⟨fun file member differs => ?_, ⟨?_, ?_⟩, fun relative => ?_⟩
  · cases flag : file.modified with
    | true => rfl
    | false => exact absurd rfl (differs file (descends.unflagged file member flag) rfl)
  · rintro ⟨error, refused⟩
    by_contra clean
    have relative : ∀ file ∈ final.modifiedFiles, isModuleRelative file.path = true := by
      intro file member
      by_contra outside
      exact clean ⟨file, member, by simpa using outside⟩
    obtain ⟨saved, files, done, -⟩ := Workspace.save_of_relative relative accepted
    rw [done] at refused
    cases refused
  · rintro ⟨file, member, outside⟩
    rcases final.filesToSave_cases root with ⟨first, -, -, refused⟩ | ⟨relative, -⟩
    · refine ⟨.io (.outsideRoot root first.path), ?_⟩
      unfold Workspace.save
      rw [refused]
    · rw [relative file member] at outside
      cases outside
  · obtain ⟨saved, files, done, same, wrote⟩ := Workspace.save_of_relative relative accepted
    obtain ⟨found, frame⟩ := Workspace.writeFiles_spec wrote
      (fun file member => relative file (same.mem_iff.mp member))
      ((same.map _).nodup_iff.mpr descends.distinct.modified)
    have kept : ∀ place, (∀ file ∈ final.modifiedFiles,
        workspace.placeBelow root file.path ≠ place) →
        saved.tree.find? place = workspace.tree.find? place := by
      intro place missed
      exact frame place fun file member => missed file (same.mem_iff.mp member)
    refine ⟨saved, files, done, same, fun file member => ?_, kept, fun path held => ?_⟩
    · exact ⟨plain_of_isModuleRelative (relative file member),
        workspace.placeOf_joinPath root (relative file member),
        found file (same.mem_iff.mpr member)⟩
    · by_cases changed : ∃ file ∈ final.modifiedFiles, file.path = path
      · obtain ⟨file, member, rfl⟩ := changed
        have listed := (Module.mem_modifiedFiles.mp member).1
        exact (found file (same.mem_iff.mpr member)).trans (descends.distinct.heldText? listed).symm
      · have missed : ∀ file ∈ final.modifiedFiles, file.path ≠ path :=
          fun file member equal => changed ⟨file, member, equal⟩
        have unwritten := kept (workspace.placeBelow root path) fun file member equal =>
          missed file member (workspace.placeBelow_injective root equal)
        exact (unwritten.trans held).trans (descends.heldText?_of_unflagged distinct missed).symm

/-- A struct with a method. -/
def savedSources : List (String × String) :=
  [("a.go", "package a\n\ntype T struct{}\n\nfunc (T) M() {}\n")]

/-- A rename that is refused, and an extraction to a new file. -/
def savedSteps : List Step :=
  [.transform (.rename { old := "Missing", new := "V" }),
    .transform (.extract { minTypes := 1, interfaceName := some "Mer", createNewFiles := true })]

/-- A tree that holds the sources below a root. -/
def savedWorkspace : Workspace :=
  ⟨⟨savedSources.map fun (path, content) => (["w", path], .text content), []⟩, []⟩

/-- The tree takes the file that the steps create, and it held the texts of the start. -/
def savedBelowRoot : Bool :=
  match Module.ofSources "m" savedSources with
  | .error _ => false
  | .ok start =>
    match Step.runAll savedSteps start with
    | .error _ => false
    | .ok final =>
      decide (start.sourceFiles.map SourceFile.path).Nodup &&
        decide (final.modifiedFiles.map SourceFile.path = ["mer.go"]) &&
        (savedWorkspace.save "w" final).2.isOk &&
        ["a.go", "mer.go"].all fun path => decide
          (savedWorkspace.tree.find? (savedWorkspace.placeOf "w" ++ splitText '/' path) =
            (start.file? path).map fun file => .text file.content)

/-- A result that is there is no refusal. -/
theorem ne_error_of_isOk {ε α : Type} {result : Except ε α} (done : result.isOk = true)
    (error : ε) : result ≠ .error error := by
  rintro rfl
  cases done

/-- After the steps and a save, the tree holds the text of the new file and that of the file that is
as it was. -/
theorem save_after_refusal_and_extraction :
    ∃ start final saved files, Module.ofSources "m" savedSources = .ok start ∧
      Step.runAll savedSteps start = .ok final ∧
      final.modifiedFiles.map SourceFile.path = ["mer.go"] ∧
      savedWorkspace.save "w" final = (saved, .ok files) ∧
      ∀ path ∈ ["a.go", "mer.go"],
        saved.tree.find? (savedWorkspace.placeOf "w" ++ splitText '/' path) =
          (final.file? path).map fun file => .text file.content := by
  have evaluated : savedBelowRoot = true := by decide +kernel
  unfold savedBelowRoot at evaluated
  split at evaluated
  · cases evaluated
  · rename_i start built
    split at evaluated
    · cases evaluated
    · rename_i final ran
      simp only [Bool.and_eq_true, decide_eq_true_eq, List.all_eq_true] at evaluated
      obtain ⟨⟨⟨distinct, changed⟩, saves⟩, held⟩ := evaluated
      have accepted :
          ∀ path, (savedWorkspace.save "w" final).2 ≠ .error (.io (.unwritable path)) := by
        intro path refused
        exact ne_error_of_isOk saves _ refused
      have relative : ∀ file ∈ final.modifiedFiles, isModuleRelative file.path = true := by
        intro file member
        have listed : file.path ∈ ["mer.go"] := changed ▸ List.mem_map_of_mem member
        exact (by decide : ∀ path ∈ ["mer.go"], isModuleRelative path = true) _ listed
      obtain ⟨-, -, writes⟩ :=
        save_after_run start final savedSteps savedWorkspace "w" distinct ran accepted
      obtain ⟨saved, files, done, -, -, -, kept⟩ := writes relative
      exact ⟨start, final, saved, files, built, ran, changed, done, fun path member =>
        kept path (held path member)⟩

end GoRefactor
