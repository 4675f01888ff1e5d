import GoRefactor.Module.Basic

/-!
# The files of a module

A module's files as one list, in the order of its packages, and what the operations on modules do
to that list. A change of one file reaches the first file with its path and no other; flags say
that a file changed and touch nothing else.
-/

namespace GoRefactor

/-- The file as it would be loaded: without the flag that it changed. -/
def SourceFile.unflagged (file : SourceFile) : SourceFile := { file with modified := false }

/-- The file with the flag that it changed. -/
def SourceFile.flagged (file : SourceFile) : SourceFile := { file with modified := true }

/-- The package with all flags off. -/
def Package.unflagged (package : Package) : Package :=
  { package with files := package.files.map SourceFile.unflagged, modified := false }

/-- The module with all flags off, and at no revision: what counts in it. -/
def Module.unflagged (module : Module) : Module :=
  { module with packages := module.packages.mapValues Package.unflagged, revision := 0 }

/-- The module with a further file in a package, both with the flag that they changed. -/
def Module.addFile (module : Module) (key : String) (file : SourceFile) : Module :=
  { module with packages := module.packages.modify key fun owner =>
      { owner with files := owner.files ++ [file.flagged], modified := true } }

/-- The file with further types declared in it. -/
def SourceFile.register (types : List (String × TypeDecl)) (file : SourceFile) : SourceFile :=
  { file with types := types.foldl (fun map (name, decl) => map.insert name decl) file.types }

theorem SourceFile.unflagged_register (types : List (String × TypeDecl)) (file : SourceFile) :
    (file.register types).unflagged = file.unflagged.register types := rfl

namespace SourceFile

/-- Taking the flag off keeps the path. -/
@[simp]
theorem unflagged_path (file : SourceFile) : file.unflagged.path = file.path := rfl

/-- Taking the flag off keeps the text. -/
@[simp]
theorem unflagged_content (file : SourceFile) : file.unflagged.content = file.content := rfl

end SourceFile

section modifyFirst

variable {α β : Type} (test : α → Bool) (change : α → α)

/-- Without a member that passes the test, nothing changes. -/
theorem modifyFirst_of_find?_eq_none (members : List α) (missing : members.find? test = none) :
    modifyFirst test change members = members := by
  induction members with
  | nil => rfl
  | cons head rest ih =>
    rw [List.find?_cons] at missing
    cases passed : test head with
    | true => simp [passed] at missing
    | false =>
      rw [passed] at missing
      rw [modifyFirst, if_neg (by simp [passed]), ih missing]

/-- In two lists, one behind the other, the change happens in the first that has a member. -/
theorem modifyFirst_append (left right : List α) :
    modifyFirst test change (left ++ right) =
      if left.any test then modifyFirst test change left ++ right
      else left ++ modifyFirst test change right := by
  induction left with
  | nil => rfl
  | cons head rest ih =>
    cases passed : test head with
    | true => simp [modifyFirst, passed]
    | false =>
      have skip : ∀ others, modifyFirst test change (head :: others) =
          head :: modifyFirst test change others := by
        intro others
        rw [modifyFirst, if_neg (by simp [passed])]
      rw [List.cons_append, skip, ih, skip, List.any_cons, passed, Bool.false_or]
      split
      · rfl
      · rfl

/-- A view of the members that the change leaves alone stays as it is. -/
theorem map_modifyFirst_of_keeps (view : α → β)
    (keeps : ∀ member, view (change member) = view member)
    (members : List α) : (modifyFirst test change members).map view = members.map view := by
  induction members with
  | nil => rfl
  | cons head rest ih =>
    rw [modifyFirst]
    split
    · rw [List.map_cons, keeps, List.map_cons]
    · rw [List.map_cons, ih, List.map_cons]

end modifyFirst

/-- In a list of distinct keys, each member is the one found by its key. -/
theorem find?_eq_some_of_nodup {α : Type} {key : α → String} {members : List α}
    (distinct : (members.map key).Nodup) {member : α} (inside : member ∈ members) :
    (members.find? fun other => key other == key member) = some member := by
  induction members with
  | nil => cases inside
  | cons head rest ih =>
    rw [List.map_cons, List.nodup_cons] at distinct
    rw [List.find?_cons]
    rcases List.mem_cons.mp inside with rfl | later
    · rw [beq_self_eq_true]
    · have apart : key head ≠ key member := fun same =>
        distinct.1 (same ▸ List.mem_map_of_mem later)
      rw [beq_eq_false_iff_ne.mpr apart]
      exact ih distinct.2 later

namespace Module

/-- The files of all packages, by increasing import path. -/
def sourceFiles (module : Module) : List SourceFile := module.packageList.flatMap (·.files)

/-- The files that a module lists with their packages are its files. -/
theorem map_snd_files (module : Module) : module.files.map Prod.snd = module.sourceFiles := by
  unfold files sourceFiles
  rw [List.map_flatMap]
  congr 1
  funext package
  rw [List.map_map]
  exact List.map_id _

/-- A file is found by its path among all files. -/
theorem file?_eq_find? (module : Module) (path : String) :
    module.file? path = module.sourceFiles.find? fun file => file.path == path := by
  unfold file?
  rw [map_snd_files]

/-- What is found by a path is a file with the path. -/
theorem mem_of_file? {module : Module} {path : String} {file : SourceFile}
    (held : module.file? path = some file) : file ∈ module.sourceFiles ∧ file.path = path := by
  rw [file?_eq_find?] at held
  exact ⟨List.mem_of_find?_eq_some held, by simpa using List.find?_some held⟩

/-- When no path repeats, every file is the one found by its path. -/
theorem file?_path {module : Module}
    (distinct : (module.sourceFiles.map SourceFile.path).Nodup) {file : SourceFile}
    (inside : file ∈ module.sourceFiles) : module.file? file.path = some file := by
  rw [file?_eq_find?]
  exact find?_eq_some_of_nodup distinct inside

/-- Recording a change keeps the files. -/
@[simp]
theorem sourceFiles_touch (module : Module) : module.touch.sourceFiles = module.sourceFiles := rfl

/-- Changing the files of the one package under a key changes its stretch of the list. -/
theorem flatMap_modify {entries : List (String × Package)} (ordered : NameOrdered entries)
    (path : String) (change : SourceFile → SourceFile) (key : String) (owner : Package)
    (found : (entries.find? fun entry => entry.2.owns path) = some (key, owner)) :
    ((entries.map fun entry =>
        if entry.1 = key then
          (entry.1, { entry.2 with
            files := modifyFirst (fun file => file.path == path) change entry.2.files })
        else entry).map Prod.snd).flatMap (·.files) =
      modifyFirst (fun file => file.path == path) change
        ((entries.map Prod.snd).flatMap (·.files)) := by
  induction entries with
  | nil => simp at found
  | cons head rest ih =>
    have parts := List.pairwise_cons.mp ordered
    simp only [List.map_cons, List.flatMap_cons, modifyFirst_append]
    rw [List.find?_cons] at found
    cases owned : head.2.owns path with
    | true =>
      -- The head is the owner, and no later package has its key.
      rw [owned] at found
      have same : head = (key, owner) := by simpa using found
      have others : (rest.map fun entry =>
          if entry.1 = key then
            (entry.1, { entry.2 with
              files := modifyFirst (fun file => file.path == path) change entry.2.files })
          else entry) = rest := by
        refine (List.map_congr_left fun entry member => ?_).trans (List.map_id rest)
        have above := parts.1 entry member
        rw [same] at above
        exact if_neg (fun equal => String.lt_irrefl _ (equal ▸ above))
      rw [if_pos (by rw [same]), others]
      have has : (head.2.files.any fun file => file.path == path) = true := owned
      rw [if_pos has]
    | false =>
      rw [owned] at found
      have member := List.mem_of_find?_eq_some found
      have above := parts.1 _ member
      rw [if_neg (fun equal => String.lt_irrefl _ (equal ▸ above)), ih parts.2 found]
      have hasNot : ¬(head.2.files.any fun file => file.path == path) = true := by
        have apart : (head.2.files.any fun file => file.path == path) = false := owned
        rw [apart]
        exact Bool.false_ne_true
      rw [if_neg hasNot]

/-- No package owns a path exactly when no file has it. -/
theorem find?_owns_eq_none {entries : List (String × Package)} {path : String}
    (missing : (entries.find? fun entry => entry.2.owns path) = none) :
    ((entries.map Prod.snd).flatMap (·.files)).find? (fun file => file.path == path) = none := by
  rw [List.find?_eq_none] at missing ⊢
  intro file member
  obtain ⟨package, inside, held⟩ := List.mem_flatMap.mp member
  obtain ⟨entry, listed, rfl⟩ := List.mem_map.mp inside
  have apart := missing entry listed
  intro same
  exact apart (List.any_eq_true.mpr ⟨file, held, same⟩)

/-- A change of the file with a path is a change of the first such file in the list. -/
theorem sourceFiles_updateFile (module : Module) (path : String)
    (change : SourceFile → SourceFile) :
    (module.updateFile path change).sourceFiles =
      modifyFirst (fun file => file.path == path) change module.sourceFiles := by
  unfold updateFile
  cases found : module.packages.entries.find? fun entry => entry.2.owns path with
  | none =>
    exact (modifyFirst_of_find?_eq_none _ change _ (find?_owns_eq_none found)).symm
  | some entry => exact flatMap_modify module.packages.ordered path change entry.1 entry.2 found

/-- Flags apart, flagging a file changes no file. -/
theorem map_unflagged_markModified (module : Module) (path : String) :
    (module.markModified path).sourceFiles.map SourceFile.unflagged =
      module.sourceFiles.map SourceFile.unflagged := by
  unfold sourceFiles packageList markModified NameMap.mapValues NameMap.values
  simp only [List.map_map, List.map_flatMap, List.flatMap_map]
  congr 1
  funext entry
  simp only [Function.comp_apply]
  split
  · exact map_modifyFirst_of_keeps _ (fun file => { file with modified := true })
      SourceFile.unflagged (fun _ => rfl) _
  · rfl

end Module

end GoRefactor
