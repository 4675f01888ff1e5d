import GoRefactor.Go.Parser.File
import GoRefactor.Module.Build
import GoRefactor.Proofs.Module.Files
import GoRefactor.Proofs.NameMap

/-!
# Files of modules from source text

Every file of a module that was built from source text is what scanning gives for its own path and
text. A path is taken once, and a file goes to the directory of its path. So no two files of such a
module share a path, wherever they are.
-/

namespace GoRefactor

namespace SourceFile

/-- The file is what scanning gives for its path and text. -/
def Scanned (file : SourceFile) : Prop := SourceFile.parse file.path file.content = .ok file

/-- Adding a declaration keeps the path, the text and whether the file holds tests. -/
theorem path_add (file : SourceFile) (decl : TopDecl) :
    (file.add decl).path = file.path ∧ (file.add decl).content = file.content ∧
      (file.add decl).isTest = file.isTest := by
  cases decl with
  | importing decl => exact ⟨rfl, rfl, rfl⟩
  | type decl => exact ⟨rfl, rfl, rfl⟩
  | function decl =>
    rw [add]
    split <;> exact ⟨rfl, rfl, rfl⟩
  | var decl =>
    rw [add]
    split <;> exact ⟨rfl, rfl, rfl⟩
  | const decl =>
    rw [add]
    split <;> exact ⟨rfl, rfl, rfl⟩

/-- Adding declarations keeps them too. -/
theorem path_foldl_add (file : SourceFile) (decls : List TopDecl) :
    (decls.foldl SourceFile.add file).path = file.path ∧
      (decls.foldl SourceFile.add file).content = file.content ∧
      (decls.foldl SourceFile.add file).isTest = file.isTest := by
  induction decls generalizing file with
  | nil => exact ⟨rfl, rfl, rfl⟩
  | cons decl rest ih =>
    obtain ⟨path, content, isTest⟩ := ih (file.add decl)
    obtain ⟨path', content', isTest'⟩ := path_add file decl
    exact ⟨path.trans path', content.trans content', isTest.trans isTest'⟩

/-- A file that was scanned has the path and the text that were given. -/
theorem path_of_parse {path content : String} {file : SourceFile}
    (parsed : SourceFile.parse path content = .ok file) :
    file.path = path ∧ file.content = content := by
  unfold SourceFile.parse at parsed
  split at parsed
  · cases parsed
  · split at parsed
    · cases parsed
    · split at parsed
      · cases parsed
      · cases parsed
        obtain ⟨path, content, -⟩ := path_foldl_add _ _
        exact ⟨path, content⟩

/-- The path tells whether a file that was scanned holds tests. -/
theorem isTest_of_parse {path content : String} {file : SourceFile}
    (parsed : SourceFile.parse path content = .ok file) :
    file.isTest = endsWith path testSuffix := by
  unfold SourceFile.parse at parsed
  split at parsed
  · cases parsed
  · split at parsed
    · cases parsed
    · split at parsed
      · cases parsed
      · cases parsed
        exact (path_foldl_add _ _).2.2

/-- What scanning gives is scanned. -/
theorem scanned_of_parse {path content : String} {file : SourceFile}
    (parsed : SourceFile.parse path content = .ok file) : file.Scanned := by
  obtain ⟨rfl, rfl⟩ := path_of_parse parsed
  exact parsed

end SourceFile

namespace Module

/-- Something holds of all files of the directories. -/
def AllFiles (holds : SourceFile → Prop) (directories : NameMap (List SourceFile)) : Prop :=
  ∀ files ∈ directories.values, ∀ file ∈ files, holds file

variable {holds : SourceFile → Prop}

/-- What holds of all files holds of them after another one is added to its directory. -/
theorem allFiles_addToDirectory {directories : NameMap (List SourceFile)} {file : SourceFile}
    (all : AllFiles holds directories) (here : holds file) :
    AllFiles holds (addToDirectory directories file) := by
  intro files listed other inside
  rcases NameMap.mem_values_insert listed with rfl | old
  · rcases List.mem_append.mp inside with former | last
    · cases found : directories.get? (directoryOf file.path) with
      | none =>
        rw [found] at former
        cases former
      | some files =>
        rw [found] at former
        exact all files (NameMap.mem_values_of_get? found) other former
    · rw [List.mem_singleton.mp last]
      exact here
  · exact all files old other inside

/-- What holds of every scanned source holds of the files that are sorted into directories. -/
theorem allFiles_scanInto {directories result : NameMap (List SourceFile)} {seen : List String}
    {sources : List (String × String)} (all : AllFiles holds directories)
    (each : ∀ source ∈ sources, ∀ file, SourceFile.parse source.1 source.2 = .ok file → holds file)
    (sorted : scanInto directories seen sources = .ok result) : AllFiles holds result := by
  induction sources generalizing directories seen with
  | nil =>
    cases sorted
    exact all
  | cons source rest ih =>
    obtain ⟨path, content⟩ := source
    obtain ⟨first, others⟩ := List.forall_mem_cons.mp each
    rw [scanInto] at sorted
    split at sorted
    · cases sorted
    · split at sorted
      · cases sorted
      · unfold scanFile at sorted
        cases parsed : SourceFile.parse path content with
        | error failure =>
          rw [parsed] at sorted
          cases sorted
        | ok file =>
          rw [parsed] at sorted
          exact ih (allFiles_addToDirectory all (first file parsed)) others sorted

/-- Packages hold the files of their directories. -/
theorem allFiles_assemble {path : String} {packages result : NameMap Package}
    {directories : List (String × List SourceFile)}
    (former : ∀ package ∈ packages.values, ∀ file ∈ package.files, holds file)
    (all : ∀ entry ∈ directories, ∀ file ∈ entry.2, holds file)
    (assembled : assemble path packages directories = .ok result) :
    ∀ package ∈ result.values, ∀ file ∈ package.files, holds file := by
  induction directories generalizing packages with
  | nil =>
    cases assembled
    exact former
  | cons entry rest ih =>
    obtain ⟨directory, files⟩ := entry
    obtain ⟨here, others⟩ := List.forall_mem_cons.mp all
    rw [assemble] at assembled
    split at assembled
    · cases assembled
    · refine ih ?_ others assembled
      intro package listed
      rcases NameMap.mem_values_insert listed with rfl | old
      · exact here
      · exact former package old

variable {path : String} {sources : List (String × String)} {module : Module}

/-- **What holds of every scanned source holds of every file of the module.** -/
theorem allFiles_of_ofSources (loaded : ofSources path sources = .ok module)
    (each : ∀ source ∈ sources, ∀ file,
      SourceFile.parse source.1 source.2 = .ok file → holds file) :
    ∀ file ∈ module.sourceFiles, holds file := by
  unfold ofSources at loaded
  cases sorted : scanInto ∅ [] sources with
  | error error =>
    rw [sorted] at loaded
    cases loaded
  | ok directories =>
    simp only [sorted] at loaded
    have all : AllFiles holds directories :=
      allFiles_scanInto (fun _ listed => by cases listed) each sorted
    cases assembled : assemble path ∅ directories.entries with
    | error error =>
      rw [assembled] at loaded
      cases loaded
    | ok packages =>
      rw [assembled] at loaded
      cases loaded
      intro file member
      obtain ⟨package, listed, inside⟩ := List.mem_flatMap.mp member
      refine allFiles_assemble (fun _ listed => by cases listed) ?_ assembled package listed file
        inside
      exact fun entry member => all entry.2 (List.mem_map_of_mem member)

/-- **Every file of a module from source text is scanned.** -/
theorem scanned_of_ofSources (loaded : ofSources path sources = .ok module) :
    ∀ file ∈ module.sourceFiles, file.Scanned :=
  allFiles_of_ofSources loaded fun _ _ _ parsed => SourceFile.scanned_of_parse parsed

/-- Every file of a module from source text has a given text. -/
theorem source_of_ofSources (loaded : ofSources path sources = .ok module) :
    ∀ file ∈ module.sourceFiles, (file.path, file.content) ∈ sources := by
  refine allFiles_of_ofSources loaded fun source member file parsed => ?_
  obtain ⟨path, content⟩ := SourceFile.path_of_parse parsed
  rw [path, content]
  exact member

/-! ## Paths -/

/-- Files of one directory, at least one, no two with one path. -/
structure Gathered (directory : String) (files : List SourceFile) : Prop where
  filled : files ≠ []
  distinct : (files.map SourceFile.path).Nodup
  here : ∀ file ∈ files, directoryOf file.path = directory

/-- Directories hold files of theirs, and only such whose paths were seen. -/
def Sorted (directories : NameMap (List SourceFile)) (seen : List String) : Prop :=
  ∀ entry ∈ directories.entries, Gathered entry.1 entry.2 ∧ ∀ file ∈ entry.2, file.path ∈ seen

/-- A file with a new path goes to its directory. -/
theorem sorted_addToDirectory {directories : NameMap (List SourceFile)} {seen : List String}
    {file : SourceFile} (sorted : Sorted directories seen) (fresh : file.path ∉ seen) :
    Sorted (addToDirectory directories file) (file.path :: seen) := by
  intro entry member
  rcases NameMap.mem_insert_iff.mp member with rfl | ⟨old, -⟩
  · -- The files that are there already are those under the directory, if it is known.
    have former : let files := (directories.get? (directoryOf file.path)).getD []
        (files.map SourceFile.path).Nodup ∧
          ∀ other ∈ files, directoryOf other.path = directoryOf file.path ∧ other.path ∈ seen := by
      cases found : directories.get? (directoryOf file.path) with
      | none => exact ⟨List.nodup_nil, fun _ none => nomatch none⟩
      | some files =>
        obtain ⟨⟨-, distinct, here⟩, met⟩ := sorted _ (NameMap.get?_eq_some_iff.mp found)
        exact ⟨distinct, fun other held => ⟨here other held, met other held⟩⟩
    obtain ⟨distinct, met⟩ := former
    refine ⟨⟨List.append_ne_nil_of_right_ne_nil _ (List.cons_ne_nil _ _), ?_, ?_⟩, ?_⟩
    · rw [List.map_append, List.map_singleton, List.nodup_append']
      refine ⟨distinct, List.nodup_singleton _, fun path inside again => fresh ?_⟩
      obtain ⟨other, held, rfl⟩ := List.mem_map.mp inside
      exact List.mem_singleton.mp again ▸ (met other held).2
    · exact List.forall_mem_append.mpr ⟨fun other held => (met other held).1,
        List.forall_mem_singleton.mpr rfl⟩
    · exact List.forall_mem_append.mpr ⟨fun other held => List.mem_cons_of_mem _ (met other held).2,
        List.forall_mem_singleton.mpr List.mem_cons_self⟩
  · obtain ⟨gathered, met⟩ := sorted entry old
    exact ⟨gathered, fun other held => List.mem_cons_of_mem _ (met other held)⟩

/-- Files with new paths go to their directories. -/
theorem sorted_scanInto {directories result : NameMap (List SourceFile)} {seen : List String}
    {sources : List (String × String)} (sorted : Sorted directories seen)
    (scanned : scanInto directories seen sources = .ok result) :
    ∃ seen, Sorted result seen := by
  induction sources generalizing directories seen with
  | nil =>
    cases scanned
    exact ⟨seen, sorted⟩
  | cons source rest ih =>
    obtain ⟨path, content⟩ := source
    rw [scanInto] at scanned
    split at scanned
    · cases scanned
    · split at scanned
      · cases scanned
      · rename_i fresh
        unfold scanFile at scanned
        cases parsed : SourceFile.parse path content with
        | error failure =>
          rw [parsed] at scanned
          cases scanned
        | ok file =>
          rw [parsed] at scanned
          obtain ⟨rfl, -⟩ := SourceFile.path_of_parse parsed
          exact ih (sorted_addToDirectory sorted (by simpa using fresh)) scanned

/-- Packages hold the files of one directory each, and the directory tells the import path. -/
theorem gathered_assemble {path : String} {packages result : NameMap Package}
    {directories : List (String × List SourceFile)}
    (former : ∀ entry ∈ packages.entries, ∃ directory,
      entry.1 = importPath path directory ∧ Gathered directory entry.2.files)
    (all : ∀ entry ∈ directories, Gathered entry.1 entry.2)
    (assembled : assemble path packages directories = .ok result) :
    ∀ entry ∈ result.entries, ∃ directory,
      entry.1 = importPath path directory ∧ Gathered directory entry.2.files := by
  induction directories generalizing packages with
  | nil =>
    cases assembled
    exact former
  | cons entry rest ih =>
    obtain ⟨directory, files⟩ := entry
    obtain ⟨here, others⟩ := List.forall_mem_cons.mp all
    rw [assemble] at assembled
    split at assembled
    · cases assembled
    · refine ih ?_ others assembled
      intro entry member
      rcases NameMap.mem_insert_iff.mp member with rfl | ⟨old, -⟩
      · exact ⟨directory, rfl, here⟩
      · exact former entry old

/-- The packages of a module from source text hold the files of one directory each. -/
theorem gathered_of_ofSources (loaded : ofSources path sources = .ok module) :
    ∀ entry ∈ module.packages.entries, ∃ directory,
      entry.1 = importPath path directory ∧ Gathered directory entry.2.files := by
  unfold ofSources at loaded
  cases scanned : scanInto ∅ [] sources with
  | error error =>
    rw [scanned] at loaded
    cases loaded
  | ok directories =>
    simp only [scanned] at loaded
    obtain ⟨seen, sorted⟩ := sorted_scanInto (fun _ none => by cases none) scanned
    cases assembled : assemble path ∅ directories.entries with
    | error error =>
      rw [assembled] at loaded
      cases loaded
    | ok packages =>
      rw [assembled] at loaded
      cases loaded
      exact gathered_assemble (fun _ none => by cases none)
        (fun entry member => (sorted entry member).1) assembled

/-- **No two files of a module from source text share a path.** -/
theorem nodup_paths_of_ofSources (loaded : ofSources path sources = .ok module) :
    (module.sourceFiles.map SourceFile.path).Nodup := by
  have gathered := gathered_of_ofSources loaded
  unfold sourceFiles packageList NameMap.values
  rw [List.map_flatMap, List.nodup_flatMap, List.forall_mem_map]
  refine ⟨fun entry member => ?_, List.pairwise_map.mpr ?_⟩
  · obtain ⟨directory, -, -, distinct, -⟩ := gathered entry member
    exact distinct
  · refine module.packages.ordered.imp_of_mem fun {first second} member member' order => ?_
    obtain ⟨directory, key, -, -, here⟩ := gathered first member
    obtain ⟨directory', key', -, -, there⟩ := gathered second member'
    intro path inside outside
    obtain ⟨file, held, rfl⟩ := List.mem_map.mp inside
    obtain ⟨other, held', same⟩ := List.mem_map.mp outside
    have equal : directory = directory' := by
      rw [← here file held, ← there other held', same]
    rw [key, key', equal] at order
    exact String.lt_irrefl _ order

end Module

end GoRefactor
