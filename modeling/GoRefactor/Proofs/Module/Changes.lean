import GoRefactor.Proofs.Module.Files
import Mathlib.Data.List.Nodup
import Mathlib.Data.List.Perm.Basic

/-!
# One file in place of another

What the operations on a module make of its files: one file gives way to another with the same
path, or a file is added to a package. Flags apart, nothing else changes.
-/

namespace GoRefactor

section modifyFirst

variable {α β : Type} {test : α → Bool} {change : α → α}

/-- Members after a change are former ones, or what became of one that passed the test. -/
theorem mem_modifyFirst {members : List α} {member : α}
    (inside : member ∈ modifyFirst test change members) :
    member ∈ members ∨ ∃ former ∈ members, test former = true ∧ member = change former := by
  induction members with
  | nil => cases inside
  | cons head rest ih =>
    rw [modifyFirst] at inside
    split at inside
    · rename_i passed
      rcases List.mem_cons.mp inside with rfl | later
      · exact Or.inr ⟨head, List.mem_cons_self, passed, rfl⟩
      · exact Or.inl (List.mem_cons_of_mem _ later)
    · rcases List.mem_cons.mp inside with rfl | later
      · exact Or.inl List.mem_cons_self
      · rcases ih later with former | ⟨former, held, passed, same⟩
        · exact Or.inl (List.mem_cons_of_mem _ former)
        · exact Or.inr ⟨former, List.mem_cons_of_mem _ held, passed, same⟩

/-- What became of the first member that passed the test is a member. -/
theorem change_mem_modifyFirst {members : List α} {found : α}
    (first : members.find? test = some found) : change found ∈ modifyFirst test change members := by
  induction members with
  | nil => cases first
  | cons head rest ih =>
    rw [List.find?_cons] at first
    rw [modifyFirst]
    cases passed : test head with
    | true =>
      rw [passed] at first
      cases first
      rw [if_pos rfl]
      exact List.mem_cons_self
    | false =>
      rw [passed] at first
      rw [if_neg Bool.false_ne_true]
      exact List.mem_cons_of_mem _ (ih first)

/-- A view that the change leaves alone where it happens stays as it is. -/
theorem map_modifyFirst_of_passes (view : α → β)
    (keeps : ∀ member, test member = true → view (change member) = view member)
    (members : List α) : (modifyFirst test change members).map view = members.map view := by
  induction members with
  | nil => rfl
  | cons head rest ih =>
    rw [modifyFirst]
    split
    · rename_i passed
      rw [List.map_cons, keeps head passed, List.map_cons]
    · rw [List.map_cons, ih, List.map_cons]

/-- A view that sees neither the test nor the change may be taken before or after. -/
theorem map_modifyFirst_comm (view : α → α) (same : ∀ member, test (view member) = test member)
    (commutes : ∀ member, view (change member) = change (view member)) (members : List α) :
    (modifyFirst test change members).map view = modifyFirst test change (members.map view) := by
  induction members with
  | nil => rfl
  | cons head rest ih =>
    rw [modifyFirst, List.map_cons, modifyFirst, same]
    split
    · rw [List.map_cons, commutes]
    · rw [List.map_cons, ih]

/-- A change of what was put in place is put in place. -/
theorem modifyFirst_const {image : α} (passes : test image = true) (members : List α) :
    modifyFirst test change (modifyFirst test (fun _ => image) members) =
      modifyFirst test (fun _ => change image) members := by
  induction members with
  | nil => rfl
  | cons head rest ih =>
    cases passed : test head with
    | true => simp only [modifyFirst, passed, passes, if_true]
    | false =>
      simp only [modifyFirst, passed, Bool.false_eq_true, if_false]
      rw [ih]

end modifyFirst

/-- Where a key tells members apart, changing the first with a key changes all with it. -/
theorem modifyFirst_eq_map {α : Type} {key : α → String} {members : List α}
    (distinct : (members.map key).Nodup) (wanted : String) (change : α → α) :
    modifyFirst (fun member => key member == wanted) change members =
      members.map fun member => if key member = wanted then change member else member := by
  induction members with
  | nil => rfl
  | cons head rest ih =>
    obtain ⟨fresh, later⟩ := List.nodup_cons.mp distinct
    rw [modifyFirst, List.map_cons]
    by_cases here : key head = wanted
    · have others : (rest.map fun member => if key member = wanted then change member else member) =
          rest := by
        refine (List.map_congr_left fun member inside => ?_).trans (List.map_id rest)
        have apart : key member ≠ wanted := by
          intro same
          exact fresh (here.trans same.symm ▸ List.mem_map_of_mem inside)
        rw [if_neg apart, id]
      rw [if_pos (beq_iff_eq.mpr here), if_pos here, others]
    · have missed : ¬(key head == wanted) = true := fun same => here (beq_iff_eq.mp same)
      rw [if_neg missed, if_neg here, ih later]

/-- After a change of the first member with a key, each key finds what it found, changed if it has
that key. -/
theorem find?_modifyFirst {α : Type} {key : α → String} {change : α → α} {changed : String}
    (keeps : ∀ member, key member = changed → key (change member) = changed) (wanted : String)
    (members : List α) :
    (modifyFirst (fun member => key member == changed) change members).find?
        (fun member => key member == wanted) =
      (members.find? fun member => key member == wanted).map fun member =>
        if key member = changed then change member else member := by
  induction members with
  | nil => rfl
  | cons head rest ih =>
    rw [modifyFirst]
    by_cases here : key head = changed
    · rw [if_pos (beq_iff_eq.mpr here), List.find?_cons, List.find?_cons, keeps head here, here]
      by_cases same : changed = wanted
      · rw [beq_iff_eq.mpr same, Option.map_some, if_pos here]
      · rw [beq_eq_false_iff_ne.mpr same]
        -- What is found has another key than the one that changes.
        cases found : rest.find? fun member => key member == wanted with
        | none => rfl
        | some member =>
          have keyed : key member = wanted := by simpa using List.find?_some found
          rw [Option.map_some, if_neg fun equal => same (equal.symm.trans keyed)]
    · have missed : ¬(key head == changed) = true := fun same => here (beq_iff_eq.mp same)
      rw [if_neg missed, List.find?_cons, List.find?_cons]
      split
      · rw [Option.map_some, if_neg here]
      · exact ih

namespace Module

/-- The file with a path after a change of the file with a path. -/
theorem file?_updateFile (module : Module) {path : String} {change : SourceFile → SourceFile}
    (keeps : ∀ file : SourceFile, file.path = path → (change file).path = path) (wanted : String) :
    (module.updateFile path change).file? wanted =
      (module.file? wanted).map fun file => if file.path = path then change file else file := by
  rw [file?_eq_find?, file?_eq_find?, sourceFiles_updateFile]
  exact find?_modifyFirst keeps wanted _

/-- The file with a path after a file was flagged. -/
theorem file?_markModified (module : Module) (path wanted : String) :
    (module.markModified path).file? wanted =
      (module.file? wanted).map fun file => if file.path = path then file.flagged else file := by
  have within (package : Package) :
      (if package.owns path then
        { package with
          files := modifyFirst (fun file => file.path == path) SourceFile.flagged package.files
          modified := true }
      else package).files.find? (fun file => file.path == wanted) =
        (package.files.find? fun file => file.path == wanted).map fun file =>
          if file.path = path then file.flagged else file := by
    split
    · have keeps (file : SourceFile) (here : file.path = path) : file.flagged.path = path := here
      exact find?_modifyFirst keeps wanted _
    · rename_i missed
      cases found : package.files.find? fun file => file.path == wanted with
      | none => rfl
      | some file =>
        rw [Option.map_some, if_neg fun same => missed ?_]
        exact List.any_eq_true.mpr ⟨file, List.mem_of_find?_eq_some found, beq_iff_eq.mpr same⟩
  rw [file?_eq_find?, file?_eq_find?]
  unfold sourceFiles packageList NameMap.values markModified NameMap.mapValues
  simp only [List.map_map, List.find?_flatMap, List.map_findSome?, List.findSome?_map]
  congr 1
  funext entry
  exact within entry.2

section DistinctPaths

variable {module : Module}

/-- Paths tell the files of a module apart. -/
def DistinctPaths (module : Module) : Prop := (module.sourceFiles.map SourceFile.path).Nodup

/-- Where paths tell files apart, flagging a path flags the file with it. -/
theorem sourceFiles_markModified (distinct : module.DistinctPaths) (path : String) :
    (module.markModified path).sourceFiles = module.sourceFiles.map fun file =>
      if file.path = path then { file with modified := true } else file := by
  have within : ∀ package ∈ module.packageList, (package.files.map SourceFile.path).Nodup := by
    intro package listed
    refine distinct.sublist (List.Sublist.map _ ?_)
    exact List.sublist_flatten_of_mem (List.mem_map_of_mem listed)
  unfold sourceFiles packageList NameMap.values at within ⊢
  unfold markModified NameMap.mapValues
  rw [List.map_map, List.flatMap_map, List.map_flatMap, List.flatMap_map]
  refine List.flatMap_congr fun entry listed => ?_
  have distinct := within entry.2 (List.mem_map_of_mem listed)
  simp only [Function.comp_apply]
  split
  · exact modifyFirst_eq_map distinct path _
  · rename_i other
    -- No file of a package that does not own the path has it.
    symm
    refine (List.map_congr_left fun file inside => ?_).trans (List.map_id _)
    refine if_neg fun same => other ?_
    exact List.any_eq_true.mpr ⟨file, inside, beq_iff_eq.mpr same⟩

/-- Where paths tell files apart, a change of the file with a path is a change of all with it. -/
theorem sourceFiles_updateFile_of_distinct (distinct : module.DistinctPaths) (path : String)
    (change : SourceFile → SourceFile) :
    (module.updateFile path change).sourceFiles = module.sourceFiles.map fun file =>
      if file.path = path then change file else file := by
  rw [sourceFiles_updateFile]
  exact modifyFirst_eq_map distinct path change

end DistinctPaths

/-- The file with the path gives way to another; flags apart, nothing else changes. -/
def Replaces (module next : Module) (path : String) (image : SourceFile) : Prop :=
  next.sourceFiles.map SourceFile.unflagged =
    (modifyFirst (fun file => file.path == path) (fun _ => image) module.sourceFiles).map
      SourceFile.unflagged

/-- A file that is put in place and flagged. -/
theorem replaces_updateFile (module : Module) (path : String) (image : SourceFile) :
    module.Replaces ((module.updateFile path fun _ => image).markModified path) path image := by
  rw [Replaces, map_unflagged_markModified, sourceFiles_updateFile]

namespace Replaces

variable {module next : Module} {path : String} {file image : SourceFile}

/-- A change that does not look at flags is made to the file in place. -/
theorem updateFile (replaces : module.Replaces next path image) (here : image.path = path)
    {change : SourceFile → SourceFile}
    (blind : ∀ file, (change file).unflagged = change file.unflagged) :
    module.Replaces (next.updateFile path change) path (change image) := by
  have tests : ∀ file : SourceFile, (file.unflagged.path == path) = (file.path == path) :=
    fun _ => rfl
  rw [Replaces] at replaces ⊢
  rw [sourceFiles_updateFile, map_modifyFirst_comm _ tests blind, replaces,
    ← map_modifyFirst_comm _ tests blind, modifyFirst_const (by simp [here])]

variable (replaces : module.Replaces next path image) (held : module.file? path = some file)

include replaces

/-- A file afterwards is the one that was put in place, or a former one. -/
theorem cases_mem {other : SourceFile} (member : other ∈ next.sourceFiles) :
    other.unflagged = image.unflagged ∨
      ∃ former ∈ module.sourceFiles, former.unflagged = other.unflagged := by
  have inside : other.unflagged ∈ next.sourceFiles.map SourceFile.unflagged :=
    List.mem_map_of_mem member
  rw [replaces] at inside
  obtain ⟨source, listed, same⟩ := List.mem_map.mp inside
  rcases mem_modifyFirst listed with former | ⟨former, -, -, rfl⟩
  · exact Or.inr ⟨source, former, same⟩
  · exact Or.inl same.symm

/-- The files of the changed module have the paths that they had, in the same order. -/
theorem paths (here : image.path = path) :
    next.sourceFiles.map SourceFile.path = module.sourceFiles.map SourceFile.path := by
  have unseen (files : List SourceFile) : files.map SourceFile.path =
      (files.map SourceFile.unflagged).map SourceFile.path := by
    rw [List.map_map]
    rfl
  rw [unseen, replaces, ← unseen]
  refine map_modifyFirst_of_passes _ (fun member passed => ?_) _
  rw [here, eq_of_beq passed]

include held

/-- Where paths tell files apart, the file with the path is the one that was put in place. -/
theorem unflagged_of_path (here : image.path = path)
    (distinct : (module.sourceFiles.map SourceFile.path).Nodup) {other : SourceFile}
    (member : other ∈ next.sourceFiles) (same : other.path = path) :
    other.unflagged = image.unflagged := by
  have listed : image.unflagged ∈ next.sourceFiles.map SourceFile.unflagged := by
    rw [replaces]
    rw [file?_eq_find?] at held
    exact List.mem_map_of_mem (change_mem_modifyFirst held)
  obtain ⟨placed, inside, equal⟩ := List.mem_map.mp listed
  rw [← replaces.paths here] at distinct
  have agree : other.path = placed.path := by
    rw [same, ← placed.unflagged_path, equal, image.unflagged_path, here]
  rw [List.inj_on_of_nodup_map distinct member inside agree, equal]

end Replaces

/-- **A file that is added to a package is added to the module.** -/
theorem perm_sourceFiles_grown {module : Module} {key : String} {owner : Package}
    (held : module.package? key = some owner) (file : SourceFile) :
    (module.addFile key file).sourceFiles.Perm (file.flagged :: module.sourceFiles) := by
  let change (owner : Package) : Package :=
    { owner with files := owner.files ++ [file.flagged], modified := true }
  have grown : ∀ entries : List (String × Package), NameOrdered entries →
      (∃ entry ∈ entries, entry.1 = key) →
      (((entries.map fun entry => if entry.1 = key then (entry.1, change entry.2) else entry).map
        Prod.snd).flatMap (·.files)).Perm
          (file.flagged :: (entries.map Prod.snd).flatMap (·.files)) := by
    intro entries ordered
    induction entries with
    | nil =>
      rintro ⟨_, none, -⟩
      cases none
    | cons head rest ih =>
      obtain ⟨below, later⟩ := List.pairwise_cons.mp ordered
      rintro ⟨entry, member, same⟩
      simp only [List.map_cons, List.flatMap_cons]
      by_cases first : head.1 = key
      · -- No later package has the key.
        have others : (rest.map fun entry =>
            if entry.1 = key then (entry.1, change entry.2) else entry) = rest := by
          refine (List.map_congr_left fun entry member => ?_).trans (List.map_id rest)
          have above := below entry member
          rw [first] at above
          exact if_neg fun equal => String.lt_irrefl _ (equal ▸ above)
        rw [others, if_pos first, List.append_assoc, List.singleton_append]
        exact List.perm_middle
      · rw [if_neg first]
        have further := ih later ⟨entry, (List.mem_cons.mp member).resolve_left fun equal =>
          first (equal ▸ same), same⟩
        exact (further.append_left _).trans List.perm_middle
  obtain ⟨entry, found, -⟩ := Option.map_eq_some_iff.mp held
  have keyed : (entry.1 == key) = true := by simpa using List.find?_some found
  exact grown module.packages.entries module.packages.ordered
    ⟨entry, List.mem_of_find?_eq_some found, eq_of_beq keyed⟩

end Module

end GoRefactor
