import GoRefactor.Proofs.Transform.ReceiverTypes

/-!
# Renames and names that are apart

Names that a package declares side by side are apart if none that counts occurs twice: at top level,
among the members of a type, among the parameters of a function. A rename keeps them apart at top
level and among parameters. Among members it does so unless an embedded field is involved: an
embedded field is no declaration of its own, so nobody looks for it when another member takes its
name, and it takes the new name of its type whatever the struct around it declares.
-/

namespace GoRefactor

/-- No name that counts occurs twice. -/
def Naming.Apart (counts : String → Bool) (namings : List Naming) : Prop :=
  ((namings.map Naming.name).filter counts).Nodup

instance (counts : String → Bool) (namings : List Naming) :
    Decidable (Naming.Apart counts namings) :=
  inferInstanceAs (Decidable (List.Nodup _))

namespace Naming

variable {counts : String → Bool} {namings : List Naming}

/-- Names that count are apart in pairs. -/
theorem nodup_filter_map_iff (view : Naming → String) :
    ((namings.map view).filter counts).Nodup ↔ namings.Pairwise fun first second =>
      counts (view first) = true → counts (view second) = true → view first ≠ view second := by
  rw [List.nodup_iff_pairwise_ne, List.pairwise_filter, List.pairwise_map]

/-- What counts and occurs once is of one declaration. -/
theorem eq_of_nodup_filter_map {view : Naming → String}
    (distinct : ((namings.map view).filter counts).Nodup) {first second : Naming}
    (here : first ∈ namings) (there : second ∈ namings) (same : view first = view second)
    (counted : counts (view first) = true) : first = second := by
  rw [List.filter_map] at distinct
  exact List.inj_on_of_nodup_map distinct (List.mem_filter.mpr ⟨here, counted⟩)
    (List.mem_filter.mpr ⟨there, show counts (view second) = true from same ▸ counted⟩) same

/-- **Names that are apart stay apart** when some that are one name become another, exactly if none
of the rest has the new name, as far as it counts. -/
theorem Apart.after_iff (apart : Apart counts namings) {view : Naming → String} {old new : String}
    {edited : Naming → Prop} [DecidablePred edited]
    (views : ∀ naming, view naming = if edited naming then new else naming.name)
    (renames : ∀ naming ∈ namings, edited naming → naming.name = old) (other : old ≠ new)
    (counted : counts new = true → counts old = true) :
    ((namings.map view).filter counts).Nodup ↔ ¬(counts new = true ∧
      ∃ moved ∈ namings, edited moved ∧ ∃ rival ∈ namings, rival.name = new) := by
  have kept {naming : Naming} (still : ¬edited naming) : view naming = naming.name :=
    (views naming).trans (if_neg still)
  have turned {naming : Naming} (given : edited naming) : view naming = new :=
    (views naming).trans (if_pos given)
  constructor
  · rintro distinct ⟨counts', moved, here, given, rival, there, named⟩
    have still : ¬edited rival := fun given' =>
      other ((renames rival there given').symm.trans named)
    have same : view moved = view rival := by rw [turned given, kept still, named]
    have counted' : counts (view moved) = true := by rw [turned given, counts']
    exact still (eq_of_nodup_filter_map distinct here there same counted' ▸ given)
  · intro free
    refine (nodup_filter_map_iff view).mpr (((nodup_filter_map_iff name).mp apart).imp_of_mem
      fun {first second} here there apart => ?_)
    by_cases given : edited first <;> by_cases given' : edited second
    · rw [turned given, turned given']
      intro counts' _
      have names := (renames first here given).trans (renames second there given').symm
      have olds : counts first.name = true := (renames first here given).symm ▸ counted counts'
      exact absurd names (apart olds (names ▸ olds))
    · rw [turned given, kept given']
      exact fun counts' _ same => free ⟨counts', first, here, given, second, there, same.symm⟩
    · rw [kept given, turned given']
      exact fun _ counts' same => free ⟨counts', second, there, given', first, here, same⟩
    · rw [kept given, kept given']
      exact apart

end Naming

/-! ## Packages after a rename -/

/-- What edits make of the names that a package declares. -/
structure Package.Renamed (edits : List Edit) (package image : Package) : Prop where
  path : image.path = package.path
  files : List.Forall₂ (SourceFile.Renamed edits) package.files image.files

/-- Every method belongs to a type of its package, with a name that counts. -/
def Package.MethodsAtHome (counts : String → Bool) (package : Package) : Prop :=
  ∀ file ∈ package.files, ∀ method ∈ file.methods,
    ∃ name, method.AtHome package file name ∧ counts name = true

namespace RenameOptions

variable {options : RenameOptions} {module final : Module} {index : Index} {targets : List Symbol}
  {plan : RenamePlan} {path : String} {sources : List (String × String)}
  (loaded : Module.ofSources path sources = .ok module)
  (plans : options.Planned module index targets plan)

include loaded plans

/-- The edits of a plan rename what the packages declare. -/
theorem renamed_of_applyEdits {paths : List String}
    (applied : (module.applyEdits plan.edits).run = .ok (.ok (final, paths))) :
    List.Forall₂ (Package.Renamed plan.edits) module.packageList final.packageList := by
  have scanned := Module.scanned_of_ofSources loaded
  have laid : module.LaidOut := fun file inside =>
    SourceFile.laidOut_of_parse (scanned file inside)
  have matched := (List.forall₂_and_left _ _).mpr ⟨fun package listed => listed,
    Module.packages_of_applyEdits (Module.index_spec plans.built).1 applied⟩
  refine matched.imp fun package image ⟨listed, path, files⟩ => ⟨path, ?_⟩
  have each := (List.forall₂_and_left _ _).mpr ⟨fun file held => held, files⟩
  refine each.imp fun file image ⟨held, _, made⟩ => ?_
  rw [plans.arrange_eq laid] at made
  exact SourceFile.renamed_of_makes (SourceFile.keyed_of_parse (scanned file
    (List.mem_flatMap.mpr ⟨package, listed, held⟩))) made

section Package

variable (planned : (options.plan module).run = .ok (.ok plan)) {package : Package}
  (listed : package ∈ module.packageList)

include planned listed

/-- Different names at top level become different ones. -/
theorem nodup_after {namings : List Naming} (among : namings ⊆ package.topNamings)
    (distinct : (namings.map Naming.name).Nodup) :
    (namings.map (Naming.after plan.edits)).Nodup := by
  have laid : module.LaidOut := fun file inside =>
    SourceFile.laidOut_of_parse (Module.scanned_of_ofSources loaded file inside)
  have every (names : List String) : names.filter (fun _ => true) = names :=
    List.filter_eq_self.mpr fun _ _ => rfl
  have apart : Naming.Apart (fun _ => true) namings := by
    rwa [Naming.Apart, every]
  rw [← every (namings.map _)]
  refine (apart.after_iff (plans.after_eq laid) (fun naming member given => (top_unrivalled loaded
    plans planned listed (among member) given).1) plans.renames fun _ => rfl).mpr ?_
  rintro ⟨-, moved, here, given, rival, there, named⟩
  exact (top_unrivalled loaded plans planned listed (among here) given).2 rival (among there) named

/-- Declarations that are kept by name are kept by their new names, in another order. -/
theorem exists_perm_after {α : Type} {renamed : α → α → Prop} {name : α → String}
    {map image : NameMap α} (made : MapRenamed renamed name map image) (keyed : map.Keyed name)
    (naming : α → Naming) (names : Naming.name ∘ naming = name)
    (among : map.values.map naming ⊆ package.topNamings)
    (each : ∀ {value seen}, renamed value seen → name seen = (naming value).after plan.edits) :
    ∃ images, List.Forall₂ renamed map.values images ∧ image.values.Perm images := by
  refine made.exists_perm each ?_
  have distinct : ((map.values.map naming).map Naming.name).Nodup := by
    rw [List.map_map, names]
    exact keyed.nodup
  have distinct' := nodup_after loaded plans planned listed among distinct
  rwa [List.map_map] at distinct'

/-- The new names of declarations that are kept by name. -/
theorem perm_names_after {α : Type} {renamed : α → α → Prop} {name : α → String}
    {map image : NameMap α} (made : MapRenamed renamed name map image) (keyed : map.Keyed name)
    (naming : α → Naming) (names : Naming.name ∘ naming = name)
    (among : map.values.map naming ⊆ package.topNamings)
    (each : ∀ {value seen}, renamed value seen → name seen = (naming value).after plan.edits) :
    (image.values.map name).Perm ((map.values.map naming).map (Naming.after plan.edits)) := by
  obtain ⟨images, matched, perm⟩ :=
    exists_perm_after loaded plans planned listed made keyed naming names among each
  rw [List.map_map, ← map_eq_map_of_forall₂ (Naming.after plan.edits ∘ naming) name
    (fun _ _ => each) matched]
  exact perm.map name

/-- **What a file declares at top level** after the rename. -/
theorem perm_topNamings_file {file image : SourceFile} (held : file ∈ package.files)
    (keyed : file.Keyed) (renamed : file.Renamed plan.edits image) :
    (image.topNamings.map Naming.name).Perm
      (file.topNamings.map (Naming.after plan.edits)) := by
  have among : file.topNamings ⊆ package.topNamings := fun naming member =>
    List.mem_flatMap.mpr ⟨file, held, member⟩
  have types := perm_names_after loaded plans planned listed renamed.types keyed.types
    (TypeDecl.naming file.path) rfl (fun naming member => among
      (List.mem_append_left _ (List.mem_append_left _ (List.mem_append_left _ member))))
    TypeDecl.Renamed.name
  have functions := perm_names_after loaded plans planned listed renamed.functions keyed.functions
    (FuncDecl.naming file.path) rfl (fun naming member => among
      (List.mem_append_left _ (List.mem_append_left _ (List.mem_append_right _ member))))
    FuncDecl.Renamed.name
  have vars := perm_names_after loaded plans planned listed renamed.vars keyed.vars
    (ValueDecl.naming file.path) rfl (fun naming member => among
      (List.mem_append_left _ (List.mem_append_right _ member))) id
  have consts := perm_names_after loaded plans planned listed renamed.consts keyed.consts
    (ValueDecl.naming file.path) rfl (fun naming member => among
      (List.mem_append_right _ member)) id
  unfold SourceFile.topNamings
  simp only [List.map_append]
  refine ((List.Perm.append ?_ ?_).append ?_).append ?_
  · rw [List.map_map]
    exact types
  · rw [List.map_map]
    exact functions
  · rw [List.map_map]
    exact vars
  · rw [List.map_map]
    exact consts

/-- **What a package declares at top level** after the rename. -/
theorem perm_topNamings {image : Package} (renamed : package.Renamed plan.edits image) :
    (image.topNamings.map Naming.name).Perm
      (package.topNamings.map (Naming.after plan.edits)) := by
  unfold Package.topNamings
  rw [List.map_flatMap, List.map_flatMap, List.flatMap_def, List.flatMap_def]
  refine List.Perm.flatten_congr ?_
  rw [List.forall₂_map_left_iff, List.forall₂_map_right_iff]
  have each := (List.forall₂_and_left _ _).mpr ⟨fun file held => held, renamed.files⟩
  refine each.flip.imp fun image file ⟨held, renamed⟩ => ?_
  exact perm_topNamings_file loaded plans planned listed held (SourceFile.keyed_of_parse
    (Module.scanned_of_ofSources loaded file (List.mem_flatMap.mpr ⟨package, listed, held⟩)))
    renamed

/-- Names at top level that become the same were the same. -/
theorem name_eq_of_after_eq {first second : Naming} (here : first ∈ package.topNamings)
    (there : second ∈ package.topNamings)
    (same : first.after plan.edits = second.after plan.edits) :
    first.name = second.name := by
  have laid : module.LaidOut := fun file inside =>
    SourceFile.laidOut_of_parse (Module.scanned_of_ofSources loaded file inside)
  rw [plans.after_eq laid, plans.after_eq laid] at same
  have unrivalled {moved : Naming} (among : moved ∈ package.topNamings)
      (edited : plan.Edits moved) :=
    top_unrivalled loaded plans planned listed among edited
  split at same
  · rename_i edited
    split at same
    · rename_i edited'
      exact (unrivalled here edited).1.trans (unrivalled there edited').1.symm
    · exact absurd same.symm ((unrivalled here edited).2 second there)
  · split at same
    · rename_i edited'
      exact absurd same ((unrivalled there edited').2 first here)
    · exact same

/-- **A method stays with its type**, and comes to no other one. -/
theorem receiver_after_iff {counts : String → Bool} (apart : Naming.Apart counts package.topNamings)
    {file other : SourceFile} (held : file ∈ package.files) {method image : FuncDecl}
    (inside : method ∈ file.methods) {name : String} (home : method.AtHome package file name)
    (counted : counts name = true) (renamed : method.Renamed plan.edits file.path image)
    (held' : other ∈ package.files) {decl : TypeDecl} (declared : decl ∈ other.types.values) :
    image.receiverTypeName = some ((decl.naming other.path).after plan.edits) ↔
      method.receiverTypeName = some decl.name := by
  have laid : module.LaidOut := fun file inside =>
    SourceFile.laidOut_of_parse (Module.scanned_of_ofSources loaded file inside)
  have listing {file : SourceFile} (held : file ∈ package.files) {decl : TypeDecl}
      (declared : decl ∈ file.types.values) : decl.naming file.path ∈ package.topNamings :=
    List.mem_flatMap.mpr ⟨file, held, List.mem_append_left _ (List.mem_append_left _
      (List.mem_append_left _ (List.mem_map_of_mem declared)))⟩
  obtain ⟨origin, held'', owner, declared', named⟩ := home.declared
  have alone {naming : Naming} (member : naming ∈ package.topNamings)
      (called : naming.name = name) :
      naming = owner.naming origin.path :=
    Naming.eq_of_nodup_filter_map apart member (listing held'' declared') (called.trans named.symm)
      (called.symm ▸ counted)
  obtain ⟨receiver, stands, called, edited⟩ := receiver_edits_iff loaded plans listed held inside
    home held'' declared' named fun naming => alone
  have follows : receiver.after plan.edits = (owner.naming origin.path).after plan.edits := by
    rw [plans.after_eq laid, plans.after_eq laid, called, ← named]
    exact if_congr edited rfl rfl
  rw [renamed.receiver, ← method.map_receiverNaming? file.path, stands, Option.map_some,
    Option.map_some, Option.some_inj, Option.some_inj, follows, called]
  constructor
  · intro same
    exact named.symm.trans (name_eq_of_after_eq loaded plans planned listed
      (listing held'' declared') (listing held' declared) same)
  · intro same
    rw [alone (listing held' declared) same.symm]

/-- **The members of a type** after the rename are those before, under their new names. -/
theorem map_memberNamings {counts : String → Bool}
    (apart : Naming.Apart counts package.topNamings) (homes : package.MethodsAtHome counts)
    {image : Package} (renamed : package.Renamed plan.edits image) {file imageFile : SourceFile}
    (held : file ∈ package.files) (path : imageFile.path = file.path) {decl seen : TypeDecl}
    (declared : decl ∈ file.types.values) (made : decl.Renamed plan.edits file.path seen) :
    (image.memberNamings imageFile seen).map Naming.name =
      (package.memberNamings file decl).map (Naming.after plan.edits) := by
  unfold Package.memberNamings
  rw [List.map_append, List.map_append, path, made.members, List.map_flatMap, List.map_flatMap,
    List.flatMap_def, List.flatMap_def]
  refine congrArg (_ ++ List.flatten ·) ?_
  have each := (List.forall₂_and_left _ _).mpr ⟨fun file held => held, renamed.files⟩
  refine map_eq_map_of_forall₂ _ _ (fun other otherImage ⟨held', renamed⟩ => ?_) each
  unfold SourceFile.methodNamings SourceFile.methodsOf
  rw [List.map_map, List.map_map]
  refine map_eq_map_of_forall₂ _ _ (fun method methodImage renamed => renamed.2.name)
    (List.rel_filter (fun method methodImage renamed => ?_)
      ((List.forall₂_and_left _ _).mpr ⟨fun method inside => inside, renamed.methods⟩))
  obtain ⟨inside, renamed⟩ := renamed
  obtain ⟨name, home, counted⟩ := homes other held' method inside
  simp only [beq_iff_eq]
  rw [made.name]
  exact (receiver_after_iff loaded plans planned listed apart held' inside home counted renamed held
    declared).symm

end Package

end RenameOptions

/-! ## Modules -/

namespace Module

/-- Names at the top level of a package are apart. -/
def TopNamesApart (counts : String → Bool) (module : Module) : Prop :=
  ∀ package ∈ module.packageList, Naming.Apart counts package.topNamings

/-- Names of the members of a type are apart. -/
def MembersApart (counts : String → Bool) (module : Module) : Prop :=
  ∀ package ∈ module.packageList, ∀ file ∈ package.files, ∀ decl ∈ file.types.values,
    Naming.Apart counts (package.memberNamings file decl)

/-- Names of the parameters of a function are apart. -/
def ParamsApart (counts : String → Bool) (module : Module) : Prop :=
  ∀ package ∈ module.packageList, ∀ file ∈ package.files, ∀ decl ∈ file.allFunctions,
    Naming.Apart counts (decl.paramNamings file.path)

/-- Names that are declared side by side are apart. -/
structure NamesApart (counts : String → Bool) (module : Module) : Prop where
  top : module.TopNamesApart counts
  members : module.MembersApart counts
  params : module.ParamsApart counts

end Module

/-- A type has an edited member beside one with the new name, and one of the two is an embedded
field. -/
def RenamePlan.MeetsEmbedded (plan : RenamePlan) (new : String) (module : Module) : Prop :=
  ∃ package ∈ module.packageList, ∃ file ∈ package.files, ∃ decl ∈ file.types.values,
    ∃ moved ∈ package.memberNamings file decl, plan.Edits moved ∧
      ∃ rival ∈ package.memberNamings file decl, rival.name = new ∧
        (moved.embedded = true ∨ rival.embedded = true)

instance (counts : String → Bool) (module : Module) : Decidable (module.NamesApart counts) :=
  decidable_of_iff ((∀ package ∈ module.packageList, Naming.Apart counts package.topNamings) ∧
    (∀ package ∈ module.packageList, ∀ file ∈ package.files, ∀ decl ∈ file.types.values,
      Naming.Apart counts (package.memberNamings file decl)) ∧
    ∀ package ∈ module.packageList, ∀ file ∈ package.files, ∀ decl ∈ file.allFunctions,
      Naming.Apart counts (decl.paramNamings file.path))
    ⟨fun ⟨top, members, params⟩ => ⟨top, members, params⟩,
      fun apart => ⟨apart.top, apart.members, apart.params⟩⟩

instance (plan : RenamePlan) (new : String) (module : Module) :
    Decidable (plan.MeetsEmbedded new module) :=
  inferInstanceAs (Decidable (∃ package ∈ module.packageList, _))

namespace RenameOptions

variable {options : RenameOptions} {module final : Module} {index : Index} {targets : List Symbol}
  {plan : RenamePlan} {path : String} {sources : List (String × String)}
  (loaded : Module.ofSources path sources = .ok module)
  (plans : options.Planned module index targets plan)
  (planned : (options.plan module).run = .ok (.ok plan))
  (renamed : List.Forall₂ (Package.Renamed plan.edits) module.packageList final.packageList)
  {counts : String → Bool} (counted : counts options.new = true → counts options.old = true)

include loaded plans planned renamed counted

/-- At top level names stay apart. -/
theorem topNamesApart_after (apart : module.TopNamesApart counts) : final.TopNamesApart counts := by
  have laid : module.LaidOut := fun file inside =>
    SourceFile.laidOut_of_parse (Module.scanned_of_ofSources loaded file inside)
  intro image listed
  obtain ⟨package, listed', renamed⟩ := exists_mem_of_forall₂ renamed listed
  have perm := perm_topNamings loaded plans planned listed' renamed
  have unrivalled {moved : Naming} (among : moved ∈ package.topNamings)
      (edited : plan.Edits moved) :=
    top_unrivalled loaded plans planned listed' among edited
  refine ((perm.filter counts).nodup_iff).mpr (((apart package listed').after_iff
    (plans.after_eq laid) (fun naming member edited => (unrivalled member edited).1) plans.renames
    counted).mpr ?_)
  rintro ⟨-, moved, here, edited, rival, there, named⟩
  exact (unrivalled here edited).2 rival there named

/-- Among parameters names stay apart. -/
theorem paramsApart_after (apart : module.ParamsApart counts) : final.ParamsApart counts := by
  have laid : module.LaidOut := fun file inside =>
    SourceFile.laidOut_of_parse (Module.scanned_of_ofSources loaded file inside)
  intro image listed file held seen declared
  obtain ⟨package, listed', renamed⟩ := exists_mem_of_forall₂ renamed listed
  obtain ⟨origin, held', renamed⟩ := exists_mem_of_forall₂ renamed.files held
  -- The function was there before, under its old name.
  have before : ∃ decl ∈ origin.allFunctions, decl.Renamed plan.edits origin.path seen := by
    rcases List.mem_append.mp declared with function | method
    · obtain ⟨images, matched, made⟩ := renamed.functions
      rw [made] at function
      obtain ⟨decl, inside, one⟩ :=
        exists_mem_of_forall₂ matched (NameMap.mem_of_mem_values_fileBy function)
      exact ⟨decl, List.mem_append_left _ inside, one⟩
    · obtain ⟨decl, inside, one⟩ := exists_mem_of_forall₂ renamed.methods method
      exact ⟨decl, List.mem_append_right _ inside, one⟩
  obtain ⟨decl, inside, one⟩ := before
  have unrivalled {moved : Naming} (among : moved ∈ decl.paramNamings origin.path)
      (edited : plan.Edits moved) :=
    param_unrivalled loaded plans planned listed' held' inside among edited
  unfold Naming.Apart
  rw [renamed.path, one.params]
  refine ((apart package listed' origin held' decl inside).after_iff (plans.after_eq laid)
    (fun naming member edited => (unrivalled member edited).1) plans.renames counted).mpr ?_
  rintro ⟨-, moved, here, edited, rival, there, named⟩
  exact (unrivalled here edited).2 rival there named

/-- **Among members names stay apart, unless an embedded field is met.** -/
theorem membersApart_after_iff (apart : module.TopNamesApart counts)
    (members : module.MembersApart counts)
    (homes : ∀ package ∈ module.packageList, package.MethodsAtHome counts) :
    final.MembersApart counts ↔
      ¬(counts options.new = true ∧ plan.MeetsEmbedded options.new module) := by
  have laid : module.LaidOut := fun file inside =>
    SourceFile.laidOut_of_parse (Module.scanned_of_ofSources loaded file inside)
  have keyed {package : Package} (listed : package ∈ module.packageList) {file : SourceFile}
      (held : file ∈ package.files) : file.Keyed :=
    SourceFile.keyed_of_parse (Module.scanned_of_ofSources loaded file
      (List.mem_flatMap.mpr ⟨package, listed, held⟩))
  have types {package : Package} (listed : package ∈ module.packageList) {file image : SourceFile}
      (held : file ∈ package.files) (renamed : file.Renamed plan.edits image) :=
    exists_perm_after loaded plans planned listed renamed.types (keyed listed held).types
      (TypeDecl.naming file.path) rfl (fun naming member => List.mem_flatMap.mpr ⟨file, held,
        List.mem_append_left _ (List.mem_append_left _ (List.mem_append_left _ member))⟩)
      TypeDecl.Renamed.name
  -- One type after the other: its members are apart unless its edited ones meet the new name.
  have each {package image : Package} (listed : package ∈ module.packageList)
      (renamed : package.Renamed plan.edits image) {file imageFile : SourceFile}
      (held : file ∈ package.files) (path : imageFile.path = file.path) {decl seen : TypeDecl}
      (declared : decl ∈ file.types.values) (made : decl.Renamed plan.edits file.path seen) :
      Naming.Apart counts (image.memberNamings imageFile seen) ↔ ¬(counts options.new = true ∧
        ∃ moved ∈ package.memberNamings file decl, plan.Edits moved ∧
          ∃ rival ∈ package.memberNamings file decl, rival.name = options.new) := by
    unfold Naming.Apart
    rw [map_memberNamings loaded plans planned listed (apart package listed) (homes package listed)
      renamed held path declared made]
    exact (members package listed file held decl declared).after_iff (plans.after_eq laid)
      (fun naming member edited =>
        (member_unrivalled loaded plans planned listed held declared member edited).1)
      plans.renames counted
  constructor
  · rintro free ⟨counts', package, listed, file, held, decl, declared, moved, here, edited, rival,
      there, named, -⟩
    obtain ⟨image, listed', renamed⟩ := exists_mem_of_forall₂ renamed.flip listed
    obtain ⟨imageFile, held', renamed'⟩ := exists_mem_of_forall₂ renamed.files.flip held
    obtain ⟨images, matched, perm⟩ := types listed held renamed'
    obtain ⟨seen, inside, made⟩ := exists_mem_of_forall₂ matched.flip declared
    have distinct := free image listed' imageFile held' seen (perm.mem_iff.mpr inside)
    exact (each listed renamed held renamed'.path declared made).mp distinct
      ⟨counts', moved, here, edited, rival, there, named⟩
  · intro free image listed file held seen declared
    obtain ⟨package, listed', renamed⟩ := exists_mem_of_forall₂ renamed listed
    obtain ⟨origin, held', renamed'⟩ := exists_mem_of_forall₂ renamed.files held
    obtain ⟨images, matched, perm⟩ := types listed' held' renamed'
    obtain ⟨decl, inside, made⟩ := exists_mem_of_forall₂ matched (perm.mem_iff.mp declared)
    refine (each listed' renamed held' renamed'.path inside made).mpr ?_
    rintro ⟨counts', moved, here, edited, rival, there, named⟩
    exact free ⟨counts', package, listed', origin, held', decl, inside, moved, here, edited, rival,
      there, named,
        (member_unrivalled loaded plans planned listed' held' inside here edited).2 rival
        there named⟩

end RenameOptions

/-- **What a rename does to names that are apart.** At top level and among parameters they stay
apart. Among members they do exactly if no edited member meets another one with the new name, which
only happens where one of the two is an embedded field. -/
theorem rename_keeps_names_apart {path : String} {sources : List (String × String)}
    {module final : Module} {options : RenameOptions} {outcome : Outcome} {counts : String → Bool}
    (loaded : Module.ofSources path sources = .ok module)
    (ran : options.run module = .ok (final, outcome)) (success : outcome.success = true)
    (wet : options.dryRun = false) (counted : counts options.new = true → counts options.old = true)
    (apart : module.NamesApart counts) :
    final.TopNamesApart counts ∧ final.ParamsApart counts ∧
      ∃ plan, (options.plan module).run = .ok (.ok plan) ∧
        ((∀ package ∈ module.packageList, package.MethodsAtHome counts) →
          (final.MembersApart counts ↔
            ¬(counts options.new = true ∧ plan.MeetsEmbedded options.new module))) := by
  rcases RenameOptions.run_eq_ok.mp ran with attempted | ⟨error, -, -, rfl⟩
  · obtain ⟨plan, planned, -, applied⟩ := RenameOptions.attempt_eq_ok.mp attempted
    rw [if_neg (by simp [wet])] at applied
    obtain ⟨paths, applied⟩ := applied
    obtain ⟨index, targets, plans⟩ := RenameOptions.plan_spec planned
    have renamed := RenameOptions.renamed_of_applyEdits loaded plans applied
    exact ⟨RenameOptions.topNamesApart_after loaded plans planned renamed counted apart.top,
      RenameOptions.paramsApart_after loaded plans planned renamed counted apart.params,
      plan, planned, RenameOptions.membersApart_after_iff loaded plans planned renamed counted
        apart.top apart.members⟩
  · cases success

/-- A struct that embeds a type, with another field and a method. -/
def embeddingSources : List (String × String) :=
  [("p/a.go", "package p\n\ntype T int\n\ntype S struct \x7b\n\tT\n\tU int\n\x7d\n\n" ++
    "func (s *S) Get() int \x7b\n\treturn s.U\n\x7d\n")]

/-- The embedded type takes the name of the other field. -/
def embeddingRename : RenameOptions := { old := "T", new := "U" }

/-- The rename succeeds and leaves two fields with one name, all other names apart. -/
theorem rename_meets_embedded :
    ∃ module final outcome, Module.ofSources "m" embeddingSources = .ok module ∧
      embeddingRename.run module = .ok (final, outcome) ∧ outcome.success = true ∧
      module.NamesApart (fun _ => true) ∧ final.TopNamesApart (fun _ => true) ∧
      final.ParamsApart (fun _ => true) ∧ ¬final.MembersApart (fun _ => true) := by
  have evaluated : checkOk (Module.ofSources "m" embeddingSources) (fun module =>
      decide (module.NamesApart fun _ => true) &&
      decide (∀ package ∈ module.packageList, ∀ file ∈ package.files, ∀ method ∈ file.methods,
        ((method.receiver.bind fun receiver => receiver.typeNode.typeReference) =
            some (none, "S") ∧ file.importNamed "S" = none) ∧
          ∃ other ∈ package.files, ∃ decl ∈ other.types.values, decl.name = "S") &&
      checkOk (embeddingRename.plan module).run (fun ending => checkOk ending fun plan =>
        decide (plan.MeetsEmbedded embeddingRename.new module)) &&
      checkOk (embeddingRename.runPlanned module) fun result => result.2.success) = true := by
    decide +kernel
  obtain ⟨module, loaded, checked⟩ := exists_of_checkOk evaluated
  obtain ⟨checked, succeeded⟩ := Bool.and_eq_true_iff.mp checked
  obtain ⟨checked, meets⟩ := Bool.and_eq_true_iff.mp checked
  obtain ⟨apart, homes⟩ := Bool.and_eq_true_iff.mp checked
  have apart := of_decide_eq_true apart
  have homes := of_decide_eq_true homes
  obtain ⟨ending, planned, ended⟩ := exists_of_checkOk meets
  obtain ⟨plan, rfl, meets⟩ := exists_of_checkOk ended
  obtain ⟨⟨final, outcome⟩, ran, success⟩ := exists_of_checkOk succeeded
  rw [← RenameOptions.run_eq_runPlanned] at ran
  obtain ⟨top, params, plan', planned', members⟩ := rename_keeps_names_apart loaded ran success rfl
    (fun _ => rfl) apart
  cases planned.symm.trans planned'
  refine ⟨module, final, outcome, loaded, ran, success, apart, top, params, fun free => ?_⟩
  refine (members fun package listed file held method inside => ?_).mp free
    ⟨rfl, of_decide_eq_true meets⟩
  obtain ⟨⟨named, unimported⟩, declared⟩ := homes package listed file held method inside
  exact ⟨"S", ⟨named, by decide, unimported, declared⟩, rfl⟩

end GoRefactor
