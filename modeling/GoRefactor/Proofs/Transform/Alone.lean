import GoRefactor.Proofs.Transform.EditedPackages
import GoRefactor.Proofs.Transform.Extracted
import GoRefactor.Proofs.Transform.Rediscovery

/-!
# Interfaces that stand alone

The text of an interface may declare more than the interface when it is read on its own. Where it
does not, an extraction leaves the packages as they were, but for interfaces under names that they
lacked. New files come last in the packages that the interfaces were planned for.
-/

namespace GoRefactor

/-- The names in package clauses: of the packages and of their files. -/
def Module.clauses (module : Module) : List String :=
  module.packageList.map Package.name ++ module.sourceFiles.map SourceFile.packageName

/-- All types of the file are interfaces with the name, and no function belongs to a type. -/
def SourceFile.DeclaresOnly (file : SourceFile) (name : String) : Prop :=
  (∀ decl ∈ file.types.values, decl.name = name ∧ Draft.kindOfType decl = .interface) ∧
    ∀ decl ∈ file.allFunctions, decl.receiverTypeName = none

instance (file : SourceFile) (name : String) : Decidable (file.DeclaresOnly name) :=
  inferInstanceAs (Decidable (_ ∧ _))

/-- Behind a package clause of the module, the text declares the interface and nothing that matters
to method sets. -/
def PlannedInterface.Alone (module : Module) (planned : PlannedInterface) : Prop :=
  ∀ clause ∈ module.clauses, ∀ gap ∈ ["\n", "\n\n"],
    ∀ file ∈ (scanFile planned.change.file
      ("package " ++ clause ++ gap ++ planned.rendered)).toOption, file.DeclaresOnly planned.name

instance (module : Module) (planned : PlannedInterface) : Decidable (planned.Alone module) :=
  inferInstanceAs (Decidable (∀ _ ∈ _, _))

/-- Moving the spans of a type leaves what kind of type it is. -/
theorem SpanVisitor.kindOfType_shift (delta : Int) (decl : TypeDecl) :
    Draft.kindOfType ((shift delta).typeDecl decl) = Draft.kindOfType decl := by
  have shape : ((shift delta).typeDecl decl).shape = (shift delta).typeShape decl.shape := rfl
  unfold Draft.kindOfType
  rw [shape]
  cases decl.shape <;> rfl

namespace PlannedInterface

variable {module : Module} {planned : PlannedInterface} {clause name : String}

/-- What is declared alone is an interface with the planned name, wherever it goes. -/
theorem Alone.brings (alone : planned.Alone module) (known : clause ∈ module.clauses)
    {decl : TypeDecl} (brings : planned.Brings clause name decl) :
    name = planned.name ∧ Draft.kindOfType decl = .interface := by
  obtain ⟨snippet, original, delta, read, found, rfl⟩ := brings
  have entry := NameMap.get?_eq_some_iff.mp found
  have same : name = original.name :=
    (SourceFile.keyed_of_parse (parse_of_scanFile read)).types _ entry
  obtain ⟨only, kind⟩ := (alone clause known "\n" (by simp) snippet (by rw [read]; rfl)).1 original
    (List.mem_map_of_mem entry)
  exact ⟨same.trans only, (SpanVisitor.kindOfType_shift delta original).trans kind⟩

/-- What is declared alone has the planned name. -/
theorem Alone.declares (alone : planned.Alone module) (known : clause ∈ module.clauses)
    (declares : planned.Declares clause name) : name = planned.name := by
  obtain ⟨snippet, read, contains⟩ := declares
  obtain ⟨decl, found⟩ := NameMap.contains_iff_get?.mp contains
  exact (alone.brings known ⟨snippet, decl, 0, read, found, rfl⟩).1

end PlannedInterface

namespace ExtractionPlan

/-- Paths of the files that interfaces create in a package, in order. -/
def createdIn (interfaces : List PlannedInterface) (key : String) : List String :=
  interfaces.filterMap fun planned =>
    if planned.placement = .create key then some planned.change.file else none

/-- One interface is declared, then others. -/
theorem createdIn_cons (planned : PlannedInterface) (rest : List PlannedInterface) (key : String) :
    createdIn (planned :: rest) key = createdIn [planned] key ++ createdIn rest key := by
  unfold createdIn
  rw [← List.filterMap_append, List.singleton_append]

end ExtractionPlan

open ExtractionPlan

namespace Module

variable {module next final : Module}

/-- The skeleton with the files that interfaces create. -/
def skeletonWith (module : Module) (interfaces : List PlannedInterface) :
    String × List (String × String × String × List String) :=
  (module.path, module.skeleton.2.map fun (key, path, name, files) =>
    (key, path, name, files ++ createdIn interfaces key))

/-- Where no key gets a created interface, the skeleton is that of the module. -/
theorem skeletonWith_eq {interfaces : List PlannedInterface}
    (none : ∀ key, createdIn interfaces key = []) :
    module.skeletonWith interfaces = module.skeleton := by
  unfold skeletonWith
  simp only [none, List.append_nil]
  exact congrArg (Prod.mk _) (List.map_id _)

/-- An interface that is declared adds its file to the skeleton, if it is in a new one. -/
theorem skeleton_declareInterface {planned : PlannedInterface}
    (declared : (module.declareInterface planned).run = .ok (.ok next)) :
    next.skeleton = module.skeletonWith [planned] := by
  unfold Module.declareInterface at declared
  cases placed : planned.placement with
  | append edit =>
    rw [placed] at declared
    rw [skeletonWith_eq fun key => by simp [createdIn, placed]]
    obtain ⟨file, types, edited, paths, -, -, applied, rfl⟩ := appendInterface_eq_ok.mp declared
    refine (skeleton_updateFile edited ?_).trans (skeleton_of_applyEdits applied)
    exact fun _ _ => rfl
  | create key =>
    rw [placed] at declared
    obtain ⟨file, owner, scanned, -, rfl⟩ := createFile_eq_ok.mp declared
    have path : file.flagged.path = planned.change.file :=
      (SourceFile.path_of_parse (parse_of_scanFile scanned)).1
    unfold skeletonWith skeleton touch addFile NameMap.modify
    refine congrArg (Prod.mk _) ?_
    rw [List.map_map, List.map_map]
    refine List.map_congr_left fun entry _ => ?_
    simp only [Function.comp_apply, createdIn, List.filterMap_cons, List.filterMap_nil, placed,
      Placement.create.injEq]
    by_cases here : entry.1 = key
    · rw [if_pos here, if_pos here.symm, List.map_append, List.map_singleton, path]
    · rw [if_neg here, if_neg (Ne.symm here), List.append_nil]

/-- **Interfaces that are declared add their new files to the skeleton**, in order. -/
theorem skeleton_declareInterfaces {interfaces : List PlannedInterface}
    (declared : module.declareInterfaces interfaces = .ok (final, none)) :
    final.skeleton = module.skeletonWith interfaces := by
  induction interfaces generalizing module with
  | nil =>
    cases declared
    exact (skeletonWith_eq fun _ => rfl).symm
  | cons first rest ih =>
    rcases declareInterfaces_cons.mp declared with ⟨next, step, later⟩ | ⟨_, -, -, none⟩
    · have one := skeleton_declareInterface step
      have path : next.path = module.path := congrArg Prod.fst one
      rw [ih later, skeletonWith, path, one, skeletonWith, skeletonWith, List.map_map]
      refine congrArg (Prod.mk _) (List.map_congr_left fun entry _ => ?_)
      simp only [Function.comp_apply, List.append_assoc, createdIn_cons first rest]
    · cases none

/-- **The packages after interfaces are declared**, one by one: each keeps its key, path and name,
and its files are the former ones, in order, and those that are new. -/
theorem forall₂_packages {interfaces : List PlannedInterface}
    (declared : module.declareInterfaces interfaces = .ok (final, none)) :
    List.Forall₂ (fun entry image => entry ∈ module.packages.entries ∧
      image ∈ final.packages.entries ∧ image.1 = entry.1 ∧ image.2.path = entry.2.path ∧
      image.2.name = entry.2.name ∧ image.2.files.map SourceFile.path =
        entry.2.files.map SourceFile.path ++ createdIn interfaces entry.1)
      module.packages.entries final.packages.entries := by
  have same := (Prod.mk.inj (skeleton_declareInterfaces declared)).2
  unfold skeleton at same
  rw [List.map_map] at same
  exact (forall₂_of_map_eq same).imp fun _ _ ⟨member, member', alike⟩ =>
    ⟨member, member', by simpa using alike⟩

end Module

namespace SourceFile

variable {module : Module} {file image : SourceFile} {interfaces : List PlannedInterface}
  {fresh : String → Prop}

/-- A file that interfaces extend is enriched, if they stand alone under fresh names that the file
lacks. -/
theorem Extended.enriched (extended : file.Extended interfaces image)
    (grows : ∃ more, image.content = file.content ++ more)
    (alone : ∀ planned ∈ interfaces, planned.Alone module)
    (known : file.packageName ∈ module.clauses)
    (free : ∀ planned ∈ interfaces, fresh planned.name ∧ file.declares planned.name = false) :
    file.Enriched fresh image := by
  refine ⟨extended.rest, grows, fun name decl found => ?_, fun name decl found => ?_⟩
  · rcases extended.kept name decl found with still | ⟨planned, member, taken⟩
    · exact still
    · -- The file would have the name of the interface.
      have same := (alone planned member).declares known taken
      have held : file.declares planned.name = true := by
        have contains := NameMap.contains_iff_get?.mpr ⟨decl, found⟩
        simp only [SourceFile.declares, ← same, contains, Bool.true_or]
      rw [(free planned member).2] at held
      cases held
  · refine (extended.others name decl found).imp_right ?_
    rintro ⟨planned, member, brings⟩
    obtain ⟨same, interface⟩ := (alone planned member).brings known brings
    exact ⟨same ▸ (free planned member).1, interface⟩

/-- A file that declares an interface only, extended by interfaces that stand alone, is bare. -/
theorem Extended.bare (extended : file.flagged.Extended interfaces image) {name : String}
    (only : file.DeclaresOnly name) (new : fresh name) (keyed : file.Keyed)
    (alone : ∀ planned ∈ interfaces, planned.Alone module)
    (known : file.packageName ∈ module.clauses)
    (free : ∀ planned ∈ interfaces, fresh planned.name) : image.Bare fresh := by
  constructor
  · have same : image.allFunctions = file.allFunctions := by
      rw [extended.rest]
      rfl
    rw [same]
    exact only.2
  · intro other decl found
    rcases extended.others other decl found with former | ⟨planned, member, brings⟩
    · have entry : (other, decl) ∈ file.types.entries := NameMap.get?_eq_some_iff.mp former
      obtain ⟨same, interface⟩ := only.1 decl (List.mem_map_of_mem entry)
      have under : other = decl.name := keyed.types _ entry
      exact ⟨(under.trans same) ▸ new, interface⟩
    · obtain ⟨same, interface⟩ := (alone planned member).brings known brings
      exact ⟨same ▸ free planned member, interface⟩

end SourceFile

namespace ExtractionOptions

variable {module final : Module} {interfaces : List PlannedInterface} {path : String}
  {sources : List (String × String)}

/-- A new file is bare, if the interfaces that go there stand alone under fresh names. -/
theorem bare_of_created (loaded : Module.ofSources path sources = .ok module)
    (on : PlannedOn module.text? interfaces)
    (declared : module.declareInterfaces interfaces = .ok (final, none)) (small : final.Small)
    (fits : ∀ planned ∈ interfaces, planned.Fits module)
    (alone : ∀ planned ∈ interfaces, planned.Alone module) {image : SourceFile}
    (held : final.file? image.path = some image) (absent : module.file? image.path = none)
    (goes : goingTo interfaces image.path ≠ []) {fresh : String → Prop}
    (free : ∀ planned ∈ goingTo interfaces image.path, fresh planned.name) : image.Bare fresh := by
  have distinct : module.DistinctPaths := Module.nodup_paths_of_ofSources loaded
  obtain ⟨first, rest, led⟩ := List.exists_cons_of_ne_nil goes
  have elements : ∀ planned ∈ first :: rest, planned ∈ interfaces := fun planned among =>
    (List.mem_filter.mp (show planned ∈ goingTo interfaces image.path from led ▸ among)).1
  rw [led] at free
  obtain ⟨newFirst, newOthers⟩ := List.forall_mem_cons.mp free
  obtain ⟨inside, others⟩ := List.forall_mem_cons.mp elements
  obtain ⟨file, image', read, found, extended⟩ :=
    exists_created_of_carries distinct on declared small absent led
  cases held.symm.trans found
  obtain ⟨_, created, -⟩ := exists_created distinct on declared absent led
  have here : first.change.file = image.path :=
    eq_of_beq (List.mem_filter.mp (show first ∈ goingTo interfaces image.path from
      led ▸ List.mem_cons_self)).2
  rw [← here] at read
  obtain ⟨package, listed, after, packageName, -⟩ := created_spec (fits first inside)
    (fun package listed => Module.isWord_packageName loaded listed) created read
  have clause : package.name ∈ module.clauses :=
    List.mem_append_left _ (List.mem_map_of_mem listed)
  refine extended.bare ?_ newFirst (SourceFile.keyed_of_parse (parse_of_scanFile read))
    (fun planned among => alone planned (others planned among)) (packageName ▸ clause) newOthers
  refine alone first inside package.name clause "\n\n" (by simp) file ?_
  rw [← after, read]
  rfl

/-- A file that is created was not there. -/
theorem file?_of_created (distinct : module.DistinctPaths) (on : PlannedOn module.text? interfaces)
    (declared : module.declareInterfaces interfaces = .ok (final, none))
    {planned : PlannedInterface}
    (member : planned ∈ interfaces) {key : String} (created : planned.placement = .create key) :
    module.file? planned.change.file = none := by
  obtain ⟨front, back, rfl⟩ := List.append_of_mem member
  obtain ⟨between, -, texts, atEnd⟩ := exists_moment distinct on declared
  cases held : module.file? planned.change.file with
  | none => rfl
  | some file =>
    have text : module.text? planned.change.file = some file.content := congrArg (Option.map _) held
    obtain ⟨more, whole⟩ := textsAfter_of_some text front
    have placed := atEnd.placed
    rw [texts, whole] at placed
    cases created.symm.trans placed.1

/-- A path of a file that is created belongs to one of the interfaces. -/
theorem mem_createdIn {path key : String} :
    path ∈ createdIn interfaces key ↔
      ∃ planned ∈ interfaces, planned.placement = .create key ∧ planned.change.file = path := by
  simp [createdIn]

/-- **Interfaces that stand alone enrich the packages.** -/
theorem enriched_of_declared (loaded : Module.ofSources path sources = .ok module)
    (on : PlannedOn module.text? interfaces)
    (declared : module.declareInterfaces interfaces = .ok (final, none)) (small : final.Small)
    (fits : ∀ planned ∈ interfaces, planned.Fits module)
    (homes : ∀ planned ∈ interfaces, ∃ package, planned.AtHome module package)
    (alone : ∀ planned ∈ interfaces, planned.Alone module) : module.Enriched final := by
  have distinct : module.DistinctPaths := Module.nodup_paths_of_ofSources loaded
  have addressed := Module.addressed_of_ofSources loaded
  have scanned := Module.scanned_of_ofSources loaded
  have carries := Module.carries_of_declareInterfaces distinct on declared
  refine (Module.forall₂_packages declared).imp fun entry image given => ?_
  obtain ⟨member, member', key, path, name, files⟩ := given
  have listed : entry.2 ∈ module.packageList := List.mem_map_of_mem member
  have listed' : image.2 ∈ final.packageList := List.mem_map_of_mem member'
  have goes {planned : PlannedInterface} {path : String}
      (among : planned ∈ goingTo interfaces path) :
      planned ∈ interfaces ∧ planned.change.file = path := by
    obtain ⟨inside, here⟩ := List.mem_filter.mp among
    exact ⟨inside, eq_of_beq here⟩
  obtain ⟨images, added, split, front, back⟩ := List.map_eq_append_iff.mp files
  have held {file : SourceFile} (inside : file ∈ images ++ added) :
      final.file? file.path = some file :=
    Module.file?_path carries.distinct (List.mem_flatMap.mpr ⟨image.2, listed', split ▸ inside⟩)
  refine ⟨key, path, name, images, added, split, ?_, fun file inside => ?_⟩
  · refine (forall₂_of_map_eq front).imp fun file grown given => ?_
    obtain ⟨inside, inside', there⟩ := given
    have member : file ∈ module.sourceFiles := List.mem_flatMap.mpr ⟨entry.2, listed, inside⟩
    obtain ⟨image, found, extended⟩ := extended_of_carries distinct scanned carries small member
    rw [← there, held (List.mem_append_left _ inside')] at found
    cases found
    have text : module.text? file.path = some file.content :=
      congrArg (Option.map _) (Module.file?_path distinct member)
    obtain ⟨more, whole⟩ := textsAfter_of_some text interfaces
    have grows : grown.content = file.content ++ more := by
      have after := congrFun carries.texts file.path
      rw [whole, Module.text?, ← there, held (List.mem_append_left _ inside')] at after
      exact Option.some.inj after
    refine extended.enriched ⟨more, grows⟩ (fun planned among => alone planned (goes among).1)
      (List.mem_append_right _ (List.mem_map_of_mem member)) fun planned among => ?_
    obtain ⟨known, here⟩ := goes among
    have found : module.file? planned.change.file = some file := by
      rw [here]
      exact Module.file?_path distinct member
    obtain ⟨package, home⟩ := homes planned known
    have same : package = entry.2 := Module.package_of_path distinct home.listed listed
      (home.housed loaded found) inside rfl
    exact ⟨same ▸ home.free, (fits planned known).free file found⟩
  · have new : file.path ∈ createdIn interfaces entry.1 := back ▸ List.mem_map_of_mem inside
    obtain ⟨planned, known, created, there⟩ := mem_createdIn.mp new
    obtain ⟨package, home⟩ := homes planned known
    have same : package = entry.2 := by
      have found := addressed.package?_eq_some home.listed
      rw [← home.created _ created] at found
      exact Option.some.inj (found.symm.trans (NameMap.get?_eq_some_iff.mpr member))
    refine bare_of_created loaded on declared small fits alone
      (held (List.mem_append_right _ inside))
      (there ▸ file?_of_created distinct on declared known created) (fun none => ?_)
      fun other among => ?_
    · have among : planned ∈ goingTo interfaces file.path :=
        List.mem_filter.mpr ⟨known, beq_iff_eq.mpr there⟩
      rw [none] at among
      cases among
    · obtain ⟨known', here⟩ := goes among
      obtain ⟨owner, home'⟩ := homes other known'
      have one := home.unique loaded home' (here.trans there.symm)
      exact (one.trans same) ▸ home'.free

/-- **Interfaces are declared in the packages that they were planned for.** -/
theorem declares_of_declared (loaded : Module.ofSources path sources = .ok module)
    (on : PlannedOn module.text? interfaces)
    (declared : module.declareInterfaces interfaces = .ok (final, none)) (small : final.Small)
    (fits : ∀ planned ∈ interfaces, planned.Fits module)
    (homes : ∀ planned ∈ interfaces, ∃ package, planned.AtHome module package)
    {planned : PlannedInterface} (known : planned ∈ interfaces) {package : Package}
    (home : planned.AtHome module package) :
    ∃ image, final.package? package.path = some image ∧ image.declares planned.name = true := by
  have distinct : module.DistinctPaths := Module.nodup_paths_of_ofSources loaded
  have addressed := Module.addressed_of_ofSources loaded
  obtain ⟨file, found, contains⟩ := declared_of_carries distinct
    (Module.scanned_of_ofSources loaded)
    (fun package listed => Module.isWord_packageName loaded listed) on declared fits small known
  obtain ⟨inside, here⟩ := Module.mem_of_file? found
  obtain ⟨image, listed', held⟩ := List.mem_flatMap.mp inside
  obtain ⟨⟨key', image⟩, member', rfl⟩ := List.mem_map.mp listed'
  obtain ⟨⟨key, former⟩, -, member, -, same, -, -, files⟩ :=
    exists_mem_of_forall₂ (Module.forall₂_packages declared) member'
  have listed : former ∈ module.packageList := List.mem_map_of_mem member
  have under : key = former.path := addressed.keyed _ member
  -- The file is one of the package, or is new in it.
  have one : package = former := by
    have path : planned.change.file ∈
        former.files.map SourceFile.path ++ createdIn interfaces key := by
      rw [← here, ← files]
      exact List.mem_map_of_mem held
    rcases List.mem_append.mp path with old | new
    · obtain ⟨other, owned, there⟩ := List.mem_map.mp old
      have before : module.file? planned.change.file = some other := by
        rw [← there]
        exact Module.file?_path distinct (List.mem_flatMap.mpr ⟨former, listed, owned⟩)
      exact Module.package_of_path distinct home.listed listed (home.housed loaded before) owned rfl
    · obtain ⟨other, known', created, there⟩ := mem_createdIn.mp new
      obtain ⟨owner, home'⟩ := homes other known'
      have found := addressed.package?_eq_some home'.listed
      rw [← home'.created _ created, under, addressed.package?_eq_some listed] at found
      exact (home'.unique loaded home there.symm).trans (Option.some.inj found).symm
  refine ⟨image, ?_, List.any_eq_true.mpr ⟨file, held, ?_⟩⟩
  · cases same
    rw [one, ← under]
    exact NameMap.get?_eq_some_iff.mpr member'
  · simp only [SourceFile.declares, contains, Bool.true_or]

end ExtractionOptions

end GoRefactor
