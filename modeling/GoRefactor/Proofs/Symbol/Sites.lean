import GoRefactor.Proofs.Edit.Visited
import GoRefactor.Proofs.Module.Addressed
import GoRefactor.Proofs.Symbol.PublicIndex

/-!
# Declarations and their symbols

What a package declares at top level is found under its name, in a retained file of the package. A
build that retains private declarations has a symbol where it stands.
-/

namespace GoRefactor

namespace Module

variable {module : Module}

/-- Files of one path are in one package. -/
theorem package_of_path (distinct : (module.sourceFiles.map SourceFile.path).Nodup)
    {package other : Package} (listed : package ∈ module.packageList)
    (listed' : other ∈ module.packageList) {file file' : SourceFile} (held : file ∈ package.files)
    (held' : file' ∈ other.files) (same : file.path = file'.path) : package = other := by
  rw [← module.map_snd_files, List.map_map] at distinct
  have entry : (package, file) ∈ module.files :=
    List.mem_flatMap.mpr ⟨package, listed, List.mem_map_of_mem held⟩
  have entry' : (other, file') ∈ module.files :=
    List.mem_flatMap.mpr ⟨other, listed', List.mem_map_of_mem held'⟩
  exact congrArg Prod.fst (List.inj_on_of_nodup_map distinct entry entry' same)

/-- A file of a package is walked with the scope of the module and the path of the package. -/
theorem package_of_mem_resolvers {options : IndexOptions} {symbols : SymbolTable}
    {resolver : Resolver} (walked : resolver ∈ module.resolvers options symbols) :
    resolver.scope = ModuleScope.ofModule options module ∧
      ∃ package ∈ module.packageList, resolver.package = package.path ∧
        resolver.file ∈ package.files := by
  obtain ⟨⟨package, file⟩, inside, rfl⟩ := List.mem_map.mp walked
  obtain ⟨owner, listed, held⟩ := List.mem_flatMap.mp (List.mem_filter.mp inside).1
  obtain ⟨_, held, same⟩ := List.mem_map.mp held
  cases same
  exact ⟨rfl, package, listed, rfl, held⟩

end Module

namespace ModuleScope

variable {module : Module} {options : IndexOptions}

/-- What a package declares under a name is declared in a retained file of the package. -/
theorem owner_of_lookup {path name : String} {site : Site}
    (found : (ofModule options module).lookup path name = some site) :
    ∃ package ∈ module.packageList, package.path = path ∧ site.file ∈ package.files ∧
      options.retainsFile site.file = true := by
  obtain ⟨decls, held, found⟩ := Option.bind_eq_some_iff.mp found
  obtain ⟨package, listed, same⟩ := List.mem_map.mp (NameMap.mem_of_get?_ofList held)
  cases same
  obtain ⟨file, inside, sited⟩ := List.mem_flatMap.mp (NameMap.mem_of_get?_ofList found)
  obtain ⟨owned, retained⟩ := List.mem_filter.mp inside
  simp only [PackageScope.fileSites, List.mem_append, List.mem_map] at sited
  rcases sited with ((⟨decl, held, same⟩ | ⟨decl, held, same⟩) | ⟨decl, held, same⟩) |
    ⟨decl, held, same⟩ <;> cases same <;> exact ⟨package, listed, rfl, owned, retained⟩

/-- A file that declares a name lists it among its declarations. -/
theorem exists_mem_fileSites {file : SourceFile} (keyed : file.Keyed) {name : String}
    (declares : file.declares name = true) (package : String) :
    ∃ site, (name, site) ∈ PackageScope.fileSites package file := by
  have named {α : Type} {map : NameMap α} {key : α → String} (keyed : map.Keyed key)
      (held : map.contains name = true) : ∃ value ∈ map.values, key value = name := by
    obtain ⟨entry, member, same⟩ := List.any_eq_true.mp held
    exact ⟨entry.2, List.mem_map_of_mem member, (keyed entry member).symm.trans (eq_of_beq same)⟩
  unfold SourceFile.declares at declares
  simp only [Bool.or_eq_true] at declares
  simp only [PackageScope.fileSites, List.mem_append, List.mem_map]
  rcases declares with ((type | func) | var) | const
  · obtain ⟨decl, held, rfl⟩ := named keyed.types type
    exact ⟨_, Or.inl (Or.inl (Or.inl ⟨decl, held, rfl⟩))⟩
  · obtain ⟨decl, held, rfl⟩ := named keyed.functions func
    exact ⟨_, Or.inl (Or.inl (Or.inr ⟨decl, held, rfl⟩))⟩
  · obtain ⟨decl, held, rfl⟩ := named keyed.vars var
    exact ⟨_, Or.inl (Or.inr ⟨decl, held, rfl⟩)⟩
  · obtain ⟨decl, held, rfl⟩ := named keyed.consts const
    exact ⟨_, Or.inr ⟨decl, held, rfl⟩⟩

/-- A package of the module is found by its path. -/
theorem get?_packages (keyed : module.packages.Keyed Package.path) {package : Package}
    (listed : package ∈ module.packageList) :
    (ofModule options module).packages.get? package.path =
      some (.ofPackage options package) := by
  refine NameMap.get?_eq_some_iff.mpr ((NameMap.mem_ofList_iff ?_).mpr
    (List.mem_map_of_mem
      (f := fun package => (package.path, PackageScope.ofPackage options package))
      listed))
  rw [List.map_map]
  exact keyed.nodup

/-- Under a name that a retained file of a package declares, the package declares something. -/
theorem exists_lookup (keyed : module.packages.Keyed Package.path) {package : Package}
    (listed : package ∈ module.packageList) {file : SourceFile} (held : file ∈ package.files)
    (retained : options.retainsFile file = true) (named : file.Keyed) {name : String}
    (declares : file.declares name = true) :
    ∃ site, (ofModule options module).lookup package.path name = some site := by
  obtain ⟨site, sited⟩ := exists_mem_fileSites named declares package.path
  unfold lookup
  rw [get?_packages keyed listed, Option.bind_some]
  exact NameMap.exists_get?_ofList (List.mem_flatMap.mpr
    ⟨file, List.mem_filter.mpr ⟨held, retained⟩, sited⟩)

end ModuleScope

/-- A build that retains private declarations retains every declaration. -/
theorem IndexOptions.retains_of_private {options : IndexOptions}
    (full : options.includePrivate = true) (kind : SymbolKind) (name : String) :
    options.retains kind name = true := by
  unfold retains
  cases kind <;> simp [full]

/-- What a file declares at top level has a draft among those of the file. -/
theorem Declaration.DeclaredIn.exists_draft {site : Site} {name : String}
    (declared : site.decl.DeclaredIn site.file name) (package : Package) :
    ∃ draft ∈ Draft.ofFile package site.file, draft.nameSpan = site.nameSpan := by
  unfold Draft.ofFile Site.nameSpan
  simp only [List.mem_append]
  cases given : site.decl with
  | type decl =>
    rw [given] at declared
    exact ⟨_, .inl <| .inl <| .inl <| .inl <| .inr <| List.mem_flatMap.mpr
      ⟨decl, (mem_sortBy _ _ _).mpr declared.1, List.mem_append_left _ (List.mem_append_left _
        List.mem_cons_self)⟩, rfl⟩
  | func decl =>
    rw [given] at declared
    exact ⟨_, .inl <| .inl <| .inr <| List.mem_flatMap.mpr
      ⟨decl, (mem_sortBy _ _ _).mpr declared.1, List.mem_cons_self⟩, rfl⟩
  | value decl =>
    rw [given] at declared
    rcases List.mem_append.mp declared.1 with var | const
    · exact ⟨_, .inl <| .inr <| List.mem_map_of_mem ((mem_sortBy _ _ _).mpr var), rfl⟩
    · exact ⟨_, .inr <| List.mem_map_of_mem ((mem_sortBy _ _ _).mpr const), rfl⟩

/-- The drafts of a retained file are among those of its package. -/
theorem Draft.mem_ofPackageFiles {package : Package} {options : IndexOptions} {file : SourceFile}
    (held : file ∈ package.files) (retained : options.retainsFile file = true) :
    (file, ofFile package file) ∈ ofPackageFiles options package := by
  have kept : file ∈ package.files.filter options.retainsFile :=
    List.mem_filter.mpr ⟨held, retained⟩
  unfold ofPackageFiles
  split
  · rename_i none
    rw [none] at kept
    cases kept
  · rename_i first rest same
    rw [same] at kept
    exact List.mem_cons_of_mem _ (List.mem_map_of_mem kept)

/-- A build that retains private declarations has a symbol where a package declares a name. -/
theorem SymbolTable.exists_atOrigin {module : Module} {options : IndexOptions}
    (full : options.includePrivate = true) {table : SymbolTable}
    (drawn : (module.symbols options).run = .ok (.ok table)) {path name : String} {site : Site}
    (found : (ModuleScope.ofModule options module).lookup path name = some site) :
    ∃ target ∈ table.toList, table.atOrigin site.file.path site.nameSpan = some target ∧
      target.file = site.file.path := by
  obtain ⟨filed, -, entries, -⟩ := Module.symbols_spec drawn
  obtain ⟨package, listed, -, held, retained⟩ := ModuleScope.owner_of_lookup found
  obtain ⟨draft, drafted, stands⟩ :=
    (ModuleScope.declaredIn_of_lookup found).2.exists_draft package
  have inside : draft.entry site.file ∈ table.toList.map Symbol.entry := by
    rw [entries]
    exact List.mem_flatMap.mpr ⟨package, listed, List.mem_flatMap.mpr
      ⟨_, Draft.mem_ofPackageFiles held retained, List.mem_filterMap.mpr
        ⟨draft, drafted, if_pos (IndexOptions.retains_of_private full _ _)⟩⟩⟩
  obtain ⟨symbol, member, same⟩ := List.mem_map.mp inside
  simp only [Symbol.entry, Draft.entry, Prod.mk.injEq] at same
  have placed : symbol ∈ table.toList.filter fun symbol =>
      symbol.file == site.file.path && symbol.nameSpan == site.nameSpan := by
    refine List.mem_filter.mpr ⟨member, ?_⟩
    rw [same.1, same.2.2.2, stands, beq_self_eq_true, beq_self_eq_true]
    rfl
  obtain ⟨target, last⟩ := Option.isSome_iff_exists.mp
    (List.getLast?_isSome.mpr (List.ne_nil_of_mem placed))
  rw [← atOrigin_eq_getLast? filed] at last
  obtain ⟨known, standing, -⟩ := mem_of_atOrigin filed last
  exact ⟨target, known, last, standing⟩

end GoRefactor
