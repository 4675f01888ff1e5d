import GoRefactor.Proofs.Edit.LaidOut
import GoRefactor.Proofs.Go.Parser.Spots
import GoRefactor.Proofs.Symbol.Inventory
import GoRefactor.Proofs.Symbol.Sites

/-!
# What stands at a place

At each place of a file that was read one thing is declared at most, and no walk passes the place as
a use. So a symbol of a full build is told by its file and span: it is the symbol of what is
declared there. Packages and imports may share a place, but a build lists them in front of the rest
of their file.
-/

namespace GoRefactor

/-- Members that stand at different spans are told by their spans. -/
theorem eq_of_nodup_filterMap {α β : Type} {place : α → Option β} {members : List α}
    (distinct : (members.filterMap place).Nodup) {first second : α} (here : first ∈ members)
    (there : second ∈ members) {spot : β} (stands : place first = some spot)
    (stands' : place second = some spot) : first = second := by
  induction members with
  | nil => cases here
  | cons head rest ih =>
    have listed {member : α} (inside : member ∈ rest) (stands : place member = some spot) :
        spot ∈ rest.filterMap place := List.mem_filterMap.mpr ⟨member, inside, stands⟩
    rcases List.mem_cons.mp here with rfl | early <;> rcases List.mem_cons.mp there with rfl | late
    · rfl
    · rw [List.filterMap_cons_some stands, List.nodup_cons] at distinct
      exact absurd (listed late stands') distinct.1
    · rw [List.filterMap_cons_some stands', List.nodup_cons] at distinct
      exact absurd (listed early stands) distinct.1
    · exact ih (distinct.sublist ((List.sublist_cons_self _ _).filterMap _)) early late

namespace SourceFile

/-- What a file declares under names of its own, all parameters among it, with or without names. -/
def standing (file : SourceFile) : List Item :=
  (file.types.values.flatMap fun decl => .type decl ::
    ((decl.fields.filter fun field => !field.embedded).map (.field decl) ++
      decl.interfaceMethods.map (.interfaceMethod decl))) ++
  (file.allFunctions.flatMap fun decl => .function decl :: decl.allParams.map (.param decl)) ++
  (file.vars.values.map .var ++ file.consts.values.map .const)

/-- Where it stands are the declared names of the file, blank values apart. -/
theorem spots_eq_standing (file : SourceFile) :
    file.spots = file.standing.filterMap Item.nameSpan? ++ file.blanks.map (·.nameSpan) := by
  have types (decl : TypeDecl) : (Item.type decl ::
      ((decl.fields.filter fun field => !field.embedded).map (.field decl) ++
        decl.interfaceMethods.map (.interfaceMethod decl))).filterMap Item.nameSpan? =
      decl.nameSpan :: decl.shape.spots := by
    obtain ⟨name, nameSpan, extent, shape, doc⟩ := decl
    cases shape <;> simp [TypeShape.spots, TypeDecl.fields, TypeDecl.interfaceMethods,
      Item.nameSpan?, Function.comp_def]
  have functions (decl : FuncDecl) :
      (Item.function decl :: decl.allParams.map (.param decl)).filterMap Item.nameSpan? =
        decl.spots := by
    have params : (decl.allParams.map (Item.param decl)).filterMap Item.nameSpan? =
        decl.allParams.flatMap Param.spots := by
      rw [List.filterMap_map]
      exact List.filterMap_eq_flatMap_toList _ _
    exact congrArg (decl.nameSpan :: ·) params
  have values (decls : List ValueDecl) (make : ValueDecl → Item)
      (stands : ∀ decl, (make decl).nameSpan? = some decl.nameSpan) :
      (decls.map make).filterMap Item.nameSpan? = decls.map (·.nameSpan) := by
    simp [List.filterMap_map, stands]
  rw [standing, List.filterMap_append, List.filterMap_append, List.filterMap_append,
    List.filterMap_flatMap, List.filterMap_flatMap, values _ .var fun _ => rfl,
    values _ .const fun _ => rfl]
  simp only [types, functions]
  simp only [spots, decls, allFunctions, List.flatMap_append, List.flatMap_map, TopDecl.spots,
    ← List.map_eq_flatMap, List.map_append, List.append_assoc]

/-- What a file declares under names, imports apart, stands in it. -/
theorem standing_of_mem_items {file : SourceFile} {item : Item} (declared : item ∈ file.items)
    (proper : item.isOuter = false) : item ∈ file.standing := by
  simp only [items, List.mem_append, List.mem_flatMap, List.mem_map] at declared
  simp only [standing, List.mem_append, List.mem_flatMap, List.mem_cons, List.mem_map]
  rcases declared with ((((((⟨decl, -, rfl⟩ | ⟨decl, held, rfl⟩) | ⟨decl, held, field⟩) |
    ⟨decl, held, method⟩) | ⟨decl, held, rfl⟩) | ⟨decl, held, param, named, rfl⟩) | var) | const
  · cases proper
  · exact Or.inl (Or.inl ⟨decl, held, Or.inl rfl⟩)
  · exact Or.inl (Or.inl ⟨decl, held, Or.inr (Or.inl field)⟩)
  · exact Or.inl (Or.inl ⟨decl, held, Or.inr (Or.inr method)⟩)
  · exact Or.inl (Or.inr ⟨decl, held, Or.inl rfl⟩)
  · exact Or.inl (Or.inr ⟨decl, held, Or.inr ⟨param, (List.mem_filter.mp named).1, rfl⟩⟩)
  · exact Or.inr (Or.inl var)
  · exact Or.inr (Or.inr const)

/-- **What stands at a place stands there alone**, and no walk passes the place. -/
theorem standing_alone {path content : String} {file : SourceFile}
    (parsed : SourceFile.parse path content = .ok file) {item : Item} {span : Span}
    (declared : item ∈ file.standing) (stands : item.nameSpan? = some span) :
    span ∉ file.passes ∧
      ∀ other ∈ file.standing, other.nameSpan? = some span → other = item := by
  obtain ⟨stream, scanned⟩ := stream_of_parse parsed
  obtain ⟨distinct, apart⟩ := spots_of_parse parsed scanned
  rw [spots_eq_standing] at distinct apart
  exact ⟨apart (List.mem_append_left _ (List.mem_filterMap.mpr ⟨item, declared, stands⟩)),
    fun other there stands' => eq_of_nodup_filterMap (List.nodup_append.mp distinct).1 there
      declared stands' stands⟩

end SourceFile

namespace Module

variable {module : Module} {index : Index}

/-- A build that retains everything has a symbol for what a file declares. -/
theorem exists_describes (keyed : ∀ file ∈ module.sourceFiles, file.Keyed)
    (built : (module.index .full).run = .ok (.ok index)) {package : Package}
    (listed : package ∈ module.packageList) {file : SourceFile} (held : file ∈ package.files)
    {item : Item} (declared : item ∈ file.items) :
    ∃ symbol ∈ index.symbols.toList, symbol.Describes ⟨package, file, item⟩ := by
  obtain ⟨order, same, describes⟩ := exists_order_of_symbols keyed (index_spec built).2.1
  have retained : (⟨package, file, item⟩ : Declared) ∈ module.retained .full := by
    refine List.mem_flatMap.mpr ⟨package, listed, List.mem_append_right _ ?_⟩
    refine List.mem_flatMap.mpr ⟨file, List.mem_filter.mpr ⟨held, rfl⟩, ?_⟩
    refine List.mem_map.mpr ⟨item, List.mem_filter.mpr ⟨declared, ?_⟩, rfl⟩
    cases item <;> rfl
  exact exists_mem_of_forall₂ describes (same.mem_iff.mpr retained)

/-- A symbol that can be renamed is that of something that a file declares. -/
theorem exists_item (keyed : ∀ file ∈ module.sourceFiles, file.Keyed)
    (built : (module.index .full).run = .ok (.ok index)) {symbol : Symbol}
    (known : symbol ∈ index.symbols.toList) (renamable : symbol.kind.isRenamable = true) :
    ∃ package ∈ module.packageList, ∃ file ∈ package.files, ∃ item ∈ file.items,
      item.isOuter = false ∧ symbol.Describes ⟨package, file, item⟩ := by
  obtain ⟨order, same, describes⟩ := exists_order_of_symbols keyed (index_spec built).2.1
  obtain ⟨declared, inOrder, shows⟩ := exists_mem_of_forall₂ describes.flip known
  obtain ⟨package, listed, among⟩ := List.mem_flatMap.mp (same.mem_iff.mp inOrder)
  have kind := shows.kind
  rcases List.mem_append.mp among with clause | inFile
  · obtain ⟨file, -, rfl⟩ := List.mem_map.mp clause
    rw [kind] at renamable
    cases renamable
  · obtain ⟨file, retained, inside⟩ := List.mem_flatMap.mp inFile
    obtain ⟨item, held, rfl⟩ := List.mem_map.mp inside
    refine ⟨package, listed, file, (List.mem_filter.mp retained).1, item,
      (List.mem_filter.mp held).1, ?_, shows⟩
    rw [kind] at renamable
    cases item with
    | package | importing => cases renamable
    | _ => rfl

end Module

/-! ## What a build lists first -/

/-- Of two declarations of one file the one in front is a package or import if the other one is. -/
def OuterFirst (front back : String × SymbolKind × String × Span) : Prop :=
  front.1 = back.1 → back.2.1.isRenamable = false → front.2.1.isRenamable = false

/-- Packages and imports are what cannot be renamed. -/
theorem Item.isRenamable_kind (item : Item) : item.kind.isRenamable = !item.isOuter := by
  cases item with
  | type decl =>
    obtain ⟨name, nameSpan, extent, shape, doc⟩ := decl
    cases shape <;> rfl
  | function decl =>
    rw [kind]
    cases decl.receiverTypeName.isSome <;> rfl
  | _ => rfl

/-- A file lists its imports in front. -/
theorem SourceFile.pairwise_listing (file : SourceFile) :
    file.listing.Pairwise fun front back => back.isOuter = true → front.isOuter = true := by
  have split : ∃ others, file.listing =
      (file.imports.filter fun decl => !decl.isDot && !decl.isBlank).map .importing ++ others ∧
        ∀ item ∈ others, item.isOuter = false := by
    have functions (decls : List FuncDecl) :
        ∀ item ∈ decls.flatMap FuncDecl.items, item.isOuter = false := by
      intro item member
      obtain ⟨decl, -, inside⟩ := List.mem_flatMap.mp member
      rcases List.mem_cons.mp inside with rfl | param
      · rfl
      · obtain ⟨param, -, rfl⟩ := List.mem_map.mp param
        rfl
    refine ⟨_, by simp only [listing, List.append_assoc]; rfl, ?_⟩
    refine List.forall_mem_append.mpr ⟨?_, List.forall_mem_append.mpr ⟨functions _,
      List.forall_mem_append.mpr ⟨functions _, List.forall_mem_append.mpr ⟨?_, ?_⟩⟩⟩⟩
    · intro item member
      obtain ⟨decl, -, inside⟩ := List.mem_flatMap.mp member
      rcases List.mem_append.mp inside with front | methods
      · rcases List.mem_append.mp front with front | asked
        · rcases List.mem_cons.mp front with rfl | field
          · rfl
          · obtain ⟨field, -, rfl⟩ := List.mem_map.mp field
            rfl
        · obtain ⟨method, -, rfl⟩ := List.mem_map.mp asked
          rfl
      · exact functions _ item methods
    · exact List.forall_mem_map.mpr fun decl _ => rfl
    · exact List.forall_mem_map.mpr fun decl _ => rfl
  obtain ⟨others, same, proper⟩ := split
  rw [same, List.pairwise_append]
  refine ⟨List.pairwise_of_forall_mem_list ?_, List.pairwise_of_forall_mem_list ?_, ?_⟩
  · rintro front member _ _ -
    obtain ⟨decl, -, rfl⟩ := List.mem_map.mp member
    rfl
  · intro _ _ back member outer
    rw [proper back member] at outer
    cases outer
  · intro _ _ back member outer
    rw [proper back member] at outer
    cases outer

namespace Module

variable {module : Module} {options : IndexOptions}

/-- No two files of a package have one path. -/
theorem nodup_paths_of_package (distinct : (module.sourceFiles.map SourceFile.path).Nodup)
    {package : Package} (listed : package ∈ module.packageList) :
    (package.files.map SourceFile.path).Nodup := by
  unfold sourceFiles at distinct
  rw [List.map_flatMap] at distinct
  exact (List.nodup_flatMap.mp distinct).1 package listed

/-- A package lists what cannot be renamed in front of everything else in its file. -/
theorem pairwise_entries_of_package {package : Package}
    (distinct : (package.files.map SourceFile.path).Nodup) :
    ((Draft.ofPackageFiles options package).flatMap fun (file, drafts) =>
      drafts.filterMap (Draft.keptEntry options file)).Pairwise OuterFirst := by
  have kept {file : SourceFile} {draft : Draft} {entry : String × SymbolKind × String × Span}
      (kept : draft.keptEntry options file = some entry) :
      entry.1 = file.path ∧ entry.2.1 = draft.kind := by
    unfold Draft.keptEntry at kept
    split at kept
    · cases kept
      exact ⟨rfl, rfl⟩
    · cases kept
  have each (file : SourceFile) : ((Draft.ofFile package file).filterMap
      (Draft.keptEntry options file)).Pairwise OuterFirst := by
    refine List.pairwise_filterMap.mpr (pairwise_of_forall₂ Draft.shows_ofFile.flip
      file.pairwise_listing fun item draft item' draft' shows shows' before => ?_)
    intro entry found entry' found' _ outer
    rw [(kept found').2, shows'.kind, Item.isRenamable_kind, Bool.not_eq_false'] at outer
    rw [(kept found).2, shows.kind, Item.isRenamable_kind, before outer]
    rfl
  have apart : (package.files.filter options.retainsFile).Pairwise fun file file' =>
      ∀ entry ∈ (Draft.ofFile package file).filterMap (Draft.keptEntry options file),
        ∀ entry' ∈ (Draft.ofFile package file').filterMap (Draft.keptEntry options file'),
          OuterFirst entry entry' := by
    refine ((List.pairwise_map.mp distinct).sublist List.filter_sublist).imp ?_
    intro file file' different entry member entry' member' same
    obtain ⟨_, -, found⟩ := List.mem_filterMap.mp member
    obtain ⟨_, -, found'⟩ := List.mem_filterMap.mp member'
    rw [(kept found).1, (kept found').1] at same
    exact absurd same different
  unfold Draft.ofPackageFiles
  split
  · exact .nil
  · rename_i first rest retained
    rw [retained] at apart
    rw [List.flatMap_cons, List.flatMap_map, List.pairwise_append]
    refine ⟨?_, List.pairwise_flatMap.mpr ⟨fun file _ => each file, apart⟩, ?_⟩
    · refine List.pairwise_filterMap.mpr (List.pairwise_singleton _ _)
    · intro entry member entry' _ _ _
      obtain ⟨draft, clause, found⟩ := List.mem_filterMap.mp member
      rw [(kept found).2, List.mem_singleton.mp clause]
      rfl

/-- **A build lists what cannot be renamed in front of everything else in its file.** -/
theorem pairwise_entries (keyed : module.packages.Keyed Package.path)
    (distinct : (module.sourceFiles.map SourceFile.path).Nodup) :
    (module.entries options).Pairwise OuterFirst := by
  refine List.pairwise_flatMap.mpr ⟨fun package listed =>
    pairwise_entries_of_package (nodup_paths_of_package distinct listed), ?_⟩
  have home {package : Package} {entry : String × SymbolKind × String × Span}
      (member : entry ∈ (Draft.ofPackageFiles options package).flatMap fun (file, drafts) =>
        drafts.filterMap (Draft.keptEntry options file)) :
      ∃ file ∈ package.files, entry.1 = file.path := by
    obtain ⟨⟨file, drafts⟩, inside, found⟩ := List.mem_flatMap.mp member
    obtain ⟨draft, -, found⟩ := List.mem_filterMap.mp found
    refine ⟨file, (Draft.mem_of_ofPackageFiles inside).1, ?_⟩
    unfold Draft.keptEntry at found
    split at found
    · cases found
      rfl
    · cases found
  refine (List.pairwise_map.mp keyed.nodup).imp_of_mem ?_
  intro package other listed listed' different entry member entry' member' same
  obtain ⟨file, held, path⟩ := home member
  obtain ⟨file', held', path'⟩ := home member'
  exact absurd (congrArg Package.path (package_of_path distinct listed listed' held held'
    (path.symm.trans (same.trans path')))) different

end Module

/-- **What stands last at a place can be renamed** if anything there can. -/
theorem SymbolTable.isRenamable_of_atOrigin {module : Module} {options : IndexOptions}
    (keyed : module.packages.Keyed Package.path)
    (distinct : (module.sourceFiles.map SourceFile.path).Nodup) {table : SymbolTable}
    (drawn : (module.symbols options).run = .ok (.ok table)) {path : String} {span : Span}
    {symbol : Symbol} (found : table.atOrigin path span = some symbol) {other : Symbol}
    (listed : other ∈ table.toList) (here : other.file = path) (stands : other.nameSpan = span)
    (renamable : other.kind.isRenamable = true) : symbol.kind.isRenamable = true := by
  obtain ⟨filed, -, entries, -⟩ := Module.symbols_spec drawn
  obtain ⟨-, path', -⟩ := mem_of_atOrigin filed found
  have ordered : table.toList.Pairwise fun front back => OuterFirst front.entry back.entry := by
    rw [← List.pairwise_map, entries]
    exact Module.pairwise_entries keyed distinct
  rw [atOrigin_eq_getLast? filed] at found
  obtain ⟨front, same⟩ := List.getLast?_eq_some_iff.mp found
  have inside : other ∈ front ++ [symbol] := by
    rw [← same]
    exact List.mem_filter.mpr ⟨listed, by simp [here, stands]⟩
  rcases List.mem_append.mp inside with before | last
  · have order := ordered.filter fun symbol : Symbol =>
      symbol.file == path && symbol.nameSpan == span
    rw [same] at order
    by_contra outer
    have fixed :=
      (List.pairwise_append.mp order).2.2 other before symbol (List.mem_singleton_self _)
      (here.trans path'.symm) (Bool.eq_false_iff.mpr outer)
    rw [show other.entry.2.1 = other.kind from rfl, renamable] at fixed
    cases fixed
  · rwa [← List.mem_singleton.mp last]

/-- **What stands last at the place of a declaration is its symbol.** -/
theorem Module.describes_of_atOrigin {module : Module} {index : Index}
    (scanned : ∀ file ∈ module.sourceFiles, file.Scanned)
    (keyed : module.packages.Keyed Package.path)
    (built : (module.index .full).run = .ok (.ok index))
    {package : Package} (listed : package ∈ module.packageList) {file : SourceFile}
    (held : file ∈ package.files) {item : Item} (declared : item ∈ file.items)
    (proper : item.isOuter = false) {span : Span} (stands : item.nameSpan? = some span)
    {symbol : Symbol} (found : index.symbols.atOrigin file.path span = some symbol) :
    symbol.kind.isRenamable = true ∧ symbol.Describes ⟨package, file, item⟩ := by
  obtain ⟨distinct, drawn, -⟩ := index_spec built
  have named : ∀ file ∈ module.sourceFiles, file.Keyed := fun file inside =>
    SourceFile.keyed_of_parse (scanned file inside)
  have inside : file ∈ module.sourceFiles := List.mem_flatMap.mpr ⟨package, listed, held⟩
  obtain ⟨known, path, place⟩ := SymbolTable.mem_of_atOrigin (symbols_spec drawn).1 found
  obtain ⟨own, listed', describes⟩ := exists_describes named built listed held declared
  have renamable : symbol.kind.isRenamable = true := by
    refine SymbolTable.isRenamable_of_atOrigin keyed distinct drawn found listed' describes.file
      (Option.some.inj (describes.nameSpan.symm.trans stands)) ?_
    rw [describes.kind, Item.isRenamable_kind, proper]
    rfl
  obtain ⟨package', inModule, file', held', item', declared', proper', describes'⟩ :=
    exists_item named built known renamable
  have samePath : file.path = file'.path := path.symm.trans describes'.file
  cases package_of_path distinct listed inModule held held' samePath
  cases List.inj_on_of_nodup_map distinct inside (List.mem_flatMap.mpr ⟨package, listed, held'⟩)
    samePath
  obtain ⟨-, alone⟩ := SourceFile.standing_alone (scanned file inside)
    (SourceFile.standing_of_mem_items declared proper) stands
  cases alone item' (SourceFile.standing_of_mem_items declared' proper')
    (describes'.nameSpan.trans (congrArg some place))
  exact ⟨renamable, describes'⟩

end GoRefactor
