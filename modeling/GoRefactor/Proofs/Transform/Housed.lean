import GoRefactor.Proofs.Module.Sources
import GoRefactor.Proofs.Symbol.Inventory
import GoRefactor.Proofs.Symbol.Sites
import GoRefactor.Proofs.Transform.Discovery
import GoRefactor.Proofs.Transform.Rendered

/-!
# The package behind a planned interface

An interface is planned for a package that does not declare its name, and goes to a file of this
package or to a new one among its files. So a planned interface takes no name that its file has.
-/

namespace GoRefactor

namespace SourceFile

/-- The types of a scanned file have words for names. -/
theorem isWord_of_parse {path content : String} {file : SourceFile}
    (parsed : SourceFile.parse path content = .ok file) {decl : TypeDecl}
    (declared : decl ∈ file.types.values) : Lexeme.IsWord decl.name.toList := by
  obtain ⟨stream, scanned⟩ := stream_of_parse parsed
  obtain ⟨lexemes, -, cut, tokens⟩ := TokenStream.lexemes_of_ofChars? scanned
  let words : Marks := ⟨fun _ => True, fun name _ => Lexeme.IsWord name.toList⟩
  have fixed : file.withoutImports.FixedBy words.guard :=
    fixedBy_withoutImports parsed scanned
      (fun _ _ order => Marks.guard_span_iff.mpr ⟨⟨trivial, trivial, order⟩, rfl⟩)
      fun token member named => Marks.guard_name_iff.mpr
        ⟨(Lexeme.isWord_of_mem_tokensFrom cut (tokens ▸ member) named).1, rfl⟩
  have still := fixed.typeDecl declared
  unfold SpanVisitor.typeDecl at still
  obtain ⟨⟨name, span⟩, named, -⟩ := bind_eq_ok.mp still
  exact (Marks.guard_named_iff.mp named).1

end SourceFile

/-- Among what a file declares, structs are types. -/
theorem SourceFile.struct_of_items {file : SourceFile} {item : Item} (declared : item ∈ file.items)
    (struct : item.kind = .struct) : ∃ decl ∈ file.types.values, item = .type decl := by
  unfold SourceFile.items at declared
  simp only [List.mem_append, List.mem_map, List.mem_flatMap] at declared
  rcases declared with ((((((⟨decl, -, rfl⟩ | ⟨decl, held, rfl⟩) | ⟨decl, -, field, -, rfl⟩) |
    ⟨decl, -, method, -, rfl⟩) | ⟨decl, -, rfl⟩) | ⟨decl, -, param, -, rfl⟩) | ⟨decl, -, rfl⟩) |
    ⟨decl, -, rfl⟩
  case inl.inl.inl.inl.inl.inl.inr => exact ⟨decl, held, rfl⟩
  case inl.inl.inl.inr =>
    rw [Item.kind] at struct
    split at struct <;> cases struct
  all_goals cases struct

namespace Module

variable {module : Module}

/-- The file with the path of a package's file is that file. -/
theorem mem_files_of_path (distinct : module.DistinctPaths) {package : Package}
    (listed : package ∈ module.packageList) {file other : SourceFile}
    (inside : other ∈ package.files)
    (held : module.file? other.path = some file) : file ∈ package.files := by
  have found := file?_path distinct (List.mem_flatMap.mpr ⟨package, listed, inside⟩)
  cases held.symm.trans found
  exact inside

/-- A file in the directory of a package is one of the package. -/
theorem mem_files_of_directory {path : String} {sources : List (String × String)}
    (loaded : ofSources path sources = .ok module) {package : Package}
    (listed : package ∈ module.packageList) {file : SourceFile} (held : file ∈ module.sourceFiles)
    (here : directoryOf file.path = package.directory) : file ∈ package.files := by
  have gathered := gathered_of_ofSources loaded
  obtain ⟨⟨key, package⟩, entry, rfl⟩ := List.mem_map.mp listed
  obtain ⟨owner, listed', inside⟩ := List.mem_flatMap.mp held
  obtain ⟨⟨key', owner⟩, entry', rfl⟩ := List.mem_map.mp listed'
  obtain ⟨directory, named, filled, -, there⟩ := gathered _ entry
  obtain ⟨directory', named', -, -, there'⟩ := gathered _ entry'
  obtain ⟨first, others, files⟩ := List.exists_cons_of_ne_nil filled
  have leads : package.directory = directory := by
    rw [Package.directory, files]
    exact there first (files ▸ List.mem_cons_self)
  have same : directory' = directory := (there' file inside).symm.trans (here.trans leads)
  have keys : key' = key := named'.trans (same ▸ named.symm)
  rw [keys] at entry'
  have found := NameMap.get?_eq_some_iff.mpr entry
  rw [NameMap.get?_eq_some_iff.mpr entry'] at found
  exact Option.some.inj found ▸ inside

/-- Packages with one directory are one. -/
theorem eq_of_directory {path : String} {sources : List (String × String)}
    (loaded : ofSources path sources = .ok module) {package other : Package}
    (listed : package ∈ module.packageList) (listed' : other ∈ module.packageList)
    (same : package.directory = other.directory) : package = other := by
  obtain ⟨⟨key, package⟩, entry, rfl⟩ := List.mem_map.mp listed
  obtain ⟨-, -, filled, -⟩ := gathered_of_ofSources loaded _ entry
  obtain ⟨first, others, files⟩ := List.exists_cons_of_ne_nil filled
  have leads : first ∈ package.files := files ▸ List.mem_cons_self
  have here : directoryOf first.path = package.directory := by
    rw [Package.directory, files]
    rfl
  exact package_of_path (nodup_paths_of_ofSources loaded) listed listed' leads
    (mem_files_of_directory loaded listed' (List.mem_flatMap.mpr ⟨package, listed, leads⟩)
      (here.trans same)) rfl

/-- What is left of a text without its endings is its beginning. -/
theorem dropEndings_isPrefix (ending : List Char) (rounds : Nat) (cs : List Char) :
    (dropEndings ending rounds cs).IsPrefix cs := by
  induction rounds generalizing cs with
  | zero => exact List.prefix_rfl
  | succ rounds ih =>
    rw [dropEndings]
    split
    · exact (ih _).trans (List.take_prefix _ _)
    · exact List.prefix_rfl

/-- The beginning of a word is a word, unless it is empty. -/
theorem isWord_of_isPrefix {name : String} (word : Lexeme.IsWord name.toList) {cs : List Char}
    (front : cs.IsPrefix name.toList) :
    String.ofList cs = "" ∨ Lexeme.IsWord (String.ofList cs).toList := by
  obtain ⟨more, whole⟩ := front
  rw [← whole] at word
  rw [String.toList_ofList]
  cases cs with
  | nil => exact Or.inl rfl
  | cons c cs => exact Or.inr ⟨word.1, fun d member => word.2 d (List.mem_append_left _ member)⟩

/-- Packages are named by the package clause of a file, endings of tests apart. -/
theorem name_of_assemble {path : String} {packages result : NameMap Package}
    {directories : List (String × List SourceFile)} {named : String → Prop} (bare : named "")
    (former : ∀ package ∈ packages.values, named package.name)
    (each : ∀ entry ∈ directories, ∀ file ∈ entry.2, named (dropTestEndings file.packageName))
    (assembled : assemble path packages directories = .ok result) :
    ∀ package ∈ result.values, named package.name := by
  induction directories generalizing packages with
  | nil =>
    cases assembled
    exact former
  | cons entry rest ih =>
    obtain ⟨directory, files⟩ := entry
    obtain ⟨here, others⟩ := List.forall_mem_cons.mp each
    rw [assemble] at assembled
    split at assembled
    · cases assembled
    · rename_i name given
      refine ih (fun package listed => ?_) others assembled
      rcases NameMap.mem_values_insert listed with rfl | old
      · unfold packageName at given
        simp only at given
        split at given
        · cases given
        · rw [← Except.ok.inj given]
          cases chosen : (files.filter fun file => !file.isTest).head? with
          | some file =>
            rw [List.head?_map, chosen]
            exact here file (List.mem_filter.mp (List.mem_of_mem_head? chosen)).1
          | none =>
            rw [List.head?_map, chosen]
            cases first : files.head? with
            | some file => exact here file (List.mem_of_mem_head? first)
            | none => exact bare
      · exact former package old

/-- The name of a package is a word, or there is none. -/
theorem isWord_packageName {path : String} {sources : List (String × String)}
    (loaded : ofSources path sources = .ok module) {package : Package}
    (listed : package ∈ module.packageList) :
    package.name = "" ∨ Lexeme.IsWord package.name.toList := by
  let named (name : String) : Prop := name = "" ∨ Lexeme.IsWord name.toList
  have clause : ∀ source ∈ sources, ∀ file, SourceFile.parse source.1 source.2 = .ok file →
      named (dropTestEndings file.packageName) := by
    intro source _ file parsed
    obtain ⟨lexemes, laid⟩ := SourceFile.laidOut_of_parse parsed
    exact isWord_of_isPrefix laid.package (dropEndings_isPrefix _ _ _)
  unfold ofSources at loaded
  cases sorted : scanInto ∅ [] sources with
  | error error =>
    rw [sorted] at loaded
    cases loaded
  | ok directories =>
    simp only [sorted] at loaded
    have all := allFiles_scanInto (fun _ listed => by cases listed) clause sorted
    cases assembled : assemble path ∅ directories.entries with
    | error error =>
      rw [assembled] at loaded
      cases loaded
    | ok packages =>
      rw [assembled] at loaded
      cases loaded
      exact name_of_assemble (Or.inl rfl) (fun _ listed => by cases listed)
        (fun entry member => all entry.2 (List.mem_map_of_mem member)) assembled package listed

/-- A struct among the symbols is a type in a retained file of its package. -/
theorem struct_of_symbols {options : IndexOptions} {table : SymbolTable}
    (keyed : ∀ file ∈ module.sourceFiles, file.Keyed)
    (drawn : (module.symbols options).run = .ok (.ok table)) {symbol : Symbol}
    (member : symbol ∈ table.toList) (struct : symbol.kind = .struct) :
    ∃ package ∈ module.packageList, ∃ file ∈ package.files, ∃ decl ∈ file.types.values,
      options.retainsFile file = true ∧ symbol.package = package.path ∧
      symbol.file = file.path ∧ symbol.name = decl.name := by
  obtain ⟨order, same, describes, -⟩ := symbols_match_retained keyed drawn
  obtain ⟨declared, listed, one⟩ := exists_mem_of_forall₂ describes.flip member
  obtain ⟨package, inside, retained⟩ := List.mem_flatMap.mp (same.mem_iff.mp listed)
  rcases List.mem_append.mp retained with clause | items
  · obtain ⟨file, -, rfl⟩ := List.mem_map.mp clause
    cases struct.symm.trans one.kind
  · obtain ⟨file, kept, held⟩ := List.mem_flatMap.mp items
    obtain ⟨item, declares, rfl⟩ := List.mem_map.mp held
    obtain ⟨owned, taken⟩ := List.mem_filter.mp kept
    obtain ⟨decl, there, rfl⟩ := SourceFile.struct_of_items (List.mem_filter.mp declares).1
      (one.kind.symm.trans struct)
    exact ⟨package, inside, file, owned, decl, there, taken, one.package, one.file,
      (Option.some.inj one.name).symm⟩

end Module

/-- The interface that is planned is one that its file can take: it is the text of a method set
under a name that can be declared, a new file gets the name of a package, and a file that is there
does not declare the name. -/
structure PlannedInterface.Fits (module : Module) (planned : PlannedInterface) : Prop where
  valid : nameFlaw? planned.name = none
  rendered : ∃ pattern : MethodPattern, pattern.OnOneLine ∧
    planned.rendered = renderInterface planned.name pattern
  clause : ∀ key, planned.placement = .create key → ∃ package ∈ module.packageList,
    planned.change.after = "package " ++ package.name ++ "\n\n" ++ planned.rendered
  free : ∀ file, module.file? planned.change.file = some file →
    file.declares planned.name = false

namespace ExtractionOptions

variable {options : ExtractionOptions} {naming : MethodPattern → String} {module : Module}

/-- The interface is planned for a method set: the first of its structs leads to a package and a
file, and the package does not declare the name. -/
structure PlannedFor (options : ExtractionOptions) (naming : MethodPattern → String)
    (module : Module) (target : ExtractionTarget) (pattern : MethodPattern) (first : Implementer)
    (package : Package) (interface : PlannedInterface) : Prop where
  leads : pattern.implementers.head? = some first
  named : interface.name = options.interfaceName.getD (naming pattern)
  rendered : interface.rendered = renderInterface interface.name pattern
  held : module.package? (target.package.getD first.package) = some package
  free : package.declares interface.name = false
  aimed : options.targetPath target package first interface.name = .ok interface.change.file
  placed : ∃ existing, interface =
    placed package interface.change.file interface.name interface.rendered existing

/-- An interface that is placed for a method set is planned for it. -/
theorem plannedFor_placed {target : ExtractionTarget} {pattern : MethodPattern}
    {first : Implementer} {package : Package} {path : String}
    (leads : pattern.implementers.head? = some first)
    (held : module.package? (target.package.getD first.package) = some package)
    (free : package.declares (options.interfaceName.getD (naming pattern)) = false)
    (aimed : options.targetPath target package first
      (options.interfaceName.getD (naming pattern)) = .ok path) (existing : Option String) :
    options.PlannedFor naming module target pattern first package
      (placed package path (options.interfaceName.getD (naming pattern))
        (renderInterface (options.interfaceName.getD (naming pattern)) pattern) existing) := by
  cases existing with
  | none => exact ⟨leads, rfl, rfl, held, free, aimed, none, rfl⟩
  | some content => exact ⟨leads, rfl, rfl, held, free, aimed, some content, rfl⟩

/-- **What is planned, is planned for one of the method sets.** -/
theorem exists_plannedFor {target : ExtractionTarget} {patterns : List MethodPattern}
    {state : Extraction}
    (folded : patterns.foldlM (options.planPattern naming module target) {} = .ok state) :
    ∀ interface ∈ state.interfaces, ∃ pattern ∈ patterns, ∃ first package,
      options.PlannedFor naming module target pattern first package interface := by
  refine foldlM_keeps_of_mem (fun state : Extraction => ∀ interface ∈ state.interfaces,
    ∃ pattern ∈ patterns, ∃ first package,
      options.PlannedFor naming module target pattern first package interface)
    patterns {} state (fun state pattern member next known stepped => ?_)
    (fun _ none => nomatch none) folded
  rcases planPattern_cases stepped with
    ⟨-, warnings, rfl⟩ | ⟨first, package, path, leads, held, free, -, aimed, rfl⟩
  · exact known
  · exact List.forall_mem_cons.mpr
      ⟨⟨pattern, member, first, package, plannedFor_placed leads held free aimed _⟩, known⟩

/-- What is planned has a name that can be declared, as long as method sets get such names. -/
theorem PlannedFor.nameFlaw?_eq_none {target : ExtractionTarget} {pattern : MethodPattern}
    {first : Implementer} {package : Package} {interface : PlannedInterface}
    (plans : options.PlannedFor naming module target pattern first package interface)
    (valid : options.validate = .ok ()) (named : ∀ pattern, nameFlaw? (naming pattern) = none) :
    nameFlaw? interface.name = none := by
  rw [plans.named]
  cases given : options.interfaceName with
  | none => exact named pattern
  | some name => exact nameFlaw?_of_validate valid name given

/-- A file that interfaces are to go to is one of the package that gets them. -/
theorem target_spec {target : ExtractionTarget}
    (aimed : (options.target module).run = .ok (.ok target)) :
    target.file = options.targetFile ∧ ∀ path ∈ target.file, ∃ owner ∈ module.packageList,
      owner.owns path = true ∧ target.package = some owner.path := by
  unfold ExtractionOptions.target at aimed
  obtain ⟨package, -, aimed⟩ := Attempt.run_bind_eq_ok.mp aimed
  split at aimed
  · rename_i asked
    cases aimed
    exact ⟨asked.symm, fun _ none => nomatch none⟩
  · rename_i path asked
    split at aimed
    · cases aimed
    · rename_i owner found
      split at aimed
      · rename_i agrees
        cases aimed
        refine ⟨asked.symm, ?_⟩
        rintro _ ⟨⟩
        have owns := List.find?_some found
        refine ⟨owner, List.mem_of_find?_eq_some found, owns, ?_⟩
        cases package with
        | none => rfl
        | some path => exact congrArg some (eq_of_beq agrees)
      · cases aimed

/-- The structs of method sets are types in retained files of their packages. -/
theorem struct_of_discover {choice : IndexOptions} {index : Index} {patterns : List MethodPattern}
    (keyed : ∀ file ∈ module.sourceFiles, file.Keyed)
    (built : (module.index choice).run = .ok (.ok index)) (valid : options.validate = .ok ())
    (found : discover index options = .ok patterns) {pattern : MethodPattern}
    (member : pattern ∈ patterns) {struct : Implementer} (among : struct ∈ pattern.implementers) :
    ∃ package ∈ module.packageList, ∃ file ∈ package.files, ∃ decl ∈ file.types.values,
      choice.retainsFile file = true ∧ struct = ⟨decl.name, package.path, file.path⟩ := by
  obtain ⟨excludes, others, -, found', clusters⟩ := discover_clusters built valid
  cases found.symm.trans found'
  obtain ⟨⟨first, -, filed⟩, -⟩ := (clusters.returned pattern).mp member
  rw [(keyPattern?_eq_some filed).2] at among
  obtain ⟨symbol, shares, rfl⟩ := List.mem_map.mp among
  obtain ⟨survives, -⟩ := mem_sharing_iff.mp shares
  obtain ⟨listed, isStruct, -⟩ := mem_candidates_iff.mp survives
  obtain ⟨package, inside, file, owned, decl, there, retained, same, path, name⟩ :=
    Module.struct_of_symbols keyed (Module.index_spec built).2.1 listed isStruct
  refine ⟨package, inside, file, owned, decl, there, retained, ?_⟩
  rw [Symbol.implementer, same, path, name]

/-- The names of the structs of a method set stand on one line. -/
theorem onOneLine_of_discover (scanned : ∀ file ∈ module.sourceFiles, file.Scanned)
    {choice : IndexOptions} {index : Index} {patterns : List MethodPattern}
    (built : (module.index choice).run = .ok (.ok index)) (valid : options.validate = .ok ())
    (found : discover index options = .ok patterns) {pattern : MethodPattern}
    (member : pattern ∈ patterns) : pattern.OnOneLine := by
  intro struct among
  obtain ⟨package, listed, file, owned, decl, there, -, rfl⟩ := struct_of_discover
    (fun file held => SourceFile.keyed_of_parse (scanned file held)) built valid found member among
  exact Lexeme.unbroken_of_isWord (SourceFile.isWord_of_parse
    (scanned file (List.mem_flatMap.mpr ⟨package, listed, owned⟩)) there)

/-- An interface goes to a file of the package that gets it, or to its directory. -/
theorem PlannedFor.aims {path : String} {sources : List (String × String)}
    (loaded : Module.ofSources path sources = .ok module) {target : ExtractionTarget}
    (asked : (options.target module).run = .ok (.ok target)) {pattern : MethodPattern}
    {first : Implementer} {package : Package} {interface : PlannedInterface}
    (known : ∃ owner ∈ module.packageList, ∃ file ∈ owner.files,
      first.package = owner.path ∧ first.file = file.path)
    (valid : nameFlaw? interface.name = none)
    (plans : options.PlannedFor naming module target pattern first package interface) :
    (∃ file ∈ package.files, file.path = interface.change.file) ∨
      directoryOf interface.change.file = package.directory := by
  have addressed := Module.addressed_of_ofSources loaded
  have listed : package ∈ module.packageList := NameMap.mem_values_of_get? plans.held
  have only {other : Package} (member : other ∈ module.packageList)
      (same : other.path = package.path) : other = package := by
    have found := addressed.package?_eq_some member
    rw [same, addressed.package?_eq_some listed] at found
    exact (Option.some.inj found).symm
  have aimed := plans.aimed
  unfold targetPath at aimed
  split at aimed
  · rename_i given
    cases aimed
    obtain ⟨owner, member, owns, led⟩ := (target_spec asked).2 _ given
    obtain ⟨other, inside, there⟩ := List.any_eq_true.mp owns
    have same : owner = package := by
      have found := plans.held
      rw [led, Option.getD_some, addressed.package?_eq_some member] at found
      exact Option.some.inj found
    exact Or.inl ⟨other, same ▸ inside, eq_of_beq there⟩
  · split at aimed
    · -- The file is named after the interface, in the directory of the package.
      have clean : '/' ∉ (Naming.snakeCase interface.name ++ sourceSuffix).toList := fun slash =>
        ((Naming.isPlainName_snakeCase valid).clean '/' slash).1 rfl
      refine Or.inr ?_
      rw [← Except.ok.inj aimed]
      split
      · rename_i root
        exact (directoryOf_name clean).trans (String.isEmpty_iff.mp root).symm
      · exact directoryOf_below _ clean
    · split at aimed
      · rename_i own
        obtain ⟨owner, member, other, inside, led, there⟩ := known
        have same := only member (led.symm.trans (eq_of_beq own))
        exact Or.inl ⟨other, same ▸ inside, there.symm.trans (Except.ok.inj aimed)⟩
      · split at aimed
        · rename_i other found
          exact Or.inl ⟨other, List.mem_of_find?_eq_some found, Except.ok.inj aimed⟩
        · cases aimed

end ExtractionOptions

/-- The interface is at home in the package, which does not declare its name. -/
structure PlannedInterface.AtHome (module : Module) (package : Package)
    (planned : PlannedInterface) : Prop where
  /-- It is a package of the module. -/
  listed : package ∈ module.packageList
  /-- The name is free there. -/
  free : package.declares planned.name = false
  /-- It goes to one of its files, or to its directory. -/
  aims : (∃ file ∈ package.files, file.path = planned.change.file) ∨
    directoryOf planned.change.file = package.directory
  /-- A new file is made in it. -/
  created : ∀ key, planned.placement = .create key → key = package.path

namespace PlannedInterface.AtHome

variable {module : Module} {path : String} {sources : List (String × String)} {package : Package}
  {planned : PlannedInterface}

/-- **The file that an interface goes to, if there is one, is of the package that does not declare
its name.** -/
theorem housed (home : planned.AtHome module package)
    (loaded : Module.ofSources path sources = .ok module) {file : SourceFile}
    (held : module.file? planned.change.file = some file) : file ∈ package.files := by
  rcases home.aims with ⟨other, inside, there⟩ | here
  · rw [← there] at held
    exact Module.mem_files_of_path (Module.nodup_paths_of_ofSources loaded) home.listed inside held
  · obtain ⟨member, there⟩ := Module.mem_of_file? held
    exact Module.mem_files_of_directory loaded home.listed member (there ▸ here)

/-- **Interfaces that go to one file are at home in one package.** -/
theorem unique (home : planned.AtHome module package)
    (loaded : Module.ofSources path sources = .ok module) {other : PlannedInterface}
    {owner : Package} (home' : other.AtHome module owner)
    (same : other.change.file = planned.change.file) : owner = package := by
  have distinct : module.DistinctPaths := Module.nodup_paths_of_ofSources loaded
  cases held : module.file? planned.change.file with
  | some file =>
    exact Module.package_of_path distinct home'.listed home.listed
      (home'.housed loaded (same ▸ held)) (home.housed loaded held) rfl
  | none =>
    have new {package : Package} {planned : PlannedInterface} (home : planned.AtHome module package)
        (absent : module.file? planned.change.file = none) :
        directoryOf planned.change.file = package.directory := by
      rcases home.aims with ⟨file, inside, there⟩ | here
      · rw [← there, Module.file?_path distinct
          (List.mem_flatMap.mpr ⟨package, home.listed, inside⟩)] at absent
        cases absent
      · exact here
    refine Module.eq_of_directory loaded home'.listed home.listed ?_
    rw [← new home' (same ▸ held), ← new home held, same]

end PlannedInterface.AtHome

namespace ExtractionOptions

variable {options : ExtractionOptions} {naming : MethodPattern → String} {module : Module}
  {path : String} {sources : List (String × String)}

/-- What is planned for a method set is at home in the package that it was planned for, as long as
it has a name that can be declared. -/
theorem PlannedFor.atHome (loaded : Module.ofSources path sources = .ok module)
    (valid : options.validate = .ok ()) {target : ExtractionTarget} {choice : IndexOptions}
    {index : Index} {patterns : List MethodPattern}
    (asked : (options.target module).run = .ok (.ok target))
    (built : (module.index choice).run = .ok (.ok index))
    (found : discover index options = .ok patterns) {pattern : MethodPattern}
    (discovered : pattern ∈ patterns) {first : Implementer} {package : Package}
    {interface : PlannedInterface} (named : nameFlaw? interface.name = none)
    (plans : options.PlannedFor naming module target pattern first package interface) :
    interface.AtHome module package := by
  have scanned := Module.scanned_of_ofSources loaded
  obtain ⟨owner, listed, file, inside, decl, -, -, leads⟩ := struct_of_discover
    (fun file held => SourceFile.keyed_of_parse (scanned file held)) built valid found discovered
    (List.mem_of_head? plans.leads)
  refine ⟨NameMap.mem_values_of_get? plans.held, plans.free, ?_, fun key created => ?_⟩
  · exact plans.aims loaded asked ⟨owner, listed, file, inside, by rw [leads], by rw [leads]⟩ named
  · obtain ⟨existing, same⟩ := plans.placed
    rw [same] at created
    cases existing with
    | some text => cases created
    | none => exact (Placement.create.inj created).symm

/-- **What is planned fits, and is at home**, as long as interfaces have names that can be
declared. -/
theorem fits_of_plan (loaded : Module.ofSources path sources = .ok module)
    (named : ∀ pattern, nameFlaw? (naming pattern) = none) {plan : ExtractionPlan}
    (planned : (options.plan naming module).run = .ok (.ok plan)) :
    ∀ interface ∈ plan.interfaces,
      interface.Fits module ∧ ∃ package, interface.AtHome module package := by
  obtain ⟨valid, target, index, patterns, state, asked, built, found, folded, rfl⟩ :=
    plan_eq_ok.mp planned
  have scanned := Module.scanned_of_ofSources loaded
  intro interface member
  obtain ⟨pattern, discovered, first, package, plans⟩ :=
    exists_plannedFor folded interface (List.mem_reverse.mp member)
  have flawless := plans.nameFlaw?_eq_none valid named
  have home := plans.atHome loaded valid asked built found discovered flawless
  refine ⟨⟨flawless, ⟨pattern, onOneLine_of_discover scanned built valid found discovered,
    plans.rendered⟩, fun key created => ?_, fun file held => ?_⟩, package, home⟩
  · obtain ⟨existing, same⟩ := plans.placed
    rw [same] at created ⊢
    cases existing with
    | some text => cases created
    | none => exact ⟨package, NameMap.mem_values_of_get? plans.held, rfl⟩
  · have free := plans.free
    rw [Package.declares, List.any_eq_false] at free
    simpa using free file (home.housed loaded held)

end ExtractionOptions

end GoRefactor
