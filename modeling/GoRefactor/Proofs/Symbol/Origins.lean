import GoRefactor.Proofs.Go.Parser.Places
import GoRefactor.Proofs.Symbol.ItemAt
import GoRefactor.Proofs.Symbol.Lookups

/-!
# Symbols by their places

In files that were read everything declared stands at a place of its own, packages and imports
included. So no two symbols of a build share file and place, and looking a symbol up by its place
gives that symbol.
-/

namespace GoRefactor

namespace SourceFile

open List

/-- What a file declares apart from imports. -/
def ownItems (file : SourceFile) : List Item :=
  file.types.values.map .type ++
    ((file.types.values.flatMap fun decl =>
        (decl.fields.filter fun field => !field.embedded).map (.field decl)) ++
      (file.types.values.flatMap fun decl => decl.interfaceMethods.map (.interfaceMethod decl))) ++
    (file.allFunctions.map .function ++
      (file.allFunctions.flatMap fun decl =>
        (decl.allParams.filter Param.isNamed).map (.param decl))) ++
    (file.vars.values.map .var ++ file.consts.values.map .const)

/-- What a file declares are its imports and the rest. -/
theorem items_eq_append (file : SourceFile) :
    file.items = (file.imports.filter fun decl => !decl.isDot && !decl.isBlank).map .importing ++
      file.ownItems := by
  simp only [items, ownItems, append_assoc]

/-- What a file declares apart from imports stands in it. -/
theorem ownItems_subperm (file : SourceFile) : file.ownItems <+~ file.standing := by
  have types := flatMap_append_perm file.types.values
    (fun decl => (decl.fields.filter fun field => !field.embedded).map (Item.field decl))
    (fun decl => decl.interfaceMethods.map (Item.interfaceMethod decl))
  have members := (types.append_left (file.types.values.map Item.type)).trans
    (map_append_flatMap_perm _ _ _)
  have named : (file.allFunctions.flatMap fun decl =>
      (decl.allParams.filter Param.isNamed).map (Item.param decl)) <+
        file.allFunctions.flatMap fun decl => decl.allParams.map (.param decl) :=
    Sublist.flatMap_right _ fun decl _ => filter_sublist.map _
  have functions := (named.append_left (file.allFunctions.map Item.function)).subperm.trans
    (map_append_flatMap_perm file.allFunctions Item.function
      fun decl => decl.allParams.map (Item.param decl)).subperm
  exact (members.subperm.append functions).append (Subperm.refl _)

/-- What a file declares stands at its places. -/
theorem itemSpans_subperm (file : SourceFile) :
    file.items.filterMap Item.nameSpan? <+~ file.places := by
  have imports : ((file.imports.filter fun decl => !decl.isDot && !decl.isBlank).map
      Item.importing).filterMap Item.nameSpan? <+ file.imports.flatMap Import.spots := by
    rw [filterMap_map]
    induction file.imports with
    | nil => exact Sublist.refl _
    | cons decl rest ih =>
      rw [flatMap_cons, filter_cons]
      by_cases dot : decl.isDot = true
      · simpa [dot, Import.spots] using ih
      · by_cases blank : decl.isBlank = true
        · simpa [dot, blank] using ih.trans (sublist_append_right _ _)
        · have here : decl.spots = [decl.nameSpan] := by rw [Import.spots, if_neg dot]
          simp only [dot, blank, Bool.not_false, Bool.and_self, if_true, here]
          exact ih.cons_cons decl.nameSpan
  obtain ⟨kept, same, fewer⟩ := file.ownItems_subperm
  have standing : file.standing.filterMap Item.nameSpan? <+ file.spots := by
    rw [spots_eq_standing]
    exact sublist_append_left _ _
  have members :
      file.ownItems.filterMap Item.nameSpan? <+~ file.standing.filterMap Item.nameSpan? :=
    ⟨_, same.filterMap Item.nameSpan?, fewer.filterMap _⟩
  rw [items_eq_append, filterMap_append]
  exact imports.subperm.append (members.trans standing.subperm)

end SourceFile

/-! ## Addresses -/

/-- File and place of a name. -/
def Declared.address (declared : Declared) : String × Option Span :=
  (declared.file.path, declared.item.nameSpan?)

/-- Files and places of all names that a file declares, its package first. -/
def SourceFile.addresses (file : SourceFile) : List (String × Option Span) :=
  (some file.packageSpan :: file.items.map Item.nameSpan?).map (file.path, ·)

/-- Everything that a file declares has a place. -/
theorem SourceFile.map_nameSpan?_items (file : SourceFile) :
    file.items.map Item.nameSpan? = (file.items.filterMap Item.nameSpan?).map some := by
  have placed : ∀ item ∈ file.items, item.nameSpan?.isSome = true := by
    intro item member
    cases item with
    | param owner param =>
      simp only [items, List.mem_append, List.mem_flatMap, List.mem_map] at member
      rcases member with ((((((⟨_, -, same⟩ | ⟨_, -, same⟩) | ⟨_, -, _, -, same⟩) |
        ⟨_, -, _, -, same⟩) | ⟨_, -, same⟩) | ⟨_, -, _, named, same⟩) | ⟨_, -, same⟩) | ⟨_, -, same⟩
      all_goals cases same
      exact (Bool.and_eq_true_iff.mp (List.mem_filter.mp named).2).2
    | _ => rfl
  generalize file.items = members at placed ⊢
  induction members with
  | nil => rfl
  | cons item rest ih =>
    obtain ⟨here, others⟩ := List.forall_mem_cons.mp placed
    obtain ⟨span, stands⟩ := Option.isSome_iff_exists.mp here
    rw [List.map_cons, List.filterMap_cons_some stands, List.map_cons, ih others, stands]

/-- No two names of a file that was read have one address. -/
theorem SourceFile.nodup_addresses {file : SourceFile} (scanned : file.Scanned) :
    file.addresses.Nodup := by
  obtain ⟨stream, cut⟩ := stream_of_parse scanned
  have distinct := places_of_parse scanned cut
  have spans : (file.packageSpan :: file.items.filterMap Item.nameSpan?).Nodup := by
    obtain ⟨kept, same, fewer⟩ := file.itemSpans_subperm
    exact (same.cons _).nodup_iff.mp (distinct.sublist (fewer.cons_cons _))
  have whole : file.addresses = (file.packageSpan :: file.items.filterMap Item.nameSpan?).map
      fun span => (file.path, some span) := by
    rw [addresses, map_nameSpan?_items, List.map_cons, List.map_cons, List.map_map]
    rfl
  rw [whole]
  refine spans.map fun span other same => ?_
  exact Option.some.inj (Prod.mk.inj same).2

namespace Module

variable {module : Module} {options : IndexOptions} {index : Index}

/-- What a module retains is some of what its files declare. -/
theorem addresses_sublist (module : Module) (options : IndexOptions) :
    ((module.retained options).map Declared.address).Sublist
      (module.sourceFiles.flatMap SourceFile.addresses) := by
  have package (package : Package) : ((package.retained options).map Declared.address).Sublist
      (package.files.flatMap SourceFile.addresses) := by
    have files := (List.filter_sublist (p := options.retainsFile) (l := package.files)).flatMap
      SourceFile.addresses
    refine List.Sublist.trans ?_ files
    have items (file : SourceFile) : (((file.items.filter options.retainsItem).map
        fun item => (⟨package, file, item⟩ : Declared)).map Declared.address).Sublist
          ((file.items.map Item.nameSpan?).map (file.path, ·)) := by
      rw [List.map_map, List.map_map]
      exact List.filter_sublist.map _
    have others (rest : List SourceFile) : ((rest.flatMap fun file =>
        (file.items.filter options.retainsItem).map fun item =>
          (⟨package, file, item⟩ : Declared)).map Declared.address).Sublist
            (rest.flatMap SourceFile.addresses) := by
      rw [List.map_flatMap]
      exact List.Sublist.flatMap_right _ fun file _ => (items file).cons _
    unfold Package.retained
    cases package.files.filter options.retainsFile with
    | nil => exact List.Sublist.refl _
    | cons first rest =>
      have listed := ((items first).append (others rest)).cons_cons
        (first.path, some first.packageSpan)
      rw [← List.map_append] at listed
      exact listed
  unfold retained sourceFiles
  rw [List.map_flatMap, List.flatMap_assoc]
  exact List.Sublist.flatMap_right _ fun one _ => package one

/-- **No two symbols share file and place** in a module that was read. -/
theorem nodup_origins (scanned : ∀ file ∈ module.sourceFiles, file.Scanned)
    (built : (module.index options).run = .ok (.ok index)) :
    (index.symbols.toList.map fun symbol => (symbol.file, symbol.nameSpan)).Nodup := by
  obtain ⟨distinct, drawn, -⟩ := index_spec built
  obtain ⟨order, same, describes⟩ := exists_order_of_symbols
    (fun file held => SourceFile.keyed_of_parse (scanned file held)) drawn
  have files : (module.sourceFiles.flatMap SourceFile.addresses).Nodup := by
    refine List.nodup_flatMap.mpr
      ⟨fun file held => SourceFile.nodup_addresses (scanned file held), ?_⟩
    refine (List.pairwise_map.mp distinct).imp fun {file other} apart address here there => ?_
    obtain ⟨_, -, rfl⟩ := List.mem_map.mp here
    obtain ⟨_, -, equal⟩ := List.mem_map.mp there
    exact apart (Prod.mk.inj equal).1.symm
  have retained := files.sublist (addresses_sublist module options)
  have ordered : (order.map Declared.address).Nodup := (same.map _).nodup_iff.mpr retained
  have addressed : (index.symbols.toList.map fun symbol => (symbol.file, some symbol.nameSpan)) =
      order.map Declared.address :=
    (map_eq_map_of_forall₂ _ _ (fun symbol declared shows =>
      Prod.ext shows.file.symm shows.nameSpan) describes).symm
  rw [← addressed] at ordered
  have paired : (index.symbols.toList.map fun symbol => (symbol.file, some symbol.nameSpan)) =
      (index.symbols.toList.map fun symbol => (symbol.file, symbol.nameSpan)).map
        fun origin => (origin.1, some origin.2) := by
    rw [List.map_map]
    rfl
  rw [paired] at ordered
  exact List.Nodup.of_map _ ordered

/-- The symbol at the place of a symbol is that symbol. -/
theorem atOrigin_of_symbol (scanned : ∀ file ∈ module.sourceFiles, file.Scanned)
    (built : (module.index options).run = .ok (.ok index)) {symbol : Symbol}
    (known : symbol ∈ index.symbols.toList) :
    index.symbols.atOrigin symbol.file symbol.nameSpan = some symbol := by
  obtain ⟨-, drawn, -⟩ := index_spec built
  obtain ⟨filed, -, -, -⟩ := symbols_spec drawn
  have distinct := nodup_origins scanned built
  rw [SymbolTable.atOrigin_eq_getLast? filed]
  have among : symbol ∈ index.symbols.toList.filter fun other =>
      other.file == symbol.file && other.nameSpan == symbol.nameSpan :=
    List.mem_filter.mpr ⟨known, by simp⟩
  cases last : (index.symbols.toList.filter fun other =>
      other.file == symbol.file && other.nameSpan == symbol.nameSpan).getLast? with
  | none =>
    rw [List.getLast?_eq_none_iff.mp last] at among
    cases among
  | some other =>
    obtain ⟨listed, same⟩ := List.mem_filter.mp (List.mem_of_getLast? last)
    rw [Bool.and_eq_true, beq_iff_eq, beq_iff_eq] at same
    rw [List.inj_on_of_nodup_map distinct listed known (Prod.ext same.1 same.2)]

/-- **Lookups of an index are scans.** Every query returns the symbols that match, by increasing
number or, in a file, by position; the counts that are reported are sizes; and in a module that was
built from source text a symbol is found at the place of its name. -/
theorem index_scans (built : (module.index options).run = .ok (.ok index)) :
    index.Scans ∧ Report.stats index = index.sizes module ∧
      ∀ path sources, ofSources path sources = .ok module → ∀ symbol ∈ index.symbols.toList,
        index.symbols.atOrigin symbol.file symbol.nameSpan = some symbol :=
  ⟨scans_of_index built, stats_of_index built, fun _ _ loaded _ known =>
    atOrigin_of_symbol (scanned_of_ofSources loaded) built known⟩

/-- Imports with and without an alias, and parameters whose types are laid out differently. -/
def spreadTypes : List (String × String) :=
  [("p.go", "package p\n\nimport (\n\tq \"x/q\"\n\t\"y/r\"\n)\n\n" ++
    "func f(a, b map[int]  string, c map[int]\tstring) \x7b\x7d\n\nfunc q() \x7b\x7d\n")]

/-- Each symbol is found at its place, and types are found whatever their layout. -/
theorem index_scans_spreadTypes :
    ∃ module index, ofSources "m" spreadTypes = .ok module ∧
      (module.index .full).run = .ok (.ok index) ∧ index.Scans ∧
      Report.stats index = index.sizes module ∧
      (∀ symbol ∈ index.symbols.toList,
        index.symbols.atOrigin symbol.file symbol.nameSpan = some symbol) ∧
      index.symbols.toList.map (·.name) = ["p", "q", "r", "f", "a", "b", "c", "q"] ∧
      (index.symbols.withDeclaredType "map[int] string").map (·.name) = ["a", "b", "c"] := by
  have evaluated : checkOk (ofSources "m" spreadTypes) (fun module =>
      checkOk (module.index .full).run fun ending => checkOk ending fun index =>
        decide (index.symbols.toList.map (·.name) = ["p", "q", "r", "f", "a", "b", "c", "q"]) &&
          decide ((index.symbols.withDeclaredType "map[int] string").map (·.name) =
            ["a", "b", "c"])) = true := by
    decide +kernel
  obtain ⟨module, loaded, checked⟩ := exists_of_checkOk evaluated
  obtain ⟨ending, built, ended⟩ := exists_of_checkOk checked
  obtain ⟨index, rfl, found⟩ := exists_of_checkOk ended
  obtain ⟨names, typed⟩ := Bool.and_eq_true_iff.mp found
  obtain ⟨scans, counts, origins⟩ := index_scans built
  exact ⟨module, index, loaded, built, scans, counts, origins _ _ loaded, of_decide_eq_true names,
    of_decide_eq_true typed⟩

end Module

end GoRefactor
