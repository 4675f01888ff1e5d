import GoRefactor.Proofs.Attempt
import GoRefactor.Proofs.Module.Files
import GoRefactor.Symbol.Index

/-!
# What a build records

The symbols and references of a successful build, said without the build. Symbols are the retained
declarations in the order in which they are listed. References are the uses that stand for a
symbol, in the order of the walk, apart from those that touch the declared name. Numbers are
positions in these two lists.
-/

namespace GoRefactor

/-! ## Paths that do not repeat -/

/-- No name is repeated exactly when the names are distinct and none is among those seen. -/
theorem firstRepeated?_eq_none_iff {seen names : List String} :
    firstRepeated? seen names = none ↔ names.Nodup ∧ ∀ name ∈ names, name ∉ seen := by
  induction names generalizing seen with
  | nil => simp [firstRepeated?]
  | cons head rest ih =>
    rw [firstRepeated?]
    by_cases met : head ∈ seen
    · rw [if_pos (List.contains_iff_mem.mpr met)]
      constructor
      · intro given
        cases given
      · rintro ⟨-, apart⟩
        exact absurd met (apart head List.mem_cons_self)
    · rw [if_neg (fun given => met (List.contains_iff_mem.mp given)), ih, List.nodup_cons]
      simp only [List.mem_cons, forall_eq_or_imp, not_or]
      constructor
      · rintro ⟨distinct, apart⟩
        exact ⟨⟨fun again => (apart head again).1 rfl, distinct⟩, met, fun name member =>
          (apart name member).2⟩
      · rintro ⟨⟨fresh, distinct⟩, -, apart⟩
        refine ⟨distinct, fun name member => ⟨?_, apart name member⟩⟩
        rintro rfl
        exact fresh member

/-! ## Symbols -/

/-- What tells symbols apart: file, kind, name and place of the name. -/
def Symbol.entry (symbol : Symbol) : String × SymbolKind × String × Span :=
  (symbol.file, symbol.kind, symbol.name, symbol.nameSpan)

/-- The same of a declaration in a file. -/
def Draft.entry (file : SourceFile) (draft : Draft) : String × SymbolKind × String × Span :=
  (file.path, draft.kind, draft.name, draft.nameSpan)

/-- The declaration, if the options retain it. -/
def Draft.keptEntry (options : IndexOptions) (file : SourceFile) (draft : Draft) :
    Option (String × SymbolKind × String × Span) :=
  if options.retains draft.kind draft.name then some (draft.entry file) else none

/-- The declarations of a module that the options retain, in the order of their numbers. -/
def Module.entries (module : Module) (options : IndexOptions) :
    List (String × SymbolKind × String × Span) :=
  module.packageList.flatMap fun package =>
    (Draft.ofPackageFiles options package).flatMap fun (file, drafts) =>
      drafts.filterMap (Draft.keptEntry options file)

/-- The symbol stands in the file, at its name; an import may stand at its path. -/
def Symbol.AddressedIn (symbol : Symbol) (file : SourceFile) : Prop :=
  symbol.file = file.path ∧ (symbol.kind ≠ .imported → file.text symbol.nameSpan = symbol.name)

namespace Draft

variable {options : IndexOptions} {package : Package} {file : SourceFile}

/-- A draft that the options retain becomes a symbol that stands at its name; others become
nothing. -/
theorem toSymbol?_spec {draft : Draft} {lines : LineIndex} {result : Option Symbol}
    (drawn : (draft.toSymbol? options package file lines).run = .ok (.ok result)) :
    result.map Symbol.entry = draft.keptEntry options file ∧
      ∀ symbol, result = some symbol → symbol.AddressedIn file := by
  unfold toSymbol? at drawn
  obtain ⟨extent, -, drawn⟩ := Attempt.run_bind_eq_ok.mp drawn
  unfold keptEntry
  by_cases retained : options.retains draft.kind draft.name = true
  · rw [if_pos retained] at drawn ⊢
    by_cases misplaced :
        (draft.kind != .imported && file.text draft.nameSpan != draft.name) = true
    · simp only [misplaced, if_true] at drawn
      cases drawn
    · simp only [misplaced] at drawn
      cases drawn
      refine ⟨rfl, ?_⟩
      rintro symbol ⟨⟩
      refine ⟨rfl, fun proper => ?_⟩
      simpa [proper] using misplaced
  · rw [if_neg retained] at drawn ⊢
    cases drawn
    exact ⟨rfl, fun symbol given => by cases given⟩

/-- The symbols of one file are its retained declarations, each at its name. -/
theorem toSymbols_spec {drafts : List Draft} {symbols : List Symbol}
    (drawn : (toSymbols options package file drafts).run = .ok (.ok symbols)) :
    symbols.map Symbol.entry = drafts.filterMap (keptEntry options file) ∧
      ∀ symbol ∈ symbols, symbol.AddressedIn file := by
  unfold toSymbols at drawn
  obtain ⟨found, given, drawn⟩ := Attempt.run_bind_eq_ok.mp drawn
  cases drawn
  have matched := Attempt.run_mapM_eq_ok.mp given
  constructor
  · have same := map_eq_map_of_forall₂ (keptEntry options file) (Option.map Symbol.entry)
      (fun _ _ one => (toSymbol?_spec one).1) matched
    calc (found.filterMap id).map Symbol.entry
        = (found.map (Option.map Symbol.entry)).filterMap id := by
          rw [List.map_filterMap, List.filterMap_map]
          rfl
      _ = (drafts.map (keptEntry options file)).filterMap id := by rw [same]
      _ = drafts.filterMap (keptEntry options file) := List.filterMap_map ..
  · intro symbol member
    obtain ⟨result, inside, same⟩ := List.mem_filterMap.mp member
    obtain ⟨draft, -, one⟩ := exists_mem_of_forall₂ matched inside
    exact (toSymbol?_spec one).2 symbol same

/-- Files that a package's declarations are listed with are retained files of the package. -/
theorem mem_of_ofPackageFiles {entry : SourceFile × List Draft}
    (listed : entry ∈ ofPackageFiles options package) :
    entry.1 ∈ package.files ∧ options.retainsFile entry.1 = true := by
  unfold ofPackageFiles at listed
  rw [← List.mem_filter]
  split at listed
  · cases listed
  · rename_i first rest retained
    rw [retained]
    rcases List.mem_cons.mp listed with rfl | listed
    · exact List.mem_cons_self
    · obtain ⟨file, inside, rfl⟩ := List.mem_map.mp listed
      exact inside

end Draft

/-- The symbols of a package are its retained declarations, each at its name in a retained file. -/
theorem Package.symbols_spec {package : Package} {options : IndexOptions} {symbols : List Symbol}
    (drawn : (package.symbols options).run = .ok (.ok symbols)) :
    symbols.map Symbol.entry =
        ((Draft.ofPackageFiles options package).flatMap fun (file, drafts) =>
          drafts.filterMap (Draft.keptEntry options file)) ∧
      ∀ symbol ∈ symbols, ∃ file ∈ package.files,
        options.retainsFile file = true ∧ symbol.AddressedIn file := by
  unfold Package.symbols at drawn
  obtain ⟨found, given, drawn⟩ := Attempt.run_bind_eq_ok.mp drawn
  cases drawn
  have matched := Attempt.run_mapM_eq_ok.mp given
  constructor
  · rw [List.map_flatten, List.flatMap_def]
    exact congrArg List.flatten
      (map_eq_map_of_forall₂ _ _ (fun _ _ one => (Draft.toSymbols_spec one).1) matched)
  · intro symbol member
    obtain ⟨part, inside, held⟩ := List.mem_flatten.mp member
    obtain ⟨entry, listed, one⟩ := exists_mem_of_forall₂ matched inside
    obtain ⟨owned, retained⟩ := Draft.mem_of_ofPackageFiles listed
    exact ⟨entry.1, owned, retained, (Draft.toSymbols_spec one).2 symbol held⟩

/-- A view that does not see numbers is the same after numbering. -/
theorem map_mapIdx_of_keeps {α β : Type} {number : Nat → α → α} {view : α → β}
    (keeps : ∀ id member, view (number id member) = view member) (members : List α) :
    (members.mapIdx number).map view = members.map view := by
  refine List.ext_getElem? fun place => ?_
  rw [List.getElem?_map, List.getElem?_mapIdx, List.getElem?_map, Option.map_map]
  exact congrArg (fun change => members[place]?.map change)
    (funext fun member => keeps place member)

/-- Members numbered from zero have their places as numbers. -/
theorem map_mapIdx_eq_range {α : Type} {number : Nat → α → α} {numberOf : α → Nat}
    (numbered : ∀ id member, numberOf (number id member) = id) (members : List α) :
    (members.mapIdx number).map numberOf = List.range members.length := by
  refine List.ext_getElem? fun place => ?_
  rw [List.getElem?_map, List.getElem?_mapIdx]
  by_cases inside : place < members.length
  · rw [List.getElem?_eq_getElem inside, List.getElem?_range inside]
    exact congrArg some (numbered place _)
  · have outside := Nat.le_of_not_lt inside
    rw [List.getElem?_eq_none outside, List.getElem?_eq_none (by rwa [List.length_range])]
    rfl

/-- A table lists the symbols it was made of. -/
@[simp]
theorem SymbolTable.toList_ofList (symbols : List Symbol) : (ofList symbols).toList = symbols := rfl

/-- A table made of a list has the size of the list. -/
@[simp]
theorem SymbolTable.size_ofList (symbols : List Symbol) :
    (ofList symbols).size = symbols.length := rfl

/-- The symbols of a module are its retained declarations, each at its name in a retained file,
numbered from zero. -/
theorem Module.symbols_spec {module : Module} {options : IndexOptions} {table : SymbolTable}
    (drawn : (module.symbols options).run = .ok (.ok table)) :
    table = .ofList table.toList ∧
      table.toList.map (·.id) = List.range table.size ∧
      table.toList.map Symbol.entry = module.entries options ∧
      ∀ symbol ∈ table.toList, ∃ file ∈ module.sourceFiles,
        options.retainsFile file = true ∧ symbol.AddressedIn file := by
  unfold Module.symbols at drawn
  obtain ⟨found, given, drawn⟩ := Attempt.run_bind_eq_ok.mp drawn
  cases drawn
  have matched := Attempt.run_mapM_eq_ok.mp given
  rw [SymbolTable.toList_ofList, SymbolTable.size_ofList]
  refine ⟨rfl, ?_, ?_, ?_⟩
  · unfold numberSymbols
    rw [List.length_mapIdx]
    exact map_mapIdx_eq_range (fun _ _ => rfl) found.flatten
  · have keeps : ∀ (id : Nat) (symbol : Symbol), Symbol.entry { symbol with id } = symbol.entry :=
      fun _ _ => rfl
    have same := map_eq_map_of_forall₂
      (fun package => (Draft.ofPackageFiles options package).flatMap fun (file, drafts) =>
        drafts.filterMap (Draft.keptEntry options file))
      (List.map Symbol.entry) (fun _ _ one => (Package.symbols_spec one).1) matched
    calc (numberSymbols found.flatten).map Symbol.entry
        = found.flatten.map Symbol.entry := map_mapIdx_of_keeps keeps _
      _ = (found.map (List.map Symbol.entry)).flatten := List.map_flatten ..
      _ = module.entries options := by
          rw [Module.entries, List.flatMap_def, same]
  · intro symbol member
    obtain ⟨place, bound, numbered⟩ := List.mem_mapIdx.mp member
    obtain ⟨part, inside, held⟩ := List.mem_flatten.mp (List.getElem_mem bound)
    obtain ⟨package, listed, one⟩ := exists_mem_of_forall₂ matched inside
    obtain ⟨file, owned, retained, addressed⟩ := (Package.symbols_spec one).2 _ held
    subst numbered
    exact ⟨file, List.mem_flatMap.mpr ⟨package, listed, owned⟩, retained, addressed⟩

/-- Every symbol of a module was drafted in a file of one of its packages. -/
theorem Module.exists_draft {module : Module} {options : IndexOptions} {table : SymbolTable}
    (drawn : (module.symbols options).run = .ok (.ok table)) {symbol : Symbol}
    (member : symbol ∈ table.toList) :
    ∃ package file drafts draft, file ∈ module.sourceFiles ∧
      (file, drafts) ∈ Draft.ofPackageFiles options package ∧ draft ∈ drafts ∧
      file.path = symbol.file ∧ draft.kind = symbol.kind ∧ draft.name = symbol.name ∧
      draft.nameSpan = symbol.nameSpan := by
  obtain ⟨-, -, entries, -⟩ := symbols_spec drawn
  have listed : symbol.entry ∈ module.entries options := entries ▸ List.mem_map_of_mem member
  obtain ⟨package, inside, listed⟩ := List.mem_flatMap.mp listed
  obtain ⟨⟨file, drafts⟩, held, listed⟩ := List.mem_flatMap.mp listed
  obtain ⟨draft, drafted, kept⟩ := List.mem_filterMap.mp listed
  have owned : file ∈ module.sourceFiles :=
    List.mem_flatMap.mpr ⟨package, inside, (Draft.mem_of_ofPackageFiles held).1⟩
  refine ⟨package, file, drafts, draft, owned, held, drafted, ?_⟩
  unfold Draft.keptEntry at kept
  split at kept
  · simpa only [Draft.entry, Symbol.entry, Option.some.injEq, Prod.mk.injEq] using kept
  · cases kept

namespace SymbolTable

/-- The symbol with a number has that number, in a table that is numbered from zero. -/
theorem id_of_get? {table : SymbolTable}
    (numbered : table.toList.map (·.id) = List.range table.size) {id : Nat} {symbol : Symbol}
    (found : table.get? id = some symbol) : symbol.id = id := by
  have inside : table.toList[id]? = some symbol := by
    rw [← found]
    exact Array.getElem?_toList
  have same : (table.toList.map (·.id))[id]? = some symbol.id := by
    rw [List.getElem?_map, inside]
    rfl
  rw [numbered] at same
  obtain ⟨bound, given⟩ := List.getElem?_eq_some_iff.mp same
  rw [List.getElem_range] at given
  exact given.symm

/-- A symbol found by its number is one of the table. -/
theorem mem_of_get? {table : SymbolTable} {id : Nat} {symbol : Symbol}
    (found : table.get? id = some symbol) : symbol ∈ table.toList :=
  Array.mem_toList_iff.mpr (Array.mem_of_getElem? found)

/-- The symbol of a table that is numbered from zero is found by its number. -/
theorem get?_id {table : SymbolTable}
    (numbered : table.toList.map (·.id) = List.range table.size) {symbol : Symbol}
    (member : symbol ∈ table.toList) : table.get? symbol.id = some symbol := by
  obtain ⟨place, bound, rfl⟩ := List.getElem_of_mem member
  have number : (table.toList.map (·.id))[place]? = some place := by
    rw [numbered]
    exact List.getElem?_range (by simpa [size, toList] using bound)
  rw [List.getElem?_map, List.getElem?_eq_getElem bound, Option.map_some] at number
  rw [Option.some.inj number]
  change table.symbols[place]? = _
  rw [← Array.getElem?_toList]
  exact List.getElem?_eq_getElem bound

/-- A symbol of a table that is numbered from zero is told by its number. -/
theorem eq_of_id_eq {table : SymbolTable}
    (numbered : table.toList.map (·.id) = List.range table.size) {symbol other : Symbol}
    (member : symbol ∈ table.toList) (member' : other ∈ table.toList)
    (same : symbol.id = other.id) : symbol = other := by
  have found := get?_id numbered member
  rw [same, get?_id numbered member'] at found
  exact (Option.some.inj found).symm

/-- Symbols with a name, read off the list of symbols. -/
theorem named_eq_filter {table : SymbolTable} (filed : table = .ofList table.toList)
    (name : String) :
    table.named name = table.toList.filter fun symbol => symbol.name == name := by
  rw [filed]
  change Postings.lookup (.ofList _ _) _ = _
  rw [Postings.lookup_ofList]
  rfl

/-- Members of the types with a name, read off the list of symbols. -/
theorem membersOf_eq_filter {table : SymbolTable} (filed : table = .ofList table.toList)
    (typeName : String) :
    table.membersOf typeName =
      table.toList.filter fun symbol => symbol.parentType == some typeName := by
  rw [filed]
  change Postings.lookup (.ofList _ _) _ = _
  rw [Postings.lookup_ofList]
  rfl

/-- A symbol filed under a name is one of the table and has the name. -/
theorem mem_of_named {table : SymbolTable} (filed : table = .ofList table.toList) {name : String}
    {symbol : Symbol} (member : symbol ∈ table.named name) :
    symbol ∈ table.toList ∧ symbol.name = name := by
  rw [named_eq_filter filed, List.mem_filter, beq_iff_eq] at member
  exact member

end SymbolTable

/-! ## References and diagnostics -/

namespace Finding

/-- The reference that a finding is. -/
def reference? : Finding → Option Reference
  | .reference found => some found
  | _ => none

/-- The diagnostic that a finding is. -/
def diagnostic? : Finding → Option Diagnostic
  | .diagnostic found => some found
  | _ => none

end Finding

namespace Resolver

/-- The reference that a use leaves: it stands for a symbol and does not touch the declared
name. -/
def reference? (resolver : Resolver) (context : String) : Use → Option Reference
  | .found id span kind =>
    match resolver.symbols.get? id with
    | none => none
    | some target =>
      if target.declaredAt resolver.file.path span then none
      else
        some ⟨0, id, resolver.file.path, span,
          (LineIndex.ofText resolver.file.content).region span, context, kind⟩
  | _ => none

/-- The diagnostic that a use leaves: it could stand for several symbols. -/
def diagnostic? (resolver : Resolver) : Use → Option Diagnostic
  | .ambiguous name span candidates =>
    some ⟨resolver.file.path, span, (LineIndex.ofText resolver.file.content).position span.start,
      name, candidates⟩
  | _ => none

/-- References of a file, not yet numbered. -/
def references (resolver : Resolver) : List Reference :=
  resolver.fileUses.filterMap fun (context, use) => resolver.reference? context use

/-- Diagnostics of a file. -/
def diagnostics (resolver : Resolver) : List Diagnostic :=
  resolver.fileUses.filterMap fun (_, use) => resolver.diagnostic? use

/-- The reference stands in the resolver's file, apart from the declared name of its target, and
has the text that a use of the target must have. -/
def Addresses (resolver : Resolver) (reference : Reference) : Prop :=
  reference.file = resolver.file.path ∧
    ∃ target, resolver.symbols.get? reference.symbol = some target ∧
      target.declaredAt reference.file reference.span = false ∧
      resolver.file.text reference.span = resolver.expectedText target

/-- Of a use its reference and its diagnostic are recorded, and the reference addresses a target. -/
theorem record_spec {resolver : Resolver} {context : String} {use : Use}
    {result : Option Finding}
    (recorded : resolver.record (LineIndex.ofText resolver.file.content) context use =
      .ok result) :
    result.bind Finding.reference? = resolver.reference? context use ∧
      result.bind Finding.diagnostic? = resolver.diagnostic? use ∧
      ∀ reference, result.bind Finding.reference? = some reference →
        resolver.Addresses reference := by
  cases use with
  | found id span kind =>
    rw [record] at recorded
    simp only [reference?, diagnostic?]
    cases found : resolver.symbols.get? id with
    | none =>
      rw [found] at recorded
      cases recorded
      exact ⟨rfl, rfl, fun _ given => by cases given⟩
    | some target =>
      simp only [found] at recorded
      split at recorded
      · rename_i touching
        cases recorded
        exact ⟨(if_pos touching).symm, rfl, fun _ given => by cases given⟩
      · rename_i apart
        split at recorded
        · cases recorded
        · rename_i addressed
          cases recorded
          refine ⟨(if_neg apart).symm, rfl, ?_⟩
          rintro reference ⟨⟩
          exact ⟨rfl, target, found, by simpa using apart, by simpa using addressed⟩
  | ambiguous name span candidates =>
    cases recorded
    exact ⟨rfl, rfl, fun _ given => by cases given⟩
  | unresolved =>
    cases recorded
    exact ⟨rfl, rfl, fun _ given => by cases given⟩

/-- Of a file its references and its diagnostics are recorded, and each reference addresses a
target. -/
theorem findings_spec {resolver : Resolver} {found : List Finding}
    (recorded : resolver.findings = .ok found) :
    found.filterMap Finding.reference? = resolver.references ∧
      found.filterMap Finding.diagnostic? = resolver.diagnostics ∧
      ∀ reference ∈ resolver.references, resolver.Addresses reference := by
  unfold findings at recorded
  obtain ⟨results, given, recorded⟩ := bind_eq_ok.mp recorded
  cases recorded
  have matched := mapM_eq_ok_iff.mp given
  -- Each kind of finding is picked from the results as it is from the uses.
  have picked : ∀ {α : Type} (pick : Finding → Option α) (view : String × Use → Option α),
      (∀ entry result, resolver.record (LineIndex.ofText resolver.file.content) entry.1 entry.2 =
        .ok result → result.bind pick = view entry) →
      (results.filterMap id).filterMap pick = resolver.fileUses.filterMap view := by
    intro α pick view agrees
    have same := map_eq_map_of_forall₂ view (fun result => result.bind pick) agrees matched
    calc (results.filterMap id).filterMap pick
        = (results.map fun result => result.bind pick).filterMap id := by
          rw [List.filterMap_filterMap, List.filterMap_map]
          rfl
      _ = (resolver.fileUses.map view).filterMap id := by rw [same]
      _ = resolver.fileUses.filterMap view := List.filterMap_map ..
  have referred := picked Finding.reference? (fun (context, use) => resolver.reference? context use)
    (fun _ _ one => (record_spec one).1)
  refine ⟨referred, picked _ _ (fun _ _ one => (record_spec one).2.1), ?_⟩
  intro reference member
  rw [references, ← referred, List.filterMap_filterMap] at member
  obtain ⟨result, inside, same⟩ := List.mem_filterMap.mp member
  obtain ⟨entry, -, one⟩ := exists_mem_of_forall₂ matched inside
  exact (record_spec one).2.2 reference same

end Resolver

/-- What the retained files of a module are walked with, in order. -/
def Module.resolvers (module : Module) (options : IndexOptions) (symbols : SymbolTable) :
    List Resolver :=
  (module.files.filter fun (_, file) => options.retainsFile file).map fun (package, file) =>
    ⟨ModuleScope.ofModule options module, symbols, package.path, file⟩

/-- A file that is walked is a retained file of the module. -/
theorem Module.file_of_mem_resolvers {module : Module} {options : IndexOptions}
    {symbols : SymbolTable} {resolver : Resolver}
    (walked : resolver ∈ module.resolvers options symbols) :
    resolver.file ∈ module.sourceFiles ∧ options.retainsFile resolver.file = true ∧
      resolver.symbols = symbols := by
  obtain ⟨⟨package, file⟩, inside, rfl⟩ := List.mem_map.mp walked
  obtain ⟨listed, retained⟩ := List.mem_filter.mp inside
  refine ⟨?_, retained, rfl⟩
  rw [← module.map_snd_files]
  exact List.mem_map_of_mem listed

/-- The findings of a module are those of its files, one file after the other. -/
theorem Module.findings_eq_flatten {module : Module} {options : IndexOptions}
    {symbols : SymbolTable} {found : List Finding}
    (recorded : module.findings options symbols = .ok found) :
    ∃ results, List.Forall₂ (fun resolver found => Resolver.findings resolver = .ok found)
      (module.resolvers options symbols) results ∧ found = results.flatten := by
  unfold Module.findings at recorded
  obtain ⟨results, given, recorded⟩ := bind_eq_ok.mp recorded
  cases recorded
  exact ⟨results, List.forall₂_map_left_iff.mpr (mapM_eq_ok_iff.mp given), rfl⟩

/-- Of a module the references and diagnostics of its files are recorded, and each reference
addresses a target. -/
theorem Module.findings_spec {module : Module} {options : IndexOptions} {symbols : SymbolTable}
    {found : List Finding} (recorded : module.findings options symbols = .ok found) :
    found.filterMap Finding.reference? =
        (module.resolvers options symbols).flatMap Resolver.references ∧
      found.filterMap Finding.diagnostic? =
        (module.resolvers options symbols).flatMap Resolver.diagnostics ∧
      ∀ resolver ∈ module.resolvers options symbols, ∀ reference ∈ resolver.references,
        resolver.Addresses reference := by
  obtain ⟨results, matched, rfl⟩ := findings_eq_flatten recorded
  refine ⟨?_, ?_, ?_⟩
  · rw [List.filterMap_flatten, List.flatMap_def]
    exact congrArg List.flatten
      (map_eq_map_of_forall₂ _ _ (fun _ _ one => (Resolver.findings_spec one).1) matched)
  · rw [List.filterMap_flatten, List.flatMap_def]
    exact congrArg List.flatten
      (map_eq_map_of_forall₂ _ _ (fun _ _ one => (Resolver.findings_spec one).2.1) matched)
  · intro resolver walked
    obtain ⟨found, -, one⟩ := exists_mem_of_forall₂ matched.flip walked
    exact (Resolver.findings_spec one).2.2

/-- **What a successful build returns.** -/
theorem Module.index_spec {module : Module} {options : IndexOptions} {index : Index}
    (built : (module.index options).run = .ok (.ok index)) :
    (module.sourceFiles.map SourceFile.path).Nodup ∧
      (module.symbols options).run = .ok (.ok index.symbols) ∧
      index.references = .ofList
        (((module.resolvers options index.symbols).flatMap Resolver.references).mapIdx
          fun id found => { found with id }) ∧
      index.diagnostics =
        (module.resolvers options index.symbols).flatMap Resolver.diagnostics ∧
      ∀ resolver ∈ module.resolvers options index.symbols, ∀ reference ∈ resolver.references,
        resolver.Addresses reference := by
  unfold Module.index at built
  split at built
  · cases built
  · rename_i distinct
    obtain ⟨symbols, drawn, built⟩ := Attempt.run_bind_eq_ok.mp built
    cases walked : module.findings options symbols with
    | error error =>
      rw [walked] at built
      cases built
    | ok found =>
      rw [walked] at built
      cases built
      obtain ⟨referred, told, addressed⟩ := Module.findings_spec walked
      refine ⟨?_, drawn, ?_, told, addressed⟩
      · have paths := (firstRepeated?_eq_none_iff.mp distinct).1
        rw [← module.map_snd_files, List.map_map]
        exact paths
      · rw [← referred]
        rfl

end GoRefactor
