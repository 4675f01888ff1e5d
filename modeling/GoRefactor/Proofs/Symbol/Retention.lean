import GoRefactor.Proofs.Symbol.Build

/-!
# What a build without private declarations retains

A build that leaves private declarations out lists the same declarations as one that retains them,
in the same order, and keeps some of them: packages, imports, and whatever is exported and no
parameter. Its symbols are those of the other build, numbered anew.
-/

namespace GoRefactor

namespace Symbol

/-- The symbol without its number. -/
def unnumbered (symbol : Symbol) : Symbol := { symbol with id := 0 }

/-- A package or an import. -/
def isOuter (symbol : Symbol) : Bool := symbol.kind == .package || symbol.kind == .imported

/-- A build that leaves private declarations out retains it. -/
def isPublic (symbol : Symbol) : Bool :=
  symbol.isOuter || (symbol.exported && symbol.kind != .parameter)

/-- A number leaves the rest alone. -/
theorem unnumbered_numbered (id : Nat) (symbol : Symbol) :
    unnumbered { symbol with id } = symbol.unnumbered := rfl

end Symbol

/-- Options that leave private declarations out. -/
def IndexOptions.publicOnly (tests : Bool) : IndexOptions := ⟨tests, false⟩

/-- Options that retain private declarations. -/
def IndexOptions.withPrivate (tests : Bool) : IndexOptions := ⟨tests, true⟩

/-- Without private declarations, packages and imports are retained, and what is exported and no
parameter. -/
theorem IndexOptions.retains_publicOnly (tests : Bool) (kind : SymbolKind) (name : String) :
    (publicOnly tests).retains kind name =
      ((kind == .package || kind == .imported) || (isExported name && kind != .parameter)) := by
  unfold retains
  cases isExported name <;> cases kind <;> rfl

variable {tests : Bool}

namespace Draft

variable {package : Package} {file : SourceFile}

/-- The symbol that a draft becomes, if private declarations are retained. -/
theorem toSymbol?_withPrivate {draft : Draft} {lines : LineIndex} {result : Option Symbol}
    (drawn : (draft.toSymbol? (.withPrivate tests) package file lines).run = .ok (.ok result)) :
    ∃ symbol, result = some symbol ∧ symbol.exported = isExported symbol.name ∧
      symbol.kind = draft.kind ∧ symbol.name = draft.name ∧
      ∀ kept, (draft.toSymbol? (.publicOnly tests) package file lines).run = .ok (.ok kept) →
        kept = if symbol.isPublic then some symbol else none := by
  unfold toSymbol? at drawn
  obtain ⟨extent, given, drawn⟩ := Attempt.run_bind_eq_ok.mp drawn
  have retained : (IndexOptions.withPrivate tests).retains draft.kind draft.name = true := by
    unfold IndexOptions.retains
    split <;> rfl
  rw [if_pos retained] at drawn
  dsimp only at drawn
  split at drawn
  · cases drawn
  · rename_i placed
    cases drawn
    refine ⟨_, rfl, rfl, rfl, rfl, fun kept again => ?_⟩
    unfold toSymbol? at again
    obtain ⟨extent', given', again⟩ := Attempt.run_bind_eq_ok.mp again
    cases given.symm.trans given'
    unfold Symbol.isPublic Symbol.isOuter
    dsimp only
    rw [← IndexOptions.retains_publicOnly tests]
    split at again
    · rename_i kept'
      rw [if_neg placed] at again
      cases again
      rw [if_pos kept']
    · rename_i dropped
      cases again
      rw [if_neg dropped]

end Draft

/-- What one build keeps of each part it keeps of all parts in a row. -/
theorem flatten_filter_of_forall₂ {α β : Type} {keep : β → Bool} {values : List α}
    {some all : List (List β)} {first second : α → List β → Prop}
    (matched : List.Forall₂ first values some) (matched' : List.Forall₂ second values all)
    (kept : ∀ value ∈ values, ∀ part part', first value part → second value part' →
      part = part'.filter keep) : some.flatten = all.flatten.filter keep := by
  induction matched generalizing all with
  | nil =>
    cases matched'
    rfl
  | cons one _ ih =>
    cases matched' with
    | cons other others =>
      obtain ⟨here, rest⟩ := List.forall_mem_cons.mp kept
      rw [List.flatten_cons, List.flatten_cons, List.filter_append, here _ _ one other,
        ih others rest]

/-- The public symbols of a file are those of all its symbols that are public. -/
theorem Draft.toSymbols_publicOnly {package : Package} {file : SourceFile} {drafts : List Draft}
    {some all : List Symbol}
    (drawn : (toSymbols (.publicOnly tests) package file drafts).run = .ok (.ok some))
    (drawn' : (toSymbols (.withPrivate tests) package file drafts).run = .ok (.ok all)) :
    some = all.filter Symbol.isPublic := by
  obtain ⟨found, given, same⟩ := Attempt.run_bind_eq_ok.mp drawn
  obtain ⟨found', given', same'⟩ := Attempt.run_bind_eq_ok.mp drawn'
  cases same
  cases same'
  have matched := Attempt.run_mapM_eq_ok.mp given
  have matched' := Attempt.run_mapM_eq_ok.mp given'
  clear given given' drawn drawn'
  induction matched generalizing found' with
  | nil =>
    cases matched'
    rfl
  | cons one _ ih =>
    cases matched' with
    | cons other others =>
      obtain ⟨symbol, rfl, -, -, -, kept⟩ := toSymbol?_withPrivate other
      rw [kept _ one]
      cases visible : symbol.isPublic with
      | true =>
        simp only [if_true, List.filterMap_cons, id_eq, List.filter_cons, visible]
        exact congrArg (symbol :: ·) (ih _ others)
      | false =>
        simp only [Bool.false_eq_true, if_false, List.filterMap_cons, id_eq, List.filter_cons,
          visible]
        exact ih _ others

/-- **The symbols of a build without private declarations are those of the full build that are
public, in the same order.** -/
theorem Module.symbols_publicOnly {module : Module} {left right : SymbolTable}
    (drawn : (module.symbols (.publicOnly tests)).run = .ok (.ok left))
    (drawn' : (module.symbols (.withPrivate tests)).run = .ok (.ok right)) :
    List.Forall₂ (fun first second => first.unnumbered = second.unnumbered) left.toList
      (right.toList.filter Symbol.isPublic) := by
  obtain ⟨found, given, drawn⟩ := Attempt.run_bind_eq_ok.mp drawn
  obtain ⟨found', given', drawn'⟩ := Attempt.run_bind_eq_ok.mp drawn'
  cases drawn
  cases drawn'
  have files : found.flatten = found'.flatten.filter Symbol.isPublic := by
    refine flatten_filter_of_forall₂ (Attempt.run_mapM_eq_ok.mp given)
      (Attempt.run_mapM_eq_ok.mp given') fun package _ part part' one other => ?_
    obtain ⟨parts, each, same⟩ := Attempt.run_bind_eq_ok.mp one
    obtain ⟨parts', each', same'⟩ := Attempt.run_bind_eq_ok.mp other
    cases same
    cases same'
    exact flatten_filter_of_forall₂ (Attempt.run_mapM_eq_ok.mp each)
      (Attempt.run_mapM_eq_ok.mp each') fun entry _ part part' one other =>
        Draft.toSymbols_publicOnly one other
  have numbered (symbols : List Symbol) :
      (numberSymbols symbols).map Symbol.unnumbered = symbols.map Symbol.unnumbered :=
    map_mapIdx_of_keeps Symbol.unnumbered_numbered symbols
  have filtered : ((numberSymbols found'.flatten).filter Symbol.isPublic).map Symbol.unnumbered =
      (found'.flatten.filter Symbol.isPublic).map Symbol.unnumbered := by
    have through (symbols : List Symbol) : (symbols.filter Symbol.isPublic).map Symbol.unnumbered =
        (symbols.map Symbol.unnumbered).filter Symbol.isPublic := by
      rw [List.filter_map]
      rfl
    rw [through, through, numbered]
  rw [SymbolTable.toList_ofList, SymbolTable.toList_ofList]
  have same : (numberSymbols found.flatten).map Symbol.unnumbered =
      ((numberSymbols found'.flatten).filter Symbol.isPublic).map Symbol.unnumbered := by
    rw [numbered, files, filtered]
  refine (List.forall₂_map_left_iff.mp (List.forall₂_map_right_iff.mp ?_) :
    List.Forall₂ (fun first second => Symbol.unnumbered first = Symbol.unnumbered second) _ _)
  exact same ▸ List.forall₂_same.mpr fun _ _ => rfl

/-- A symbol of the full build is exported exactly when its name says so. -/
theorem Module.exported_of_mem_symbols {module : Module} {right : SymbolTable}
    (drawn : (module.symbols (.withPrivate tests)).run = .ok (.ok right)) {symbol : Symbol}
    (member : symbol ∈ right.toList) : symbol.exported = isExported symbol.name := by
  obtain ⟨found, given, same⟩ := Attempt.run_bind_eq_ok.mp drawn
  cases same
  obtain ⟨place, bound, rfl⟩ := List.mem_mapIdx.mp member
  change found.flatten[place].exported = isExported found.flatten[place].name
  obtain ⟨part, inside, held⟩ := List.mem_flatten.mp (List.getElem_mem bound)
  generalize found.flatten[place] = symbol at held
  obtain ⟨package, -, one⟩ := exists_mem_of_forall₂ (Attempt.run_mapM_eq_ok.mp given) inside
  obtain ⟨parts, each, same⟩ := Attempt.run_bind_eq_ok.mp one
  cases same
  obtain ⟨symbols, inside, held⟩ := List.mem_flatten.mp held
  obtain ⟨entry, -, one⟩ := exists_mem_of_forall₂ (Attempt.run_mapM_eq_ok.mp each) inside
  obtain ⟨results, each, same⟩ := Attempt.run_bind_eq_ok.mp one
  cases same
  obtain ⟨result, inside, rfl⟩ := List.mem_filterMap.mp held
  obtain ⟨draft, -, one⟩ := exists_mem_of_forall₂ (Attempt.run_mapM_eq_ok.mp each) inside
  obtain ⟨other, same, exported, -⟩ := Draft.toSymbol?_withPrivate one
  cases same
  exact exported

/-- No receiver, parameter or named result has an exported name. -/
def Module.ParamsPrivate (module : Module) : Prop :=
  ∀ file ∈ module.sourceFiles, ∀ decl ∈ file.functions.values ++ file.methods,
    ∀ param ∈ decl.allParams, ∀ name, param.name = some name → isExported name = false

namespace Draft

variable {package : Package} {file : SourceFile}

/-- A parameter among the declarations of a function is one of its own. -/
theorem param_of_mem_ofFunc {decl : FuncDecl} {draft : Draft}
    (member : draft ∈ ofFunc package file decl) (kind : draft.kind = .parameter) :
    ∃ param ∈ decl.allParams, param.name = some draft.name := by
  rcases List.mem_cons.mp member with rfl | member
  · dsimp only at kind
    split at kind <;> cases kind
  · obtain ⟨param, listed, made⟩ := List.mem_filterMap.mp member
    unfold ofParam? at made
    split at made
    · rename_i name nameSpan named stands
      split at made
      · cases made
      · cases made
        exact ⟨param, listed, named⟩
    · cases made

/-- A parameter among the declarations of a file is one of a function of the file. -/
theorem param_of_mem_ofFile {draft : Draft} (member : draft ∈ ofFile package file)
    (kind : draft.kind = .parameter) :
    ∃ decl ∈ file.functions.values ++ file.methods, ∃ param ∈ decl.allParams,
      param.name = some draft.name := by
  have called {decl : FuncDecl} (held : decl ∈ file.functions.values ++ file.methods)
      (inside : draft ∈ ofFunc package file decl) :
      ∃ decl ∈ file.functions.values ++ file.methods, ∃ param ∈ decl.allParams,
        param.name = some draft.name :=
    ⟨decl, held, param_of_mem_ofFunc inside kind⟩
  simp only [ofFile, List.mem_append, List.mem_map, List.mem_flatMap, List.mem_filter, inTextOrder,
    mem_sortBy, or_assoc] at member
  rcases member with ⟨decl, -, rfl⟩ | ⟨decl, -, inside⟩ | ⟨decl, ⟨held, -⟩, inside⟩ |
    ⟨decl, held, inside⟩ | ⟨decl, -, rfl⟩ | ⟨decl, -, rfl⟩
  · cases kind
  · simp only [ofType, List.cons_append, List.mem_cons, List.mem_append, List.mem_map,
      List.mem_flatMap, or_assoc] at inside
    rcases inside with rfl | ⟨field, -, rfl⟩ | ⟨method, -, rfl⟩ | ⟨method, held, inside⟩
    · dsimp only [kindOfType] at kind
      split at kind <;> cases kind
    · cases kind
    · cases kind
    · exact called (List.mem_append_right _ (List.mem_filter.mp held).1) inside
  · exact called (List.mem_append_right _ held) inside
  · exact called (List.mem_append_left _ held) inside
  · cases kind
  · cases kind

end Draft

/-- A symbol that is a parameter has the name of one. -/
theorem Module.isExported_of_parameter {module : Module} {options : IndexOptions}
    {table : SymbolTable} (drawn : (module.symbols options).run = .ok (.ok table))
    (hidden : module.ParamsPrivate) {symbol : Symbol} (member : symbol ∈ table.toList)
    (kind : symbol.kind = .parameter) : isExported symbol.name = false := by
  obtain ⟨package, file, drafts, draft, owned, held, drafted, -, kindOf, name, -⟩ :=
    exists_draft drawn member
  rw [← name]
  rw [← kindOf] at kind
  unfold Draft.ofPackageFiles at held
  split at held
  · cases held
  · rcases List.mem_cons.mp held with first | held
    · cases first
      rw [List.mem_singleton.mp drafted] at kind
      cases kind
    · obtain ⟨file, -, same⟩ := List.mem_map.mp held
      cases same
      obtain ⟨decl, declared, param, given, named⟩ := Draft.param_of_mem_ofFile drafted kind
      exact hidden file owned decl declared param given _ named

end GoRefactor
