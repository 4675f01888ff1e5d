import GoRefactor.Proofs.Sort
import GoRefactor.Proofs.Symbol.PublicIndex
import GoRefactor.Report.Index

/-!
# Queries as scans

A query answers from postings that are filed as a table is built. Each answer is what a scan over
the list of symbols would give, and in the order of the list, which is that of the numbers. The
symbols of a file are listed by position instead, and by number where positions agree.
-/

namespace GoRefactor

/-- Kinds are told by their names. -/
theorem SymbolKind.name_injective : Function.Injective SymbolKind.name := by
  intro kind other same
  cases kind <;> cases other <;> first | rfl | exact absurd same (by decide)

namespace SymbolTable

variable {table : SymbolTable} (filed : table = .ofList table.toList)

include filed

/-- Symbols of a kind, read off the list of symbols. -/
theorem ofKind_eq_filter (kind : SymbolKind) :
    table.ofKind kind = table.toList.filter fun symbol => symbol.kind == kind := by
  rw [filed]
  change Postings.lookup (.ofList _ _) _ = _
  rw [Postings.lookup_ofList]
  refine List.filter_congr fun symbol _ => ?_
  rw [Bool.eq_iff_iff, beq_iff_eq, beq_iff_eq, Option.some.injEq,
    SymbolKind.name_injective.eq_iff]

/-- Symbols with a qualified name, read off the list of symbols. -/
theorem qualified_eq_filter (name : String) :
    table.qualified name = table.toList.filter fun symbol => symbol.qualifiedName == name := by
  rw [filed]
  change Postings.lookup (.ofList _ _) _ = _
  rw [Postings.lookup_ofList]
  rfl

/-- Values with a declared type, read off the list of symbols. -/
theorem withDeclaredType_eq_filter (text : String) :
    table.withDeclaredType text =
      table.toList.filter fun symbol => declaredType symbol == some (normalizeText text) := by
  rw [filed]
  change Postings.lookup (.ofList _ _) _ = _
  rw [Postings.lookup_ofList]
  rfl

/-- Symbols of a file, read off the list of symbols. -/
theorem inFile_eq_filter (path : String) :
    table.inFile path = table.toList.filter fun symbol => symbol.file == path := by
  rw [filed]
  change Postings.lookup (.ofList _ _) _ = _
  rw [Postings.lookup_ofList]
  rfl

end SymbolTable

/-! ## Order in a file -/

/-- The one symbol stands in front of the other one, or in the same place with a lower number. -/
def Symbol.StandsBefore (symbol other : Symbol) : Prop :=
  symbol.nameSpan.start < other.nameSpan.start ∨
    symbol.nameSpan.start = other.nameSpan.start ∧ symbol.id < other.id

/-- A symbol with a lower number than all others is put in front of those in the same place. -/
theorem pairwise_insertBy_start {symbol : Symbol} {symbols : List Symbol}
    (first : ∀ other ∈ symbols, symbol.id < other.id)
    (ordered : symbols.Pairwise Symbol.StandsBefore) :
    (insertBy (fun left right => decide (left.nameSpan.start ≤ right.nameSpan.start)) symbol
      symbols).Pairwise Symbol.StandsBefore := by
  induction symbols with
  | nil => exact List.pairwise_singleton _ _
  | cons head rest ih =>
    obtain ⟨below, later⟩ := List.pairwise_cons.mp ordered
    obtain ⟨here, others⟩ := List.forall_mem_cons.mp first
    rw [insertBy]
    by_cases before : symbol.nameSpan.start ≤ head.nameSpan.start
    · rw [if_pos (decide_eq_true before)]
      refine List.pairwise_cons.mpr ⟨?_, ordered⟩
      intro other member
      have lower := first other member
      have behind : head.nameSpan.start ≤ other.nameSpan.start := by
        rcases List.mem_cons.mp member with rfl | inside
        · exact Nat.le_refl _
        · rcases below other inside with less | ⟨same, -⟩
          · exact Nat.le_of_lt less
          · exact Nat.le_of_eq same
      unfold Symbol.StandsBefore
      omega
    · have exceeds : ¬decide (symbol.nameSpan.start ≤ head.nameSpan.start) = true := by
        simpa using before
      rw [if_neg exceeds]
      refine List.pairwise_cons.mpr ⟨?_, ih others later⟩
      intro other member
      rcases List.mem_cons.mp ((insertBy_perm _ symbol rest).mem_iff.mp member) with rfl | inside
      · exact Or.inl (Nat.lt_of_not_le before)
      · exact below other inside

/-- Symbols by position keep the order of their numbers where positions agree. -/
theorem pairwise_inTextOrder {symbols : List Symbol}
    (numbered : (symbols.map (·.id)).Pairwise (· < ·)) :
    (inTextOrder (·.nameSpan.start) symbols).Pairwise Symbol.StandsBefore := by
  unfold inTextOrder
  induction symbols with
  | nil => exact List.Pairwise.nil
  | cons head rest ih =>
    rw [List.map_cons, List.pairwise_cons] at numbered
    rw [sortBy]
    refine pairwise_insertBy_start (fun other member => ?_) (ih numbered.2)
    rw [mem_sortBy] at member
    exact numbered.1 other.id (List.mem_map_of_mem member)

/-! ## What an index answers -/

/-- Every answer of an index is that of a scan over its symbols. -/
structure Index.Scans (index : Index) : Prop where
  /-- Symbols are listed by increasing number. -/
  numbered : (index.symbols.toList.map (·.id)).Pairwise (· < ·)
  /-- Symbols with a name. -/
  named : ∀ name, index.symbols.named name =
    index.symbols.toList.filter fun symbol => symbol.name == name
  /-- Symbols of a kind. -/
  ofKind : ∀ kind, index.symbols.ofKind kind =
    index.symbols.toList.filter fun symbol => symbol.kind == kind
  /-- Symbols with a qualified name. -/
  qualified : ∀ name, index.symbols.qualified name =
    index.symbols.toList.filter fun symbol => symbol.qualifiedName == name
  /-- Members of the types with a name. -/
  membersOf : ∀ typeName, index.symbols.membersOf typeName =
    index.symbols.toList.filter fun symbol => symbol.parentType == some typeName
  /-- Fields, variables, constants and parameters with a declared type. -/
  withDeclaredType : ∀ text, index.symbols.withDeclaredType text =
    index.symbols.toList.filter fun symbol =>
      [SymbolKind.field, .var, .const, .parameter].contains symbol.kind &&
        symbol.typeText.map normalizeText == some (normalizeText text)
  /-- Symbols of a file. -/
  symbolsInFile : ∀ path, (index.symbolsInFile path).Perm
    (index.symbols.toList.filter fun symbol => symbol.file == path)
  /-- They are listed by position, then by number. -/
  byPosition : ∀ path, (index.symbolsInFile path).Pairwise Symbol.StandsBefore

/-! ## Counts -/

/-- The use matches nothing. -/
def Use.isUnresolved : Use → Bool
  | .unresolved => true
  | _ => false

/-- What is recorded is a use that matches nothing. -/
def Finding.isUnresolved : Finding → Bool
  | .unresolved => true
  | _ => false

/-- A use is recorded as one that matches nothing exactly if it does. -/
theorem Resolver.isUnresolved_of_record {resolver : Resolver} {context : String} {use : Use}
    {result : Option Finding}
    (recorded : resolver.record (LineIndex.ofText resolver.file.content) context use =
      .ok result) : result.any Finding.isUnresolved = use.isUnresolved := by
  cases use with
  | found id span kind =>
    rw [record] at recorded
    split at recorded
    · cases recorded
      rfl
    · split at recorded
      · cases recorded
        rfl
      · simp only at recorded
        split at recorded
        · cases recorded
        · cases recorded
          rfl
  | ambiguous name span candidates =>
    cases recorded
    rfl
  | unresolved =>
    cases recorded
    rfl

/-- Members that are there are counted as those that a test of parts finds. -/
theorem countP_filterMap_of_forall₂ {α β : Type} {test : α → Bool} {test' : β → Bool}
    {values : List α} {results : List (Option β)}
    (matched : List.Forall₂ (fun value result => result.any test' = test value) values results) :
    (results.filterMap id).countP test' = values.countP test := by
  induction matched with
  | nil => rfl
  | @cons value result values results same _ ih =>
    rw [List.countP_cons, ← ih, ← same]
    cases result with
    | none => simp
    | some found => simp [List.countP_cons]

/-- Uses of a file that match nothing are counted. -/
theorem Resolver.unresolved_of_findings {resolver : Resolver} {found : List Finding}
    (recorded : resolver.findings = .ok found) :
    found.countP Finding.isUnresolved =
      resolver.fileUses.countP fun (_, use) => use.isUnresolved := by
  unfold findings at recorded
  obtain ⟨results, given, recorded⟩ := bind_eq_ok.mp recorded
  cases recorded
  exact countP_filterMap_of_forall₂
    ((mapM_eq_ok_iff.mp given).imp fun _ _ one => isUnresolved_of_record one)

/-- Uses of a module that match nothing are counted. -/
theorem Module.unresolved_of_findings {module : Module} {options : IndexOptions}
    {symbols : SymbolTable} {found : List Finding}
    (recorded : module.findings options symbols = .ok found) :
    Finding.unresolvedCount found =
      ((module.resolvers options symbols).flatMap Resolver.fileUses).countP
        fun (_, use) => use.isUnresolved := by
  have counted : Finding.unresolvedCount found = found.countP Finding.isUnresolved :=
    List.countP_congr fun finding _ => by cases finding <;> rfl
  obtain ⟨results, matched, rfl⟩ := findings_eq_flatten recorded
  rw [counted, List.countP_flatten, List.countP_flatMap]
  exact congrArg List.sum (map_eq_map_of_forall₂ _ _
    (fun _ _ one => (Resolver.unresolved_of_findings one)) matched)

/-- The sizes of what an index of a module holds, as it reports them. -/
def Index.sizes (index : Index) (module : Module) : Json :=
  let uses := (module.resolvers index.options index.symbols).flatMap Resolver.fileUses
  let count (kind : SymbolKind) : Nat :=
    index.symbols.toList.countP fun symbol => symbol.kind == kind
  .object [
    ("packages", .nat module.packageList.length),
    ("files", .nat module.sourceFiles.length),
    ("symbols", .nat index.symbols.toList.length),
    ("references", .nat index.references.references.length),
    ("diagnostics", .nat index.diagnostics.length),
    ("unresolved", .nat (uses.countP fun (_, use) => use.isUnresolved)),
    ("symbols_by_kind", .object ((SymbolKind.all.filter fun kind => count kind != 0).map fun kind =>
      (kind.name, .nat (count kind))))]

namespace Module

variable {module : Module} {options : IndexOptions} {index : Index}

/-- An index that is built answers as a scan does. -/
theorem scans_of_index (built : (module.index options).run = .ok (.ok index)) : index.Scans := by
  obtain ⟨-, drawn, -⟩ := index_spec built
  obtain ⟨filed, numbered, -, -⟩ := symbols_spec drawn
  have increasing : (index.symbols.toList.map (·.id)).Pairwise (· < ·) := by
    rw [numbered]
    exact List.pairwise_lt_range
  refine ⟨increasing, SymbolTable.named_eq_filter filed, SymbolTable.ofKind_eq_filter filed,
    SymbolTable.qualified_eq_filter filed, SymbolTable.membersOf_eq_filter filed, fun text => ?_,
    fun path => ?_, fun path => ?_⟩
  · rw [SymbolTable.withDeclaredType_eq_filter filed]
    refine List.filter_congr fun symbol _ => ?_
    unfold SymbolTable.declaredType
    cases symbol.kind <;> rfl
  · unfold Index.symbolsInFile inTextOrder
    rw [← SymbolTable.inFile_eq_filter filed]
    exact sortBy_perm _ _
  · unfold Index.symbolsInFile
    rw [SymbolTable.inFile_eq_filter filed]
    exact pairwise_inTextOrder (SymbolTable.pairwise_ids numbered _)

/-- The numbers that a build puts into an index. -/
theorem counts_of_index (built : (module.index options).run = .ok (.ok index)) :
    index.packages = module.packageList.length ∧ index.files = module.sourceFiles.length ∧
      index.unresolved =
        ((module.resolvers index.options index.symbols).flatMap Resolver.fileUses).countP
          fun (_, use) => use.isUnresolved := by
  have files : module.fileCount = module.sourceFiles.length := by
    rw [Module.fileCount, ← module.map_snd_files, List.length_map]
  have packages : module.packages.size = module.packageList.length := by
    rw [NameMap.size, Module.packageList, NameMap.values, List.length_map]
  unfold Module.index at built
  split at built
  · cases built
  · obtain ⟨symbols, -, built⟩ := Attempt.run_bind_eq_ok.mp built
    cases walked : module.findings options symbols with
    | error error =>
      rw [walked] at built
      cases built
    | ok found =>
      rw [walked] at built
      cases built
      exact ⟨packages, files, unresolved_of_findings walked⟩

/-- An index that is built reports the sizes of what it holds. -/
theorem stats_of_index (built : (module.index options).run = .ok (.ok index)) :
    Report.stats index = index.sizes module := by
  obtain ⟨-, drawn, -⟩ := index_spec built
  obtain ⟨filed, -, -, -⟩ := symbols_spec drawn
  obtain ⟨packages, files, unresolved⟩ := counts_of_index built
  have each (kind : SymbolKind) : (index.symbols.ofKind kind).length =
      index.symbols.toList.countP fun symbol => symbol.kind == kind := by
    rw [SymbolTable.ofKind_eq_filter filed, List.countP_eq_length_filter]
  have kinds : index.symbolCounts = (SymbolKind.all.filter fun kind =>
      (index.symbols.toList.countP fun symbol => symbol.kind == kind) != 0).map fun kind =>
        (kind, index.symbols.toList.countP fun symbol => symbol.kind == kind) := by
    unfold Index.symbolCounts
    simp only [each]
    rw [List.filter_map]
    rfl
  unfold Report.stats Index.sizes
  rw [packages, files, unresolved, kinds, List.map_map]
  rfl

end Module

end GoRefactor
