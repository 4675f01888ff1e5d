import GoRefactor.Module.Build
import GoRefactor.Proofs.Symbol.Build

/-!
# Integrity of indexes

What every index promises, whatever module it was built from: its numbers are places, its entries
address names in retained files, no reference touches the name it refers to, and its queries give
the entries that they ask for, in order. Modules here are any modules, also those whose spans and
names were not scanned from their text; a build that would break a promise is refused.
-/

namespace GoRefactor

/-- A reference without its number. -/
def Reference.unnumbered (reference : Reference) : Reference := { reference with id := 0 }

/-- What the index of a module with some options promises. -/
structure Index.Sound (index : Index) (module : Module) (options : IndexOptions) : Prop where
  /-- Symbols are numbered from zero. -/
  symbol_ids : index.symbols.toList.map (·.id) = List.range index.symbols.size
  /-- They are the retained declarations, in order. -/
  symbols_listed : index.symbols.toList.map Symbol.entry = module.entries options
  /-- References are numbered from zero. -/
  reference_ids :
    index.references.references.map (·.id) = List.range index.references.references.length
  /-- They are the uses that stand for a symbol apart from its declared name, in order. -/
  references_listed : index.references.references.map Reference.unnumbered =
    (module.resolvers options index.symbols).flatMap Resolver.references
  /-- A symbol lies in a retained file, where its name stands; an import may stand at its path. -/
  symbol_addressed : ∀ symbol ∈ index.symbols.toList,
    ∃ file, module.file? symbol.file = some file ∧ options.retainsFile file = true ∧
      (symbol.kind ≠ .imported → file.text symbol.nameSpan = symbol.name)
  /-- A reference lies in a retained file, where the name of its target stands, apart from where
  the target is declared. -/
  reference_addressed : ∀ reference ∈ index.references.references,
    ∃ file target, module.file? reference.file = some file ∧ options.retainsFile file = true ∧
      target ∈ index.symbols.toList ∧ target.id = reference.symbol ∧
      (target.file = reference.file → target.nameSpan.overlaps reference.span = false) ∧
      (target.kind ≠ .imported → file.text reference.span = target.name)
  /-- The references to a symbol are those with its number, in order. -/
  to_symbol : ∀ id,
    index.references.toSymbol id =
        index.references.references.filter (fun reference => reference.symbol == id) ∧
      (index.references.toSymbol id).Pairwise (fun earlier later => earlier.id < later.id)
  /-- The references in a file are those with its path, in order. -/
  in_file : ∀ path,
    index.references.inFile path =
        index.references.references.filter (fun reference => reference.file == path) ∧
      (index.references.inFile path).Pairwise (fun earlier later => earlier.id < later.id)

/-- Numbering references keeps all but their numbers. -/
theorem Reference.unnumbered_numbered (id : Nat) (reference : Reference) :
    { reference with id }.unnumbered = reference.unnumbered := rfl

namespace Resolver

/-- References come out of a walk without numbers. -/
theorem unnumbered_of_mem_references {resolver : Resolver} {reference : Reference}
    (member : reference ∈ resolver.references) : reference.unnumbered = reference := by
  obtain ⟨⟨context, use⟩, -, found⟩ := List.mem_filterMap.mp member
  cases use with
  | found id span kind =>
    simp only [reference?] at found
    split at found
    · cases found
    · split at found
      · cases found
      · cases found
        rfl
  | ambiguous name span candidates => cases found
  | unresolved => cases found

end Resolver

/-- Apart from their numbers, the references of an index are those of the walks. -/
theorem Module.unnumbered_references {module : Module} {options : IndexOptions} {index : Index}
    (built : (module.index options).run = .ok (.ok index)) :
    index.references.references.map Reference.unnumbered =
      (module.resolvers options index.symbols).flatMap Resolver.references := by
  obtain ⟨-, -, referred, -, -⟩ := Module.index_spec built
  rw [referred]
  change (List.mapIdx _ _).map Reference.unnumbered = _
  rw [map_mapIdx_of_keeps Reference.unnumbered_numbered]
  refine (List.map_congr_left fun reference member => ?_).trans (List.map_id _)
  obtain ⟨resolver, -, inside⟩ := List.mem_flatMap.mp member
  exact Resolver.unnumbered_of_mem_references inside

/-- A list of references that are numbered from zero is in the order of the numbers. -/
theorem pairwise_id_of_numbered {references : List Reference}
    (numbered : references.map (·.id) = List.range references.length) :
    references.Pairwise fun earlier later => earlier.id < later.id := by
  rw [← List.pairwise_map, numbered]
  exact List.pairwise_lt_range

section Addressed

variable {module : Module} {options : IndexOptions} {index : Index}

/-- A symbol lies in a retained file, where its name stands; an import may stand at its path. -/
theorem Module.symbol_addressed (built : (module.index options).run = .ok (.ok index))
    {symbol : Symbol} (member : symbol ∈ index.symbols.toList) :
    ∃ file, module.file? symbol.file = some file ∧ options.retainsFile file = true ∧
      (symbol.kind ≠ .imported → file.text symbol.nameSpan = symbol.name) := by
  obtain ⟨distinct, drawn, -⟩ := Module.index_spec built
  obtain ⟨-, -, -, placed⟩ := Module.symbols_spec drawn
  obtain ⟨file, inside, retained, standing, named⟩ := placed symbol member
  exact ⟨file, standing ▸ Module.file?_path distinct inside, retained, named⟩

/-- A reference lies in a retained file, where the name of its target stands, apart from where the
target is declared. -/
theorem Module.reference_addressed (built : (module.index options).run = .ok (.ok index))
    {reference : Reference} (member : reference ∈ index.references.references) :
    ∃ file target, module.file? reference.file = some file ∧ options.retainsFile file = true ∧
      target ∈ index.symbols.toList ∧ target.id = reference.symbol ∧
      (target.file = reference.file → target.nameSpan.overlaps reference.span = false) ∧
      (target.kind ≠ .imported → file.text reference.span = target.name) := by
  obtain ⟨distinct, drawn, referred, -, addressed⟩ := Module.index_spec built
  obtain ⟨-, numbered, -, -⟩ := Module.symbols_spec drawn
  rw [referred] at member
  obtain ⟨place, bound, rfl⟩ := List.mem_mapIdx.mp member
  obtain ⟨resolver, walked, found⟩ := List.mem_flatMap.mp (List.getElem_mem bound)
  obtain ⟨inside, retained, same⟩ := Module.file_of_mem_resolvers walked
  obtain ⟨standing, target, resolved, apart, text⟩ := addressed resolver walked _ found
  rw [same] at resolved
  refine ⟨resolver.file, target, standing ▸ Module.file?_path distinct inside, retained,
    SymbolTable.mem_of_get? resolved, SymbolTable.id_of_get? numbered resolved, ?_, ?_⟩
  · intro together
    unfold Symbol.declaredAt at apart
    rwa [beq_iff_eq.mpr together, Bool.true_and] at apart
  · intro proper
    rw [Resolver.expectedText, if_neg (by simpa using proper)] at text
    exact text

end Addressed

/-- **Integrity.** Whenever a build succeeds, the index keeps all its promises. -/
theorem index_sound {module : Module} {options : IndexOptions} {index : Index}
    (built : (module.index options).run = .ok (.ok index)) : index.Sound module options := by
  obtain ⟨-, drawn, referred, -, -⟩ := Module.index_spec built
  obtain ⟨-, numbered, listed, -⟩ := Module.symbols_spec drawn
  have references_eq : index.references.references =
      ((module.resolvers options index.symbols).flatMap Resolver.references).mapIdx
        fun id found => { found with id } := by
    rw [referred]
    rfl
  have reference_ids :
      index.references.references.map (·.id) = List.range index.references.references.length := by
    rw [references_eq, List.length_mapIdx]
    exact map_mapIdx_eq_range (fun _ _ => rfl) _
  have ordered := pairwise_id_of_numbered reference_ids
  refine ⟨numbered, listed, reference_ids, Module.unnumbered_references built,
    fun symbol => Module.symbol_addressed built, fun reference => Module.reference_addressed built,
    ?_, ?_⟩
  · intro id
    have same : index.references.toSymbol id =
        index.references.references.filter fun reference => reference.symbol == id := by
      rw [referred]
      exact Postings.lookup_ofList _ _ id
    exact ⟨same, same ▸ ordered.filter _⟩
  · intro path
    have same : index.references.inFile path =
        index.references.references.filter fun reference => reference.file == path := by
      rw [referred]
      exact Postings.lookup_ofList _ _ path
    exact ⟨same, same ▸ ordered.filter _⟩

/-- A module with two packages, an aliased import, members reached through a value and a test. -/
def sampleSources : List (String × String) :=
  [("a/a.go",
      "package a\n\ntype T struct\x7b N int \x7d\n\nfunc (t T) Get() int \x7b return t.N \x7d\n"),
    ("b/b.go", "package b\n\nimport x \"m/a\"\n\nvar V = x.T\x7bN: 1\x7d\n\n" ++
      "func Use() int \x7b return V.Get() \x7d\n"),
    ("b/b_test.go", "package b\n\nfunc Check() int \x7b return Use() \x7d\n")]

/-- The index of a module that uses every way to reach a symbol keeps its promises. -/
theorem index_sound_sample :
    ∃ module index, Module.ofSources "m" sampleSources = .ok module ∧
      (module.index {}).run = .ok (.ok index) ∧ index.references.references.length = 7 ∧
      index.Sound module {} := by
  have evaluated : checkOk (Module.ofSources "m" sampleSources) (fun module =>
      checkOk (module.index {}).run fun ending =>
        checkOk ending fun index => index.references.references.length == 7) = true := by
    decide +kernel
  obtain ⟨module, loaded, checked⟩ := exists_of_checkOk evaluated
  obtain ⟨ending, built, ended⟩ := exists_of_checkOk checked
  obtain ⟨index, rfl, count⟩ := exists_of_checkOk ended
  exact ⟨module, index, loaded, built, eq_of_beq count, index_sound built⟩

end GoRefactor
