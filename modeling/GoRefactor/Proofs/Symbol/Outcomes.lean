import GoRefactor.Proofs.Go.Parser.TidyFile
import GoRefactor.Proofs.Module.Sources
import GoRefactor.Proofs.Symbol.Integrity
import GoRefactor.Proofs.Symbol.Visit
import Mathlib.Data.List.Nodup

/-!
# Outcomes of uses

In a module from source text every place has one outcome: references that name one symbol, or
diagnostics that list several, or nothing. A reference is recorded once for each time that a walk
passes its place. A type that several fields of a struct share is passed once for each of them,
so a place may carry its reference more than once; `index_outcomes` says exactly when.
-/

namespace GoRefactor

/-- File and span of a reference. -/
def Reference.place (reference : Reference) : String × Span := (reference.file, reference.span)

/-- File and span of a diagnostic. -/
def Diagnostic.place (diagnostic : Diagnostic) : String × Span :=
  (diagnostic.file, diagnostic.span)

section Places

variable {α β : Type}

/-- What is picked from items where they stand can be picked from those at a span. -/
theorem filter_filterMap_eq {place : α → Option Span} {pick : α → Option β} {spanOf : β → Span}
    (stands : ∀ item found, pick item = some found → place item = some (spanOf found))
    (items : List α) (span : Span) :
    (items.filterMap pick).filter (fun found => spanOf found == span) =
      (itemsAt place items span).filterMap pick := by
  unfold itemsAt
  induction items with
  | nil => rfl
  | cons item rest ih =>
    rw [List.filterMap_cons, List.filter_cons]
    cases picked : pick item with
    | none =>
      rw [ih]
      split
      · rw [List.filterMap_cons, picked]
      · rfl
    | some found =>
      have same : (place item == some span) = (spanOf found == span) := by
        rw [stands item found picked]
        rfl
      rw [List.filter_cons, same, ih]
      split
      · rw [List.filterMap_cons, picked]
      · rfl

/-- Of parts with keys of their own, the items with a part's key are the part's. -/
theorem filter_flatMap_of_distinct {key : α → String} {keyOf : β → String} {items : α → List β}
    {parts : List α} (distinct : (parts.map key).Nodup)
    (keyed : ∀ part ∈ parts, ∀ item ∈ items part, keyOf item = key part) {part : α}
    (member : part ∈ parts) :
    (parts.flatMap items).filter (fun item => keyOf item == key part) = items part := by
  induction parts with
  | nil => cases member
  | cons head rest ih =>
    obtain ⟨keyedHead, keyedRest⟩ := List.forall_mem_cons.mp keyed
    rw [List.map_cons, List.nodup_cons] at distinct
    rw [List.flatMap_cons, List.filter_append]
    rcases List.mem_cons.mp member with rfl | later
    · have own : (items part).filter (fun item => keyOf item == key part) = items part :=
        List.filter_eq_self.mpr fun item inside => beq_iff_eq.mpr (keyedHead item inside)
      have others : (rest.flatMap items).filter (fun item => keyOf item == key part) = [] := by
        refine List.filter_eq_nil_iff.mpr fun item inside same => distinct.1 ?_
        obtain ⟨other, listed, held⟩ := List.mem_flatMap.mp inside
        rw [← eq_of_beq same, keyedRest other listed item held]
        exact List.mem_map_of_mem listed
      rw [own, others, List.append_nil]
    · have foreign : (items head).filter (fun item => keyOf item == key part) = [] := by
        refine List.filter_eq_nil_iff.mpr fun item inside same => distinct.1 ?_
        rw [← keyedHead item inside, eq_of_beq same]
        exact List.mem_map_of_mem later
      rw [foreign, List.nil_append]
      exact ih distinct.2 keyedRest later

end Places

namespace Resolver

variable {resolver : Resolver}

/-- A reference stands where its use does, in the file that is walked. -/
theorem place_of_reference? {context : String} {use : Use} {reference : Reference}
    (found : resolver.reference? context use = some reference) :
    reference.file = resolver.file.path ∧ use.span? = some reference.span := by
  cases use with
  | found id span kind =>
    simp only [reference?] at found
    split at found
    · cases found
    · split at found
      · cases found
      · cases found
        exact ⟨rfl, rfl⟩
  | ambiguous name span candidates => cases found
  | unresolved => cases found

/-- A diagnostic stands where its use does, in the file that is walked. -/
theorem place_of_diagnostic? {use : Use} {diagnostic : Diagnostic}
    (found : resolver.diagnostic? use = some diagnostic) :
    diagnostic.file = resolver.file.path ∧ use.span? = some diagnostic.span := by
  cases use with
  | found id span kind => cases found
  | ambiguous name span candidates =>
    cases found
    exact ⟨rfl, rfl⟩
  | unresolved => cases found

/-- A use that leaves a reference leaves no diagnostic. -/
theorem diagnostic?_eq_none {context : String} {use : Use} {reference : Reference}
    (found : resolver.reference? context use = some reference) :
    resolver.diagnostic? use = none := by
  cases use with
  | found id span kind => rfl
  | ambiguous name span candidates => cases found
  | unresolved => cases found

/-- What a tidy file leaves at a span: no references, or the same reference as often as the file
passes the span, and then no diagnostics. -/
theorem outcomes_at (tidy : resolver.file.Tidy) (span : Span) :
    resolver.references.filter (fun reference => reference.span == span) = [] ∨
      (∃ reference, resolver.references.filter (fun reference => reference.span == span) =
        List.replicate (resolver.file.passes.count span) reference) ∧
      resolver.diagnostics.filter (fun diagnostic => diagnostic.span == span) = [] := by
  have referred : resolver.references.filter (fun reference => reference.span == span) =
      (itemsAt (fun entry => entry.2.span?) resolver.fileUses span).filterMap
        fun entry => resolver.reference? entry.1 entry.2 :=
    filter_filterMap_eq (fun _ _ found => (place_of_reference? found).2) _ span
  have told : resolver.diagnostics.filter (fun diagnostic => diagnostic.span == span) =
      (itemsAt (fun entry => entry.2.span?) resolver.fileUses span).filterMap
        fun entry => resolver.diagnostic? entry.2 :=
    filter_filterMap_eq (fun _ _ found => (place_of_diagnostic? found).2) _ span
  rw [referred, told]
  rcases uniform_fileUses tidy span with none | ⟨entry, all⟩
  · rw [none]
    exact Or.inl rfl
  · rw [all]
    cases found : resolver.reference? entry.1 entry.2 with
    | none => exact Or.inl (List.filterMap_replicate_of_none found)
    | some reference =>
      exact Or.inr ⟨⟨reference, List.filterMap_replicate_of_some found⟩,
        List.filterMap_replicate_of_none (diagnostic?_eq_none found)⟩

end Resolver

namespace Module

variable {module : Module} {options : IndexOptions} {symbols : SymbolTable}

/-- No two files that are walked share a path. -/
theorem paths_of_resolvers (distinct : (module.sourceFiles.map SourceFile.path).Nodup) :
    ((module.resolvers options symbols).map (·.file.path)).Nodup := by
  unfold resolvers
  rw [List.map_map]
  refine distinct.sublist ?_
  rw [← module.map_snd_files, List.map_map]
  exact (List.filter_sublist).map _

/-- The references in a file that is walked are those of its walk. -/
theorem references_in_file (distinct : (module.sourceFiles.map SourceFile.path).Nodup)
    {resolver : Resolver} (walked : resolver ∈ module.resolvers options symbols) :
    ((module.resolvers options symbols).flatMap Resolver.references).filter
        (fun reference => reference.file == resolver.file.path) = resolver.references := by
  refine filter_flatMap_of_distinct (paths_of_resolvers distinct) ?_ walked
  intro other _ reference member
  obtain ⟨entry, -, found⟩ := List.mem_filterMap.mp member
  exact (Resolver.place_of_reference? found).1

/-- The diagnostics in a file that is walked are those of its walk. -/
theorem diagnostics_in_file (distinct : (module.sourceFiles.map SourceFile.path).Nodup)
    {resolver : Resolver} (walked : resolver ∈ module.resolvers options symbols) :
    ((module.resolvers options symbols).flatMap Resolver.diagnostics).filter
        (fun diagnostic => diagnostic.file == resolver.file.path) = resolver.diagnostics := by
  refine filter_flatMap_of_distinct (paths_of_resolvers distinct) ?_ walked
  intro other _ diagnostic member
  obtain ⟨entry, -, found⟩ := List.mem_filterMap.mp member
  exact (Resolver.place_of_diagnostic? found).1

end Module

/-- What the index of a module from source text says of each place. -/
structure Index.Settled (index : Index) (module : Module) : Prop where
  /-- No place carries both a reference and a diagnostic. -/
  apart : ∀ reference ∈ index.references.references, ∀ diagnostic ∈ index.diagnostics,
    reference.place ≠ diagnostic.place
  /-- A diagnostic lists two symbols or more, each once, all with its name. -/
  several : ∀ diagnostic ∈ index.diagnostics,
    diagnostic.candidates.Nodup ∧ 2 ≤ diagnostic.candidates.length ∧
      ∀ id ∈ diagnostic.candidates, ∃ symbol ∈ index.symbols.toList,
        symbol.id = id ∧ symbol.name = diagnostic.name
  /-- References at one place differ in their numbers only. -/
  agree : ∀ reference ∈ index.references.references, ∀ other ∈ index.references.references,
    reference.place = other.place → reference.unnumbered = other.unnumbered
  /-- A place has a reference for each time that its file passes the place. -/
  passed : ∀ reference ∈ index.references.references, ∃ file,
    module.file? reference.file = some file ∧
      (index.references.references.map Reference.place).count reference.place =
        file.passes.count reference.span

/-- Ambiguous uses of a walk leave diagnostics that list several symbols with their name. -/
theorem Resolver.several_of_mem_diagnostics {resolver : Resolver}
    (filed : resolver.symbols = .ofList resolver.symbols.toList) {diagnostic : Diagnostic}
    (member : diagnostic ∈ resolver.diagnostics) :
    diagnostic.candidates.Nodup ∧ 2 ≤ diagnostic.candidates.length ∧
      ∀ id ∈ diagnostic.candidates, ∃ symbol ∈ resolver.symbols.toList,
        symbol.id = id ∧ symbol.name = diagnostic.name := by
  obtain ⟨⟨context, use⟩, listed, found⟩ := List.mem_filterMap.mp member
  have genuine := genuine_of_mem_fileUses listed
  cases use with
  | found id span kind => cases found
  | ambiguous name span candidates =>
    cases found
    obtain ⟨strict, several, among⟩ := genuine
    refine ⟨strict.imp Nat.ne_of_lt, several, fun id inside => ?_⟩
    obtain ⟨symbol, named, same⟩ := among id inside
    obtain ⟨listed, called⟩ := SymbolTable.mem_of_named filed named
    exact ⟨symbol, listed, same, called⟩
  | unresolved => cases found

section Built

variable {module : Module} {options : IndexOptions} {index : Index}

/-- A reference of an index comes from the walk over its file. -/
theorem Module.resolver_of_reference (built : (module.index options).run = .ok (.ok index))
    {reference : Reference} (member : reference ∈ index.references.references) :
    ∃ resolver ∈ module.resolvers options index.symbols,
      reference.file = resolver.file.path ∧ reference.unnumbered ∈ resolver.references := by
  have inside := List.mem_map_of_mem (f := Reference.unnumbered) member
  rw [Module.unnumbered_references built] at inside
  obtain ⟨resolver, walked, found⟩ := List.mem_flatMap.mp inside
  obtain ⟨entry, -, left⟩ := List.mem_filterMap.mp found
  exact ⟨resolver, walked, (Resolver.place_of_reference? left).1, found⟩

/-- The references to a symbol are those with its number. -/
theorem Module.toSymbol_eq_filter (built : (module.index options).run = .ok (.ok index))
    (id : Nat) :
    index.references.toSymbol id =
      index.references.references.filter fun reference => reference.symbol == id := by
  obtain ⟨-, -, referred, -⟩ := Module.index_spec built
  rw [referred]
  exact Postings.lookup_ofList _ _ id

/-- The references of an index at a place of a file are those of the walk over the file. -/
theorem Module.references_at (built : (module.index options).run = .ok (.ok index))
    {resolver : Resolver} (walked : resolver ∈ module.resolvers options index.symbols)
    (span : Span) :
    (index.references.references.map Reference.unnumbered).filter
        (fun reference => reference.place == (resolver.file.path, span)) =
      resolver.references.filter (fun reference => reference.span == span) := by
  have distinct := (Module.index_spec built).1
  rw [Module.unnumbered_references built, ← Module.references_in_file distinct walked,
    List.filter_filter]
  refine List.filter_congr fun reference _ => ?_
  exact Bool.and_comm ..

/-- Where every file is tidy, there is nothing at the place of a reference but that reference, once
for each pass. -/
theorem Module.alone_at (tidy : ∀ file ∈ module.sourceFiles, file.Tidy)
    (built : (module.index options).run = .ok (.ok index)) {reference : Reference}
    (member : reference ∈ index.references.references) :
    ∃ resolver ∈ module.resolvers options index.symbols,
      reference.file = resolver.file.path ∧
      (index.references.references.map Reference.unnumbered).filter
          (fun other => other.place == reference.place) =
        List.replicate (resolver.file.passes.count reference.span) reference.unnumbered ∧
      resolver.diagnostics.filter (fun diagnostic => diagnostic.span == reference.span) = [] := by
  obtain ⟨resolver, walked, standing, found⟩ := Module.resolver_of_reference built member
  have here : reference.unnumbered ∈
      resolver.references.filter fun other => other.span == reference.span :=
    List.mem_filter.mpr ⟨found, beq_self_eq_true _⟩
  have listed := Module.references_at built walked reference.span
  rw [← standing] at listed
  refine ⟨resolver, walked, standing, ?_⟩
  rcases Resolver.outcomes_at (tidy _ (Module.file_of_mem_resolvers walked).1) reference.span with
    none | ⟨⟨first, all⟩, nothing⟩
  · rw [none] at here
    cases here
  · rw [all] at here listed
    rw [List.eq_of_mem_replicate here]
    exact ⟨listed, nothing⟩

/-- Where every file is tidy, every place is settled. -/
theorem Module.settled_of_tidy (tidy : ∀ file ∈ module.sourceFiles, file.Tidy)
    (built : (module.index options).run = .ok (.ok index)) : index.Settled module := by
  obtain ⟨distinct, drawn, -, told, -⟩ := Module.index_spec built
  obtain ⟨filed, -, -, -⟩ := Module.symbols_spec drawn
  refine ⟨?_, ?_, ?_, ?_⟩
  · intro reference member diagnostic listed same
    obtain ⟨resolver, walked, standing, -, nothing⟩ := Module.alone_at tidy built member
    obtain ⟨file, span⟩ := Prod.mk.inj same
    rw [told] at listed
    have here : diagnostic ∈ resolver.diagnostics := by
      rw [← Module.diagnostics_in_file distinct walked]
      exact List.mem_filter.mpr ⟨listed, beq_iff_eq.mpr (file.symm.trans standing)⟩
    have there : diagnostic ∈
        resolver.diagnostics.filter fun diagnostic => diagnostic.span == reference.span :=
      List.mem_filter.mpr ⟨here, beq_iff_eq.mpr span.symm⟩
    rw [nothing] at there
    cases there
  · intro diagnostic listed
    rw [told] at listed
    obtain ⟨resolver, walked, found⟩ := List.mem_flatMap.mp listed
    rw [← (Module.file_of_mem_resolvers walked).2.2] at filed ⊢
    exact Resolver.several_of_mem_diagnostics filed found
  · intro reference member other member' same
    obtain ⟨resolver, -, -, all, -⟩ := Module.alone_at tidy built member
    have here : other.unnumbered ∈
        List.replicate (resolver.file.passes.count reference.span) reference.unnumbered := by
      rw [← all]
      exact List.mem_filter.mpr ⟨List.mem_map_of_mem member', beq_iff_eq.mpr same.symm⟩
    exact (List.eq_of_mem_replicate here).symm
  · intro reference member
    obtain ⟨resolver, walked, standing, all, -⟩ := Module.alone_at tidy built member
    refine ⟨resolver.file, ?_, ?_⟩
    · rw [standing]
      exact Module.file?_path distinct (Module.file_of_mem_resolvers walked).1
    · have lengths := congrArg List.length all
      rw [List.length_replicate, ← List.countP_eq_length_filter, List.countP_map] at lengths
      rw [List.count, List.countP_map]
      exact lengths

end Built

/-- **Outcomes of uses.** In a module from source text, a place has references to one symbol, or
diagnostics that list several, or neither. No two references share a place exactly when no file
passes the place of a reference more than once. -/
theorem index_outcomes {path : String} {sources : List (String × String)} {module : Module}
    {options : IndexOptions} {index : Index} (loaded : Module.ofSources path sources = .ok module)
    (built : (module.index options).run = .ok (.ok index)) :
    index.Settled module ∧
      ((index.references.references.map Reference.place).Nodup ↔
        ∀ reference ∈ index.references.references, ∃ file,
          module.file? reference.file = some file ∧ file.passes.count reference.span = 1) := by
  have settled : index.Settled module :=
    Module.settled_of_tidy (fun file inside => SourceFile.tidy_of_parse
      (Module.scanned_of_ofSources loaded file inside)) built
  refine ⟨settled, ?_⟩
  rw [List.nodup_iff_count_eq_one, List.forall_mem_map]
  constructor
  · intro once reference member
    obtain ⟨file, found, count⟩ := settled.passed reference member
    exact ⟨file, found, count ▸ once reference member⟩
  · intro once reference member
    obtain ⟨file, found, count⟩ := settled.passed reference member
    obtain ⟨file', found', one⟩ := once reference member
    cases found.symm.trans found'
    rw [count, one]

/-- A struct whose two fields share one mention of their type. -/
def sharedTypeSources : List (String × String) :=
  [("p/a.go", "package p\n\ntype T int\n\ntype S struct \x7b a, b T \x7d\n")]

/-- A type that two fields share is passed twice and referred to twice, at one place. -/
theorem shared_type_is_referred_twice :
    ∃ module index, Module.ofSources "m" sharedTypeSources = .ok module ∧
      (module.index {}).run = .ok (.ok index) ∧
      index.references.references.map Reference.place =
        [("p/a.go", ⟨44, 45⟩), ("p/a.go", ⟨44, 45⟩)] ∧
      index.Settled module ∧
      ¬∀ reference ∈ index.references.references, ∃ file,
        module.file? reference.file = some file ∧ file.passes.count reference.span = 1 := by
  have evaluated : checkOk (Module.ofSources "m" sharedTypeSources) (fun module =>
      checkOk (module.index {}).run fun ending =>
        checkOk ending fun index => index.references.references.map Reference.place ==
          [("p/a.go", ⟨44, 45⟩), ("p/a.go", ⟨44, 45⟩)]) = true := by
    decide +kernel
  obtain ⟨module, loaded, checked⟩ := exists_of_checkOk evaluated
  obtain ⟨ending, built, ended⟩ := exists_of_checkOk checked
  obtain ⟨index, rfl, same⟩ := exists_of_checkOk ended
  have places := eq_of_beq same
  obtain ⟨settled, once⟩ := index_outcomes loaded built
  refine ⟨module, index, loaded, built, places, settled, fun every => ?_⟩
  have distinct := once.mpr every
  rw [places] at distinct
  exact absurd distinct (by decide)

end GoRefactor
