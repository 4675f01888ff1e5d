import GoRefactor.Proofs.Symbol.Declared
import GoRefactor.Proofs.Symbol.Outcomes
import GoRefactor.Proofs.Symbol.Parallel

/-!
# Which modules are indexed

A module from source text has a symbol for each of its declarations, and a use in it has the name of
the symbol that it is settled on. So a build can be refused for one reason only: a use is settled on
an import of another file, and the file of the use has an import of its own at the very same place.
The use is then expected to have the name of that one, and `index_of_sources` says that this is all
that can go wrong.
-/

namespace GoRefactor

/-- A walk over values that stops has stopped at one of them. -/
theorem mapM_eq_error {ε α β : Type} {visit : α → Except ε β} {values : List α} {stopped : ε}
    (given : values.mapM visit = .error stopped) :
    ∃ value ∈ values, visit value = .error stopped := by
  induction values with
  | nil => cases given
  | cons head rest ih =>
    rw [List.mapM_cons] at given
    cases first : visit head with
    | error failure =>
      rw [first] at given
      cases given
      exact ⟨head, List.mem_cons_self, first⟩
    | ok image =>
      cases others : rest.mapM visit with
      | error failure =>
        rw [first, others] at given
        cases given
        obtain ⟨value, member, same⟩ := ih others
        exact ⟨value, List.mem_cons_of_mem _ member, same⟩
      | ok images =>
        rw [first, others] at given
        cases given

/-- What a use is settled on is one of the candidates. -/
theorem Resolution.mem_of_ofCandidates {ids : List Nat} {id : Nat}
    (settled : Resolution.ofCandidates ids = .resolved id) : id ∈ ids := by
  unfold ofCandidates at settled
  have among : id ∈ dropRepeats (sortBy (fun left right => left ≤ right) ids) := by
    split at settled
    · cases settled
    · rename_i same
      cases settled
      rw [same]
      exact List.mem_cons_self
    · cases settled
  rwa [mem_dropRepeats, mem_sortBy] at among

/-! ## Symbols of a module from source text -/

namespace Draft

variable {options : IndexOptions} {package : Package} {file : SourceFile}

/-- A declaration whose extent is a span and whose name is spelled becomes a symbol or is left
out. -/
theorem run_toSymbol? {draft : Draft} {lines : LineIndex}
    (extent : ∃ span, draft.extent = .ok span)
    (spelled : draft.kind ≠ .imported → file.text draft.nameSpan = draft.name) :
    ∃ result, (draft.toSymbol? options package file lines).run = .ok (.ok result) := by
  obtain ⟨span, given⟩ := extent
  unfold toSymbol?
  rw [given]
  by_cases retained : options.retains draft.kind draft.name = true
  · have placed : (draft.kind != .imported && file.text draft.nameSpan != draft.name) = false := by
      by_cases kind : draft.kind = .imported
      · simp [kind]
      · simp [spelled kind]
    simp only [retained, placed, if_true]
    exact ⟨_, rfl⟩
  · simp only [retained]
    exact ⟨_, rfl⟩

/-- Declarations that the guard has seen are spelled. -/
theorem SeenBy.text_eq {stream : TokenStream} {draft : Draft}
    (seen : draft.SeenBy file stream.guard) (read : file.ReadFrom stream) :
    draft.kind ≠ .imported → file.text draft.nameSpan = draft.name := by
  intro proper
  rcases seen.name with sees | ⟨decl, -, rfl⟩
  · exact read.text_eq sees
  · exact absurd rfl proper

/-- Declarations that the guard has seen stand at their names. -/
theorem SeenBy.calls {stream : TokenStream} {draft : Draft}
    (seen : draft.SeenBy file stream.guard) (read : file.ReadFrom stream) :
    file.Calls draft.name draft.nameSpan := by
  rcases seen.name with sees | ⟨decl, held, rfl⟩
  · exact read.calls sees
  · exact read.calls_import held

/-- What a file that was read from its tokens declares has been seen by the guard. -/
theorem seenBy_guard {entry : SourceFile × List Draft} {stream : TokenStream}
    (listed : entry ∈ ofPackageFiles options package) (read : entry.1.ReadFrom stream) :
    ∀ draft ∈ entry.2, draft.SeenBy entry.1 stream.guard := by
  have upright : stream.guard.Upright := fun {span image} visited => by
    by_contra order
    simp only [TokenStream.guard, Span.between, Span.between?, if_neg order] at visited
    cases visited
  exact seenBy_of_mem_ofPackageFiles listed read.guarded upright fun decl held =>
    (read.formed.types decl held).inOrder

end Draft

namespace Module

variable {module : Module} {options : IndexOptions}

/-- **The symbols of a module whose files were read from their tokens are there.** -/
theorem run_symbols (read : module.AllRead) (options : IndexOptions) :
    ∃ symbols, (module.symbols options).run = .ok (.ok symbols) := by
  have drawn (package : Package) (listed : package ∈ module.packageList) :
      ∃ symbols, (package.symbols options).run = .ok (.ok symbols) := by
    have one (entry : SourceFile × List Draft)
        (held : entry ∈ Draft.ofPackageFiles options package) :
        ∃ symbols, (Draft.toSymbols options package entry.1 entry.2).run = .ok (.ok symbols) := by
      have owned : entry.1 ∈ module.sourceFiles :=
        List.mem_flatMap.mpr ⟨package, listed, (Draft.mem_of_ofPackageFiles held).1⟩
      obtain ⟨stream, stands⟩ := read entry.1 owned
      have seen := Draft.seenBy_guard held stands
      obtain ⟨found, matched⟩ := exists_forall₂ fun draft member =>
        Draft.run_toSymbol? (seen draft member).extent ((seen draft member).text_eq stands)
      exact ⟨_, Attempt.run_bind_eq_ok.mpr ⟨found, Attempt.run_mapM_eq_ok.mpr matched, rfl⟩⟩
    obtain ⟨found, matched⟩ := exists_forall₂ one
    exact ⟨_, Attempt.run_bind_eq_ok.mpr ⟨found, Attempt.run_mapM_eq_ok.mpr matched, rfl⟩⟩
  obtain ⟨found, matched⟩ := exists_forall₂ drawn
  exact ⟨_, Attempt.run_bind_eq_ok.mpr ⟨found, Attempt.run_mapM_eq_ok.mpr matched, rfl⟩⟩

/-- Every symbol stands at its name. -/
theorem calls_of_mem_symbols (read : module.AllRead) {symbols : SymbolTable}
    (drawn : (module.symbols options).run = .ok (.ok symbols)) {symbol : Symbol}
    (member : symbol ∈ symbols.toList) : module.Calls symbol.name symbol.file symbol.nameSpan := by
  obtain ⟨package, file, drafts, draft, owned, held, drafted, path, -, name, span⟩ :=
    exists_draft drawn member
  obtain ⟨stream, stands⟩ := read file owned
  rw [← path, ← name, ← span]
  exact ⟨file, owned, rfl, (Draft.seenBy_guard held stands draft drafted).calls stands⟩

/-- A place of a module has one name. -/
theorem Calls.unique (distinct : (module.sourceFiles.map SourceFile.path).Nodup)
    {name name' path : String} {span : Span} (calls : module.Calls name path span)
    (calls' : module.Calls name' path span) : name = name' := by
  obtain ⟨file, held, stands, calls⟩ := calls
  obtain ⟨file', held', stands', calls'⟩ := calls'
  have same : file = file' := by
    have found := module.file?_path distinct held
    rw [stands, ← stands', module.file?_path distinct held'] at found
    exact (Option.some.inj found).symm
  exact calls.unique (same ▸ calls')

end Module

/-- What is declared at a span is a symbol of the table with that place. -/
theorem SymbolTable.mem_of_atOrigin {table : SymbolTable} (filed : table = .ofList table.toList)
    {file : String} {span : Span} {symbol : Symbol}
    (found : table.atOrigin file span = some symbol) :
    symbol ∈ table.toList ∧ symbol.file = file ∧ symbol.nameSpan = span := by
  have member := List.mem_of_getLast? found
  obtain ⟨member, placed⟩ := List.mem_filter.mp member
  obtain ⟨path, stands⟩ := Bool.and_eq_true_iff.mp placed
  refine ⟨?_, eq_of_beq path, eq_of_beq stands⟩
  rw [filed] at member
  change symbol ∈ Postings.lookup (.ofList _ _) _ at member
  rw [Postings.lookup_ofList] at member
  exact (List.mem_filter.mp member).1

/-! ## Uses of a module from source text -/

namespace Resolver

variable {module : Module} {options : IndexOptions} {symbols : SymbolTable} {resolver : Resolver}

/-- A use that stands for a symbol has the name of the symbol. -/
def Fair (resolver : Resolver) : Use → Prop
  | .found id span _ =>
    ∃ target, resolver.symbols.get? id = some target ∧ resolver.file.text span = target.name
  | _ => True

section Steps

variable (filed : resolver.symbols = .ofList resolver.symbols.toList)
  (numbered : resolver.symbols.toList.map (·.id) = List.range resolver.symbols.size)
include filed numbered

/-- A use that candidates with its name settle is fair. -/
theorem fair_of_candidates {name : String} {span : Span} {kind : ReferenceKind}
    (spelled : resolver.file.text span = name) (eligible : Symbol → Bool) :
    ∀ use ∈ (Resolution.ofCandidates
        (((resolver.symbols.named name).filter eligible).map (·.id))).uses name span kind,
      resolver.Fair use := by
  cases settled : Resolution.ofCandidates
      (((resolver.symbols.named name).filter eligible).map (·.id)) with
  | resolved id =>
    obtain ⟨symbol, member, rfl⟩ := List.mem_map.mp (Resolution.mem_of_ofCandidates settled)
    obtain ⟨listed, named⟩ := SymbolTable.mem_of_named filed (List.mem_filter.mp member).1
    exact List.forall_mem_singleton.mpr
      ⟨symbol, SymbolTable.get?_id numbered listed, spelled.trans named.symm⟩
  | ambiguous candidates => exact List.forall_mem_singleton.mpr trivial
  | unresolved => exact List.forall_mem_singleton.mpr trivial

end Steps

/-- A walk of a module's file, compared with itself: its uses are fair. -/
theorem comparable_self (read : module.AllRead)
    (distinct : (module.sourceFiles.map SourceFile.path).Nodup)
    (drawn : (module.symbols options).run = .ok (.ok symbols))
    (walked : resolver ∈ module.resolvers options symbols) :
    resolver.Comparable symbols symbols fun first second =>
      first = second ∧ ∀ use ∈ first, resolver.Fair use := by
  obtain ⟨held, -, same⟩ := Module.file_of_mem_resolvers walked
  obtain ⟨filed, numbered, -, -⟩ := Module.symbols_spec drawn
  obtain ⟨⟨package, file⟩, -, made⟩ := List.mem_map.mp walked
  have scope : resolver.scope = ModuleScope.ofModule options module := by rw [← made]
  obtain ⟨stream, stands⟩ := read resolver.file held
  subst same
  refine ⟨⟨rfl, List.forall_mem_nil _⟩, ?_,
    ⟨rfl, List.forall_mem_singleton.mpr trivial⟩, ?_, ?_, ?_,
    fun settled => settled, fun _ _ opened settled => absurd opened settled⟩
  · rintro first second first' second' ⟨rfl, fair⟩ ⟨rfl, fair'⟩
    exact ⟨rfl, List.forall_mem_append.mpr ⟨fair, fair'⟩⟩
  · intro name file span nameSpan kind mention declares
    refine ⟨rfl, ?_⟩
    unfold SymbolTable.usesAt
    cases found : resolver.symbols.atOrigin file nameSpan with
    | none => exact List.forall_mem_nil _
    | some symbol =>
      obtain ⟨listed, rfl, rfl⟩ := SymbolTable.mem_of_atOrigin filed found
      refine List.forall_mem_singleton.mpr ⟨symbol, SymbolTable.get?_id numbered listed, ?_⟩
      have spelled : resolver.file.text span = name := stands.text_of_mem_mentions mention
      rw [spelled]
      exact (ModuleScope.calls_of_declares read scope held declares).unique distinct
        (Module.calls_of_mem_symbols read drawn listed)
  · intro name span kind mention
    exact ⟨rfl, fair_of_candidates filed numbered (stands.text_of_mem_mentions mention) _⟩
  · intro qualifier name span kind mention _
    exact ⟨rfl, fair_of_candidates filed numbered (stands.text_of_mem_mentions mention) _⟩

/-- **Every use in a module from source text is fair.** -/
theorem fair_of_mem_fileUses (read : module.AllRead)
    (distinct : (module.sourceFiles.map SourceFile.path).Nodup)
    (drawn : (module.symbols options).run = .ok (.ok symbols))
    (walked : resolver ∈ module.resolvers options symbols) :
    ∀ entry ∈ resolver.fileUses, resolver.Fair entry.2 := by
  intro entry member
  have together := inOrder_together (comparable_self read distinct drawn walked)
  obtain ⟨-, -, same⟩ := Module.file_of_mem_resolvers walked
  subst same
  obtain ⟨top, listed, inside⟩ := List.mem_flatMap.mp member
  obtain ⟨use, noted, rfl⟩ := List.mem_map.mp inside
  obtain ⟨other, -, -, -, fair⟩ := exists_mem_of_forall₂ together.flip listed
  exact fair use noted

/-- A use is settled on an import of another file, and an import of its own file has the place of
that one and another name. -/
structure Misreads (resolver : Resolver) (span : Span) (target : Symbol) (decl : Import) :
    Prop where
  /-- The target is an import. -/
  imported : target.kind = .imported
  /-- It belongs to another file. -/
  foreign : target.file ≠ resolver.file.path
  /-- An import of this file has its place. -/
  placed : resolver.file.imports.find? (fun decl => decl.nameSpan == target.nameSpan) = some decl
  /-- The use has the name of the target. -/
  text : resolver.file.text span = target.name
  /-- The import of this file has another name. -/
  other : decl.localName ≠ target.name

/-- An import that stands where an imported symbol of the same file does has its name. -/
theorem name_of_placed (read : module.AllRead)
    (distinct : (module.sourceFiles.map SourceFile.path).Nodup)
    (drawn : (module.symbols options).run = .ok (.ok symbols))
    (walked : resolver ∈ module.resolvers options symbols) {id : Nat} {target : Symbol}
    (found : resolver.symbols.get? id = some target) (own : target.file = resolver.file.path)
    {decl : Import} (placed : resolver.file.imports.find?
      (fun decl => decl.nameSpan == target.nameSpan) = some decl) :
    target.name = decl.localName := by
  obtain ⟨held, -, same⟩ := Module.file_of_mem_resolvers walked
  obtain ⟨stream, stands⟩ := read resolver.file held
  have place : decl.nameSpan = target.nameSpan := by simpa using List.find?_some placed
  have listed : target ∈ symbols.toList := SymbolTable.mem_of_get? (same ▸ found)
  refine (Module.calls_of_mem_symbols read drawn listed).unique distinct ?_
  rw [own, ← place]
  exact ⟨resolver.file, held, rfl, stands.calls_import (List.mem_of_find?_eq_some placed)⟩

/-- What is recorded of a fair use: it is refused exactly when it is misread. -/
theorem record_eq_error_iff (read : module.AllRead)
    (distinct : (module.sourceFiles.map SourceFile.path).Nodup)
    (drawn : (module.symbols options).run = .ok (.ok symbols))
    (walked : resolver ∈ module.resolvers options symbols) {use : Use} (fair : resolver.Fair use)
    (lines : LineIndex) (context : String) {error : Error} :
    resolver.record lines context use = .error error ↔
      ∃ id span kind target decl, use = .found id span kind ∧
        resolver.symbols.get? id = some target ∧ resolver.Misreads span target decl ∧
        error = .invalidModel
          (.misplacedUse resolver.file.path span target.name decl.localName) := by
  constructor
  · intro refused
    cases use with
    | found id span kind =>
      obtain ⟨target, found, text⟩ := fair
      rw [record] at refused
      simp only [found] at refused
      split at refused
      · cases refused
      · split at refused
        · rename_i differs
          cases refused
          rw [text] at differs ⊢
          have apart : target.name ≠ resolver.expectedText target := by simpa using differs
          unfold expectedText at apart ⊢
          by_cases kindOf : target.kind = .imported
          · simp only [kindOf, beq_self_eq_true, if_true] at apart ⊢
            cases placed : resolver.file.imports.find? fun decl =>
                decl.nameSpan == target.nameSpan with
            | none =>
              rw [placed] at apart
              exact absurd rfl apart
            | some decl =>
              rw [placed] at apart
              refine ⟨id, span, kind, target, decl, rfl, found,
                ⟨kindOf, fun own => apart ?_, placed, text, fun same => apart same.symm⟩, rfl⟩
              exact name_of_placed read distinct drawn walked found own placed
          · rw [if_neg (by simpa using kindOf)] at apart
            exact absurd rfl apart
        · cases refused
    | ambiguous name span candidates => cases refused
    | unresolved => cases refused
  · rintro ⟨id, span, kind, target, decl, rfl, found, misread, rfl⟩
    have apart : target.declaredAt resolver.file.path span = false := by
      unfold Symbol.declaredAt
      rw [beq_eq_false_iff_ne.mpr misread.foreign]
      rfl
    have expected : resolver.expectedText target = decl.localName := by
      unfold expectedText
      rw [misread.imported, if_pos (beq_self_eq_true _), misread.placed]
    have differs : (target.name != decl.localName) = true :=
      bne_iff_ne.mpr fun same => misread.other same.symm
    rw [record]
    simp only [found, apart, expected, misread.text, differs, if_true]
    rfl

end Resolver

namespace Module

variable {module : Module} {options : IndexOptions} {symbols : SymbolTable}

/-- No use in the retained files is misread. -/
def ReadsWell (module : Module) (options : IndexOptions) (symbols : SymbolTable) : Prop :=
  ∀ resolver ∈ module.resolvers options symbols, ∀ context id span kind,
    (context, Use.found id span kind) ∈ resolver.fileUses →
    ∀ target, symbols.get? id = some target → ∀ decl, ¬resolver.Misreads span target decl

/-- What is recorded of a module from source text: everything, or a use that is misread is
refused. -/
theorem findings_cases (read : module.AllRead)
    (distinct : (module.sourceFiles.map SourceFile.path).Nodup)
    (drawn : (module.symbols options).run = .ok (.ok symbols)) :
    (∃ found, module.findings options symbols = .ok found ∧ module.ReadsWell options symbols) ∨
      ∃ resolver ∈ module.resolvers options symbols, ∃ span target decl,
        ¬module.ReadsWell options symbols ∧ resolver.Misreads span target decl ∧
        module.findings options symbols = .error (.invalidModel
          (.misplacedUse resolver.file.path span target.name decl.localName)) := by
  have listed : module.findings options symbols =
      (do
        let found ← (module.resolvers options symbols).mapM Resolver.findings
        return found.flatten) := by
    unfold findings resolvers
    rw [List.mapM_map]
    rfl
  cases recorded : (module.resolvers options symbols).mapM Resolver.findings with
  | ok found =>
    left
    refine ⟨_, by rw [listed, recorded]; rfl, ?_⟩
    intro resolver walked context id span kind member target found decl misread
    obtain ⟨results, -, one⟩ := exists_mem_of_forall₂ (mapM_eq_ok_iff.mp recorded).flip walked
    unfold Resolver.findings at one
    obtain ⟨results, each, -⟩ := bind_eq_ok.mp one
    obtain ⟨result, -, kept⟩ := exists_mem_of_forall₂ (mapM_eq_ok_iff.mp each).flip member
    obtain ⟨-, -, same⟩ := file_of_mem_resolvers walked
    have refused := (Resolver.record_eq_error_iff read distinct drawn walked
      (Resolver.fair_of_mem_fileUses read distinct drawn walked _ member)
      (LineIndex.ofText resolver.file.content) context).mpr
      ⟨id, span, kind, target, decl, rfl, same ▸ found, misread, rfl⟩
    cases kept.symm.trans refused
  | error error =>
    right
    obtain ⟨resolver, walked, stopped⟩ := mapM_eq_error recorded
    have refused : ∃ entry ∈ resolver.fileUses, resolver.record
        (LineIndex.ofText resolver.file.content) entry.1 entry.2 = .error error := by
      unfold Resolver.findings at stopped
      dsimp only at stopped
      cases each : resolver.fileUses.mapM fun entry =>
          resolver.record (LineIndex.ofText resolver.file.content) entry.1 entry.2 with
      | ok results =>
        rw [each] at stopped
        cases stopped
      | error failure =>
        rw [each] at stopped
        cases stopped
        exact mapM_eq_error each
    obtain ⟨⟨context, use⟩, member, refused⟩ := refused
    obtain ⟨id, span, kind, target, decl, rfl, found, misread, rfl⟩ :=
      (Resolver.record_eq_error_iff read distinct drawn walked
        (Resolver.fair_of_mem_fileUses read distinct drawn walked _ member) _ _).mp refused
    obtain ⟨-, -, same⟩ := file_of_mem_resolvers walked
    refine ⟨resolver, walked, span, target, decl, fun well => ?_, misread, ?_⟩
    · exact well resolver walked context id span kind member target (same ▸ found) decl misread
    · rw [listed, recorded]
      rfl

/-- No two files of a module from source text share a path. -/
theorem firstRepeated?_of_ofSources {path : String} {sources : List (String × String)}
    (loaded : Module.ofSources path sources = .ok module) :
    firstRepeated? [] (module.files.map fun (_, file) => file.path) = none := by
  have distinct := Module.nodup_paths_of_ofSources loaded
  refine firstRepeated?_eq_none_iff.mpr ⟨?_, fun _ _ => List.not_mem_nil⟩
  rw [← module.map_snd_files, List.map_map] at distinct
  exact distinct

/-- With its symbols there, a module whose files have different paths is indexed as its uses are
recorded. -/
theorem run_index_of_symbols
    (unrepeated : firstRepeated? [] (module.files.map fun (_, file) => file.path) = none)
    (drawn : (module.symbols options).run = .ok (.ok symbols)) :
    (module.index options).run =
      match module.findings options symbols with
      | .ok found => .ok (.ok {
          revision := module.revision
          options
          symbols
          references := .ofList (Finding.references found)
          diagnostics := Finding.diagnostics found
          unresolved := Finding.unresolvedCount found
          packages := module.packages.size
          files := module.fileCount })
      | .error error => .ok (.error error) := by
  unfold Module.index
  rw [unrepeated]
  dsimp only
  rw [Attempt.run_bind_ok _ drawn]
  cases module.findings options symbols with
  | ok found => rfl
  | error error => rfl

end Module

/-- **Which modules from source text are indexed.** The symbols are always there, and the build
never stops with a fault. It succeeds exactly when no use in a retained file is misread, that is,
settled on an import of another file while an import of its own file has the place of that one and
another name; and a build that is refused is refused for such a use. -/
theorem index_of_sources {path : String} {sources : List (String × String)} {module : Module}
    (loaded : Module.ofSources path sources = .ok module) (options : IndexOptions) :
    ∃ symbols, (module.symbols options).run = .ok (.ok symbols) ∧
      ((∃ index, (module.index options).run = .ok (.ok index)) ↔
        module.ReadsWell options symbols) ∧
      ((∃ index, (module.index options).run = .ok (.ok index)) ∨
        ∃ resolver ∈ module.resolvers options symbols, ∃ span target decl,
          resolver.Misreads span target decl ∧
          (module.index options).run = .ok (.error (.invalidModel
            (.misplacedUse resolver.file.path span target.name decl.localName)))) := by
  have read : module.AllRead := fun file held =>
    (Module.scanned_of_ofSources loaded file held).readFrom
  have distinct := Module.nodup_paths_of_ofSources loaded
  obtain ⟨symbols, drawn⟩ := Module.run_symbols read options
  have outcome := Module.run_index_of_symbols (Module.firstRepeated?_of_ofSources loaded) drawn
  refine ⟨symbols, drawn, ?_⟩
  rcases Module.findings_cases read distinct drawn with
    ⟨found, recorded, well⟩ | ⟨resolver, walked, span, target, decl, ill, misread, recorded⟩
  · rw [recorded] at outcome
    exact ⟨⟨fun _ => well, fun _ => ⟨_, outcome⟩⟩, Or.inl ⟨_, outcome⟩⟩
  · rw [recorded] at outcome
    refine ⟨⟨?_, fun well => absurd well ill⟩,
      Or.inr ⟨resolver, walked, span, target, decl, misread, outcome⟩⟩
    rintro ⟨index, built⟩
    cases outcome.symm.trans built

/-- Two files whose imports have one place and different names, and a use that ends the path of the
first import. -/
def misreadSources : List (String × String) :=
  [("a/a.go", "package a\n\nimport n \"x/q.n\"\n\nvar A = 1\n"),
    ("b/b.go", "package b\n\nimport k \"x/y.z\"\n\nvar B = q.n\n")]

/-- The index of the module is refused for the use that ends the path of the first import. -/
def misreadUseRefused : Bool :=
  match Module.ofSources "m" misreadSources with
  | .error _ => false
  | .ok module =>
    match (module.index .full).run with
    | .ok (.error (.invalidModel (.misplacedUse path span found expected))) =>
      path == "b/b.go" && span == ⟨39, 40⟩ && found == "n" && expected == "k"
    | _ => false

/-- A use of an import of another file is taken for one of an import of its own file, and the
module is refused. -/
theorem misread_use_refuses_index :
    ∃ module symbols, Module.ofSources "m" misreadSources = .ok module ∧
      (module.symbols .full).run = .ok (.ok symbols) ∧
      ¬module.ReadsWell .full symbols ∧
      (module.index .full).run =
        .ok (.error (.invalidModel (.misplacedUse "b/b.go" ⟨39, 40⟩ "n" "k"))) := by
  have evaluated : misreadUseRefused = true := by decide +kernel
  unfold misreadUseRefused at evaluated
  cases loaded : Module.ofSources "m" misreadSources with
  | error error =>
    rw [loaded] at evaluated
    cases evaluated
  | ok module =>
    simp only [loaded] at evaluated
    split at evaluated
    · rename_i path span found expected refused
      simp only [Bool.and_eq_true, beq_iff_eq] at evaluated
      obtain ⟨⟨⟨rfl, rfl⟩, rfl⟩, rfl⟩ := evaluated
      obtain ⟨symbols, drawn, accepted, -⟩ := index_of_sources loaded .full
      refine ⟨module, symbols, rfl, drawn, fun well => ?_, refused⟩
      obtain ⟨index, built⟩ := accepted.mpr well
      cases refused.symm.trans built
    · cases evaluated

end GoRefactor
