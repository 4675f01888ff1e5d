import GoRefactor.Proofs.Edit.LaidOut
import GoRefactor.Proofs.Symbol.Outcomes

/-!
# Indexes of files that are laid out

Where every file keeps to the lexemes of its text, an index is built or refused, but nothing else
can happen: all extents are spans. What can be renamed, and what stands for it, are names of the
text, keywords and dots apart.
-/

namespace GoRefactor

open Lexeme

/-- A name stands at the span, no keyword. -/
def Lexeme.NameAt (lexemes : List Lexeme) (span : Span) : Prop :=
  ∃ text, isKeyword (String.ofList text) = false ∧ Stands 0 lexemes (.word text) span

/-- A name is not empty. -/
theorem Lexeme.NameAt.filled {lexemes : List Lexeme} {span : Span} (solid : Solid lexemes)
    (name : NameAt lexemes span) : span.start < span.stop := by
  obtain ⟨text, -, front, back, rfl, covers⟩ := name
  have alone : Solid [.word text] := fun other held =>
    solid other (by simp [List.mem_singleton.mp held])
  have nonempty := alone.head
  rw [covers]
  simp only
  omega

/-- The test for marks gets through spans only. -/
theorem Marks.upright_guard (marks : Marks) : marks.guard.Upright :=
  fun visited => (guard_span_iff.mp visited).1.2.2

/-- What the test for proper names has seen is a name. -/
theorem Lexeme.nameAt_of_sees {lexemes : List Lexeme} {mention : Mention}
    (sees : (marks False lexemes).guard.Sees mention) : NameAt lexemes mention.2 := by
  obtain ⟨image, seen⟩ := sees
  obtain ⟨⟨lexeme, stands, -, isName⟩, -⟩ := Marks.guard_named_iff.mp seen
  cases lexeme with
  | word text => exact ⟨text, by simpa [Lexeme.isName] using isName, stands⟩
  | blank | newline | lineComment | blockComment | foreign | number | quoted | raw | semicolon
  | mark => exact absurd isName (by simp [Lexeme.isName])

namespace SourceFile

variable {file : SourceFile} {lexemes : List Lexeme}

/-- Every declaration listed from a file that is laid out has a span as its extent. -/
theorem LaidOut.extent (laid : file.LaidOut lexemes) {package : Package} {options : IndexOptions}
    {drafts : List Draft} (listed : (file, drafts) ∈ Draft.ofPackageFiles options package)
    {draft : Draft} (member : draft ∈ drafts) : ∃ span, draft.extent = .ok span :=
  (Draft.seenBy_of_mem_ofPackageFiles listed laid.fixed (Marks.upright_guard _) laid.inOrder draft
    member).extent

/-- Its name is a name of the text, unless it is an import. -/
theorem LaidOut.nameAt_draft (laid : file.LaidOut lexemes) {package : Package}
    {options : IndexOptions} {drafts : List Draft}
    (listed : (file, drafts) ∈ Draft.ofPackageFiles options package) {draft : Draft}
    (member : draft ∈ drafts) (proper : draft.kind ≠ .imported) :
    NameAt lexemes draft.nameSpan := by
  unfold Draft.ofPackageFiles at listed
  split at listed
  · cases listed
  · rename_i first rest retained
    rcases List.mem_cons.mp listed with same | listed
    · cases same
      rw [List.mem_singleton.mp member]
      have sees : (marks False lexemes).guard.Sees (file.packageName, file.packageSpan) :=
        ⟨_, laid.proper.package⟩
      exact nameAt_of_sees sees
    · obtain ⟨other, -, same⟩ := List.mem_map.mp listed
      cases same
      -- Without its imports the file declares everything else.
      have others : draft ∈ Draft.ofFile package file.withoutImports := by
        have split : Draft.ofFile package file =
            (file.imports.filter fun decl => !decl.isDot && !decl.isBlank).map Draft.ofImport ++
              Draft.ofFile package file.withoutImports := by
          simp only [Draft.ofFile, List.append_assoc]
          rfl
        rw [split] at member
        refine (List.mem_append.mp member).resolve_left fun imported => ?_
        obtain ⟨decl, -, rfl⟩ := List.mem_map.mp imported
        exact proper rfl
      have seen := Draft.seenBy_of_mem_ofFile laid.proper (Marks.upright_guard _) laid.inOrder draft
        others
      rcases seen.name with sees | ⟨decl, none, -⟩
      · exact nameAt_of_sees sees
      · cases none

/-- What a walk over the file passes are names of the text. -/
theorem LaidOut.nameAt_pass (laid : file.LaidOut lexemes) {span : Span}
    (passed : span ∈ file.passes) : NameAt lexemes span := by
  obtain ⟨name, mention⟩ := file.mentioned span passed
  exact nameAt_of_sees (laid.proper.sees (name, span) mention)

end SourceFile

namespace Module

variable {module : Module} {options : IndexOptions} {index : Index}

/-- Every file of the module is laid out. -/
def LaidOut (module : Module) : Prop :=
  ∀ file ∈ module.sourceFiles, ∃ lexemes, file.LaidOut lexemes

/-- **An index of files that are laid out is built or refused.** -/
theorem LaidOut.ends_index (laid : module.LaidOut) (options : IndexOptions) :
    Attempt.Ends (module.index options) := by
  have symbols : Attempt.Ends (module.symbols options) := by
    refine Attempt.ends_bind (Attempt.ends_mapM fun package inside => ?_)
      fun _ _ => Attempt.ends_pure _
    refine Attempt.ends_bind (Attempt.ends_mapM fun entry listed => ?_)
      fun _ _ => Attempt.ends_pure _
    obtain ⟨lexemes, standing⟩ := laid entry.1
      (List.mem_flatMap.mpr ⟨package, inside, (Draft.mem_of_ofPackageFiles listed).1⟩)
    refine Attempt.ends_bind (Attempt.ends_mapM fun draft member => ?_)
      fun _ _ => Attempt.ends_pure _
    obtain ⟨span, extent⟩ := standing.extent listed member
    unfold Draft.toSymbol?
    rw [extent]
    refine Attempt.ends_bind ⟨.ok span, rfl⟩ fun _ _ => ?_
    exact Attempt.ends_ite (Attempt.ends_ite (Attempt.ends_refuse _) (Attempt.ends_pure _))
      (Attempt.ends_pure _)
  unfold Module.index
  split
  · exact Attempt.ends_refuse _
  · refine Attempt.ends_bind symbols fun table _ => ?_
    cases module.findings options table with
    | error error =>
      exact Attempt.ends_bind (Attempt.ends_refuse error) fun _ _ => Attempt.ends_pure _
    | ok found => exact Attempt.ends_pure _

/-- A name stands at the span of the file with the path, whatever lexemes the file is laid out
in. -/
def NameAt (module : Module) (path : String) (span : Span) : Prop :=
  ∃ file ∈ module.sourceFiles, file.path = path ∧
    ∀ lexemes, file.LaidOut lexemes → Lexeme.NameAt lexemes span

/-- **Symbols that can be renamed are declared at names.** -/
theorem nameAt_symbol (built : (module.index options).run = .ok (.ok index)) {symbol : Symbol}
    (member : symbol ∈ index.symbols.toList) (renamable : symbol.kind.isRenamable = true) :
    module.NameAt symbol.file symbol.nameSpan := by
  obtain ⟨-, drawn, -⟩ := index_spec built
  obtain ⟨package, file, drafts, draft, owned, held, drafted, path, kind, -, span⟩ :=
    exists_draft drawn member
  refine ⟨file, owned, path,
    fun lexemes laid => span ▸ laid.nameAt_draft held drafted fun imported => ?_⟩
  rw [← kind, imported] at renamable
  cases renamable

/-- A reference stands where the walk over its file passes. -/
theorem passed_of_reference (built : (module.index options).run = .ok (.ok index))
    {reference : Reference} (member : reference ∈ index.references.references) :
    ∃ file ∈ module.sourceFiles, file.path = reference.file ∧ reference.span ∈ file.passes := by
  obtain ⟨resolver, walked, path, found⟩ := resolver_of_reference built member
  obtain ⟨entry, used, left⟩ := List.mem_filterMap.mp found
  exact ⟨resolver.file, (file_of_mem_resolvers walked).1, path.symm,
    resolver.mem_passes_of_mem_fileUses used (Resolver.place_of_reference? left).2⟩

/-- **References stand at names.** -/
theorem nameAt_reference (built : (module.index options).run = .ok (.ok index))
    {reference : Reference} (member : reference ∈ index.references.references) :
    module.NameAt reference.file reference.span := by
  obtain ⟨file, inside, path, passed⟩ := passed_of_reference built member
  exact ⟨file, inside, path, fun lexemes laid => laid.nameAt_pass passed⟩

end Module

end GoRefactor
