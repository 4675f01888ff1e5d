import Mathlib
import GoRefactor.Proofs.Snapshot.Module
import GoRefactor.Proofs.Transform.Document
import GoRefactor.Proofs.Transform.Reloadable
import GoRefactor.Workspace.Load

/-!
# Modules from their own snapshots

A module that is in shape is read back from its snapshot as it was, whatever it went through, and a
load takes it without complaint: its offsets fit into words, its packages stand under their paths,
its files inside the root and its declarations inside their texts. So a session can go on where
another one stopped.
-/

namespace GoRefactor

namespace Lexeme

variable {lexemes : List Lexeme} {dots : Prop}

/-- What is marked in a text is inside it. -/
theorem le_of_placed {offset : Nat} (placed : (marks dots lexemes).Placed offset) :
    offset ≤ byteLength (flat lexemes) := by
  obtain ⟨count, rfl⟩ := placed
  have whole : flat lexemes = flat (lexemes.take count) ++ flat (lexemes.drop count) := by
    rw [← flat_append, List.take_append_drop]
  rw [place, whole, byteLength_append]
  exact Nat.le_add_right _ _

/-- What is marked in a text that is not too long fits into words. -/
theorem words_marks (short : byteLength (flat lexemes) < 2 ^ 63) : (marks dots lexemes).Words :=
  fun _ placed => Nat.lt_trans (Nat.lt_of_le_of_lt (le_of_placed placed) short)
    (by decide : 2 ^ 63 < UInt64.size)

end Lexeme

namespace Marks

variable {marks : Marks}

/-- A type that keeps to the marks spans from mark to mark. -/
theorem spans_typeDecl {decl : TypeDecl} (passed : marks.guard.typeDecl decl = .ok decl) :
    marks.Spans decl.extent := by
  obtain ⟨_, -, passed⟩ := bind_eq_ok.mp passed
  obtain ⟨_, spanned, -⟩ := bind_eq_ok.mp passed
  exact (guard_span_iff.mp spanned).1

/-- A function or method that keeps to the marks spans from mark to mark. -/
theorem spans_funcDecl {decl : FuncDecl} (passed : marks.guard.funcDecl decl = .ok decl) :
    marks.Spans decl.extent := by
  obtain ⟨_, -, passed⟩ := bind_eq_ok.mp passed
  obtain ⟨_, spanned, -⟩ := bind_eq_ok.mp passed
  exact (guard_span_iff.mp spanned).1

/-- A variable or constant that keeps to the marks spans from mark to mark. -/
theorem spans_valueDecl {decl : ValueDecl} (passed : marks.guard.valueDecl decl = .ok decl) :
    marks.Spans decl.extent := by
  obtain ⟨_, -, passed⟩ := bind_eq_ok.mp passed
  obtain ⟨_, spanned, -⟩ := bind_eq_ok.mp passed
  exact (guard_span_iff.mp spanned).1

end Marks

namespace SourceFile

variable {file : SourceFile} {lexemes : List Lexeme}

/-- Declarations of a file that is laid out are inside its text. -/
theorem LaidOut.contained (laid : file.LaidOut lexemes) : file.isContained = true := by
  have funcs (decl : FuncDecl) (member : decl ∈ file.functions.values ++ file.methods) :=
    Marks.spans_funcDecl (laid.fixed.funcDecl member)
  have values (decl : ValueDecl)
      (member : decl ∈ file.vars.values ++ file.consts.values ++ file.blanks) :=
    Marks.spans_valueDecl (laid.fixed.valueDecl member)
  rw [List.forall_mem_append] at funcs
  rw [List.forall_mem_append, List.forall_mem_append] at values
  unfold isContained
  simp only [List.all_append, Bool.and_eq_true, List.all_eq_true, List.forall_mem_map,
    decide_eq_true_eq]
  have inside {extent : Span} (spans : (Lexeme.marks True lexemes).Spans extent) :
      extent.start ≤ extent.stop ∧ extent.stop ≤ file.content.utf8ByteSize := by
    obtain ⟨-, stop, order⟩ := spans
    rw [laid.content, utf8ByteSize_ofList]
    exact ⟨order, Lexeme.le_of_placed stop⟩
  refine ⟨⟨⟨⟨?_, ?_⟩, ?_⟩, ?_⟩, ?_⟩
  · exact fun decl member => inside (Marks.spans_typeDecl (laid.fixed.typeDecl member))
  · exact fun decl member => inside (funcs.1 decl member)
  · exact fun decl member => inside (funcs.2 decl member)
  · exact fun decl member => inside (values.1.1 decl member)
  · exact fun decl member => inside (values.1.2 decl member)

end SourceFile

namespace Module

/-- A load that is to keep everything does. -/
theorem restrict_of_keeps {options : LoadOptions} (tests : options.includeTests = true)
    (docs : options.loadDocs = true) (module : Module) : module.restrict options = module := by
  have same (package : Package) : { package with
      files := if options.loadDocs then
        package.files.filter fun file => options.includeTests || !file.isTest
      else (package.files.filter fun file => options.includeTests || !file.isTest).map
        SourceFile.withoutDocs } = package := by
    simp [tests, docs]
  unfold restrict
  simp only [same]
  have entries : (module.packages.mapValues fun package => package) = module.packages :=
    NameMap.ext (List.map_id' _)
  rw [entries]

namespace Reloadable

variable {module : Module}

/-- **A load finds no flaw in a module that is in shape.** -/
theorem snapshotFlaw?_eq_none (shaped : module.Reloadable) : module.snapshotFlaw? = none := by
  have keyed : (module.packages.entries.find? fun entry => entry.1 != entry.2.path) = none := by
    rw [List.find?_eq_none]
    intro entry member
    simp [shaped.addressed.keyed entry member]
  unfold snapshotFlaw?
  rw [keyed]
  simp only
  rw [List.findSome?_eq_none_iff]
  intro file member
  rw [map_snd_files] at member
  obtain ⟨lexemes, laid⟩ := shaped.laid file member
  rw [shaped.addressed.relative file.path ⟨file, member, rfl⟩, laid.contained]
  rfl

/-- **A module that is in shape is read back from its snapshot.** -/
theorem module?_encodeModule (shaped : module.Reloadable) :
    Snapshot.module? (Snapshot.encodeModule module) = some module := by
  refine Snapshot.module?_encodeModule shaped.addressed.revision fun package listed file held => ?_
  have member : file ∈ module.sourceFiles := List.mem_flatMap.mpr ⟨package, listed, held⟩
  obtain ⟨lexemes, laid⟩ := shaped.laid file member
  have short := shaped.small file member
  rw [laid.content, utf8ByteSize_ofList] at short
  exact Snapshot.file?_encodeFile (Lexeme.words_marks short) laid.fixed laid.paired

/-- A load of the snapshot gives the module. -/
theorem ofSnapshot (shaped : module.Reloadable) {options : LoadOptions}
    (tests : options.includeTests = true) (docs : options.loadDocs = true) {text : String}
    (read : Json.read? text = some (Snapshot.encodeModule module)) :
    Module.ofSnapshot text options = .ok module := by
  unfold Module.ofSnapshot
  rw [read, Option.bind_some, shaped.module?_encodeModule]
  simp only
  rw [shaped.snapshotFlaw?_eq_none]
  simp only
  rw [restrict_of_keeps tests docs]

end Reloadable

end Module

/-- **A snapshot is loaded as the module that it was taken of.** From a module of source text, any
renames, extractions and chains, refused or not, lead to a module that its own snapshot is read back
as. A load takes the snapshot, and gives the very module if tests and doc comments are kept. A
transformation, too, is read back from its document, with all the chains in it. -/
theorem reload_after_run (path : String) (sources : List (String × String)) (start : Module)
    (steps : List Step) (loaded : Module.ofSources path sources = .ok start)
    (planned : ∀ step ∈ steps, step.IsPlanned)
    (short : ∀ source ∈ sources, source.2.utf8ByteSize < 2 ^ 63)
    (fits : Step.AllFit steps start) :
    (∃ final, Step.runAll steps start = .ok final ∧
      Snapshot.module? (Snapshot.encodeModule final) = some final ∧
      final.snapshotFlaw? = none ∧
      ∀ (text : String) (options : LoadOptions), options.includeTests = true →
        options.loadDocs = true → Json.read? text = some (Snapshot.encodeModule final) →
          Module.ofSnapshot text options = .ok final) ∧
    ∀ transformation : Transformation, transformation.Words →
      Document.transformation? (Document.transformation transformation) = some transformation := by
  have shaped := Module.reloadable_of_ofSources loaded short
  obtain ⟨final, ran, shaped'⟩ := Step.runAll_reloadable shaped planned fits
  refine ⟨⟨final, ran, shaped'.module?_encodeModule, shaped'.snapshotFlaw?_eq_none,
    fun text options tests docs read => shaped'.ofSnapshot tests docs read⟩, ?_⟩
  exact fun _ words => Document.transformation?_transformation words

/-- A struct with a method. -/
def reloadedSources : List (String × String) :=
  [("a.go", "package a\n\ntype T struct\x7b\x7d\n\nfunc (T) M() \x7b\x7d\n")]

/-- A chain that stops at a rename of what is not there, behind an extraction to a new file. -/
def reloadedSteps : List Step :=
  [.transform (.chain [
    .extract { minTypes := 1, interfaceName := some "Mer", createNewFiles := true },
    .rename { old := "Missing", new := "V" }])]

/-- The snapshot of a module without packages. -/
def emptySnapshot : String := "\x7b\"path\":\"m\",\"packages\":\x7b\x7d,\"revision\":0\x7d"

/-- The module with the new file is read back, and a load of the text of a snapshot gives its
module. -/
theorem reload_after_partial_chain :
    (∃ start final, Module.ofSources "m" reloadedSources = .ok start ∧
      Step.runAll reloadedSteps start = .ok final ∧
      final.modifiedFiles.map SourceFile.path = ["mer.go"] ∧
      Snapshot.module? (Snapshot.encodeModule final) = some final) ∧
    Module.ofSnapshot emptySnapshot { includeTests := true } = .ok ⟨"m", ∅, 0⟩ := by
  constructor
  · have evaluated : checkOk (Module.ofSources "m" reloadedSources) (fun start =>
        decide (Step.AllFit reloadedSteps start) &&
          checkOk (Step.runAll reloadedSteps start) fun final =>
            decide (final.modifiedFiles.map SourceFile.path = ["mer.go"])) = true := by
      decide +kernel
    obtain ⟨start, loaded, checked⟩ := exists_of_checkOk evaluated
    obtain ⟨fits, changed⟩ := Bool.and_eq_true_iff.mp checked
    have planned : ∀ step ∈ reloadedSteps, step.IsPlanned :=
      List.forall_mem_singleton.mpr trivial
    obtain ⟨⟨final, ran, back, -⟩, -⟩ := reload_after_run "m" reloadedSources start reloadedSteps
      loaded planned (by decide +kernel) (of_decide_eq_true fits)
    obtain ⟨final', ran', modified⟩ := exists_of_checkOk changed
    cases ran.symm.trans ran'
    exact ⟨start, final, loaded, ran, of_decide_eq_true modified, back⟩
  · obtain ⟨⟨final, ran, -, -, reads⟩, -⟩ := reload_after_run "m" [] ⟨"m", ∅, 0⟩ [] rfl
      (List.forall_mem_nil _) (List.forall_mem_nil _) trivial
    cases ran
    have read : Json.read? emptySnapshot = some (Snapshot.encodeModule ⟨"m", ∅, 0⟩) := by cbv
    exact reads emptySnapshot { includeTests := true } rfl rfl read

end GoRefactor
