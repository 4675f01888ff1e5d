import GoRefactor.Proofs.Transform.Extracted

/-!
# Interfaces in test files

A file holds tests if its path ends so. Structs in such files are passed over, and their interfaces
go to files that hold none, as long as no file is made for them: a new file is named after its
interface, and the interface may be named like a test.
-/

namespace GoRefactor

/-- A text ends with another exactly when it does behind what both end with. -/
theorem endsWith_append (text ending common : String) :
    endsWith (text ++ common) (ending ++ common) = endsWith text ending := by
  unfold endsWith
  rw [Bool.eq_iff_iff, List.isSuffixOf_iff_suffix, List.isSuffixOf_iff_suffix,
    String.toList_append, String.toList_append]
  exact (List.suffix_append_inj_of_length_eq rfl).trans (and_iff_left rfl)

/-- What a path below a directory ends with, its name does, unless it is longer than the name. -/
theorem endsWith_below (directory name ending : String) (clean : '/' ∉ ending.toList) :
    endsWith (directory ++ "/" ++ name) ending = endsWith name ending := by
  unfold endsWith
  rw [Bool.eq_iff_iff, List.isSuffixOf_iff_suffix, List.isSuffixOf_iff_suffix,
    String.toList_append, String.toList_append, List.append_assoc]
  constructor
  · intro suffix
    rcases List.suffix_or_suffix_of_suffix suffix (List.suffix_append _ _) with inside | longer
    · rcases List.suffix_cons_iff.mp inside with whole | behind
      · exact absurd (whole ▸ List.mem_cons_self) clean
      · exact behind
    · exact absurd (longer.subset List.mem_cons_self) clean
  · exact fun suffix => suffix.trans ((List.suffix_append _ _).trans (List.suffix_append _ _))

namespace SourceFile

/-- Declarations at its end make no file one that holds tests, and a new file is one by its path. -/
theorem isTest_of_foldlM {interfaces : List PlannedInterface} {path : String}
    (here : ∀ planned ∈ interfaces, planned.change.file = path) {start result : Option SourceFile}
    (former : ∀ file ∈ start, file.isTest = endsWith path testSuffix)
    (filed : interfaces.foldlM (fun file planned => some <$> planned.declaredIn file) start =
      .ok result) : ∀ file ∈ result, file.isTest = endsWith path testSuffix := by
  refine foldlM_keeps_of_mem
    (fun state : Option SourceFile => ∀ file ∈ state, file.isTest = endsWith path testSuffix)
    interfaces start result (fun state planned member next holds stepped => ?_) former filed
  obtain ⟨image, declared, rfl⟩ := map_eq_ok.mp stepped
  rintro _ ⟨⟩
  cases state with
  | some file =>
    unfold PlannedInterface.declaredIn SourceFile.extend at declared
    obtain ⟨types, -, same⟩ := bind_eq_ok.mp declared
    cases same
    exact holds file rfl
  | none =>
    obtain ⟨file, scanned, rfl⟩ := map_eq_ok.mp declared
    have parsed := parse_of_scanFile scanned
    rw [← here planned member]
    change file.isTest = _
    exact isTest_of_parse parsed

end SourceFile

namespace Module

variable {module : Module}

/-- A type is among the symbols without tests exactly if its file holds none. -/
theorem exists_symbol_iff {index : Index} (keyed : ∀ file ∈ module.sourceFiles, file.Keyed)
    (built : (module.index ⟨false, true⟩).run = .ok (.ok index)) {file : SourceFile}
    (held : file ∈ module.sourceFiles) {name : String}
    (declared : file.types.contains name = true) :
    (∃ symbol ∈ index.symbols.toList, symbol.file = file.path ∧ symbol.name = name) ↔
      file.isTest = false := by
  obtain ⟨distinct, drawn, -⟩ := Module.index_spec built
  constructor
  · rintro ⟨symbol, member, here, -⟩
    obtain ⟨other, inside, retained, there, -⟩ := (symbols_spec drawn).2.2.2 symbol member
    have same : other = file :=
      List.inj_on_of_nodup_map distinct inside held (there.symm.trans here)
    rw [← same]
    simpa [IndexOptions.retainsFile] using retained
  · intro proper
    obtain ⟨order, same, describes, -⟩ := symbols_match_retained keyed drawn
    obtain ⟨decl, entry⟩ := NameMap.contains_iff.mp declared
    have named : name = decl.name := (keyed file held).types _ entry
    obtain ⟨package, listed, inside⟩ := List.mem_flatMap.mp held
    have item : Item.type decl ∈ file.items := by
      unfold SourceFile.items
      simp only [List.mem_append]
      exact Or.inl (Or.inl (Or.inl (Or.inl (Or.inl (Or.inl (Or.inr
        (List.mem_map_of_mem (List.mem_map_of_mem entry))))))))
    have retained : (⟨package, file, .type decl⟩ : Declared) ∈ module.retained ⟨false, true⟩ := by
      refine List.mem_flatMap.mpr ⟨package, listed, List.mem_append_right _ ?_⟩
      refine List.mem_flatMap.mpr ⟨file, List.mem_filter.mpr ⟨inside, ?_⟩, ?_⟩
      · simp [IndexOptions.retainsFile, proper]
      · exact List.mem_map_of_mem (List.mem_filter.mpr ⟨item, rfl⟩)
    obtain ⟨symbol, member, one⟩ :=
      exists_mem_of_forall₂ describes (same.symm.mem_iff.mp retained)
    exact ⟨symbol, member, one.file, (Option.some.inj one.name).symm.trans named.symm⟩

end Module

namespace ExtractionOptions

variable {options : ExtractionOptions} {naming : MethodPattern → String} {module : Module}

/-- Where an interface goes that no file was asked for: to a file for tests only if a file is made
for it and it is named like a test. -/
theorem PlannedFor.endsWith_testSuffix (scanned : ∀ file ∈ module.sourceFiles, file.Scanned)
    {target : ExtractionTarget} (anywhere : target.file = none) {pattern : MethodPattern}
    {first : Implementer} {package : Package} {interface : PlannedInterface}
    (proper : endsWith first.file testSuffix = false)
    (plans : options.PlannedFor naming module target pattern first package interface) :
    endsWith interface.change.file testSuffix =
      (options.createNewFiles && endsWith (Naming.snakeCase interface.name) "_test") := by
  have suffix : testSuffix = "_test" ++ sourceSuffix := by decide
  have aimed := plans.aimed
  unfold targetPath at aimed
  rw [anywhere] at aimed
  simp only at aimed
  split at aimed
  · rename_i create
    rw [← Except.ok.inj aimed, create, Bool.true_and, suffix]
    split
    · exact endsWith_append _ _ _
    · rw [← String.append_assoc, endsWith_append]
      exact endsWith_below _ _ _ (by decide)
  · rename_i keep
    have kept : options.createNewFiles = false := by simpa using keep
    rw [kept, Bool.false_and]
    split at aimed
    · rw [← Except.ok.inj aimed]
      exact proper
    · split at aimed
      · rename_i file found
        have inside : file ∈ module.sourceFiles := List.mem_flatMap.mpr
          ⟨package, NameMap.mem_values_of_get? plans.held, List.mem_of_find?_eq_some found⟩
        have isTest := List.find?_some found
        rw [← Except.ok.inj aimed, ← SourceFile.isTest_of_parse (scanned file inside)]
        simpa using isTest
      · cases aimed

/-- **Where an extraction puts interfaces, if no file is asked for.** Each is declared in a file
without tests, and is among the symbols of an index without tests, unless a new file is made for it
and its name ends like that of a test. -/
theorem run_avoids_tests (path : String) (sources : List (String × String)) (module final : Module)
    (options : ExtractionOptions) (outcome : Outcome)
    (loaded : Module.ofSources path sources = .ok module) (anywhere : options.targetFile = none)
    (real : options.dryRun = false)
    (run : options.run Naming.interfaceName module = .ok (final, outcome))
    (succeeded : outcome.success = true) (small : final.Small) :
    ∃ plan, (options.plan Naming.interfaceName module).run = .ok (.ok plan) ∧
      ∀ planned ∈ plan.interfaces, ∃ image, final.file? planned.change.file = some image ∧
        image.types.contains planned.name = true ∧
        (image.isTest = true ↔ options.createNewFiles = true ∧
          endsWith (Naming.snakeCase planned.name) "_test" = true) ∧
        ∀ index, (final.index ⟨false, true⟩).run = .ok (.ok index) →
          ((∃ symbol ∈ index.symbols.toList, symbol.file = planned.change.file ∧
            symbol.name = planned.name) ↔ image.isTest = false) := by
  obtain ⟨plan, planned, declared, -⟩ := exists_declared_of_success real run succeeded
  have distinct : module.DistinctPaths := Module.nodup_paths_of_ofSources loaded
  have scanned := Module.scanned_of_ofSources loaded
  have on := plannedOn_of_plan planned
  have carries := Module.carries_of_declareInterfaces distinct on declared
  have settled (path : String) : ∀ file ∈ module.file? path, file.Settled := fun file held =>
    SourceFile.settled_of_parse (scanned file (Module.mem_of_file? held).1)
  have keyed : ∀ file ∈ final.sourceFiles, file.Keyed := fun file member =>
    ((carries.filed file.path (settled _) small.text?).2 file
      (Module.file?_path carries.distinct member)).keyed
  refine ⟨plan, planned, fun interface member => ?_⟩
  obtain ⟨image, found, declares⟩ := declared_of_carries distinct scanned
    (fun package listed => Module.isWord_packageName loaded listed) on declared
    (fun other held => (fits_of_plan loaded Naming.nameFlaw?_interfaceName planned other held).1)
    small member
  obtain ⟨inside, here⟩ := Module.mem_of_file? found
  refine ⟨image, found, declares, ?_, fun index built => ?_⟩
  · obtain ⟨filed, -⟩ := carries.filed interface.change.file (settled _) small.text?
    have isTest : image.isTest = endsWith interface.change.file testSuffix := by
      refine SourceFile.isTest_of_foldlM
        (fun other goes => eq_of_beq (List.mem_filter.mp goes).2) (fun file held => ?_) filed image
        found
      obtain ⟨member, there⟩ := Module.mem_of_file? held
      rw [← there]
      exact SourceFile.isTest_of_parse (scanned file member)
    obtain ⟨valid, target, index, patterns, state, asked, built, discovered, folded, rfl⟩ :=
      plan_eq_ok.mp planned
    obtain ⟨pattern, listed, first, package, plans⟩ :=
      exists_plannedFor folded interface (List.mem_reverse.mp member)
    obtain ⟨owner, listed', file, owned, decl, -, retained, leads⟩ := struct_of_discover
      (fun file held => SourceFile.keyed_of_parse (scanned file held)) built valid discovered listed
      (List.mem_of_head? plans.leads)
    have proper : endsWith first.file testSuffix = false := by
      rw [leads, ← SourceFile.isTest_of_parse
        (scanned file (List.mem_flatMap.mpr ⟨owner, listed', owned⟩))]
      simpa [IndexOptions.retainsFile] using retained
    rw [isTest, plans.endsWith_testSuffix scanned ((target_spec asked).1.trans anywhere) proper,
      Bool.and_eq_true]
  · rw [← here]
    exact Module.exists_symbol_iff keyed built inside declares

/-- A struct that is named like a test. -/
def structNamedTest : List (String × String) :=
  [("p/a.go", "package p\n\ntype AFooTest struct\x7b\x7d\n\nfunc (a AFooTest) F() \x7b\x7d\n")]

/-- An interface that is named like a test and gets a new file. -/
def interfaceNamedTest : ExtractionOptions :=
  { minTypes := 1, interfaceName := some "FooTest", createNewFiles := true }

/-- What the witness looks at: one interface is declared, in a new file. -/
def landsInTests (final : Module) (outcome : Outcome) : Bool :=
  outcome.success && final.sourceFiles.all (fun file => file.content.utf8ByteSize < 2 ^ 63) &&
    (final.sourceFiles.map fun file => (file.path, file.isTest, file.types.keys)) ==
      [("p/a.go", false, ["AFooTest"]), ("p/foo_test.go", true, ["FooTest"])]

/-- The new file holds tests, and an index without tests lacks the interface. -/
theorem run_avoids_tests_interfaceNamedTest :
    ∃ module final outcome plan, Module.ofSources "m" structNamedTest = .ok module ∧
      interfaceNamedTest.run Naming.interfaceName module = .ok (final, outcome) ∧
      outcome.success = true ∧ landsInTests final outcome = true ∧
      (interfaceNamedTest.plan Naming.interfaceName module).run = .ok (.ok plan) ∧
      ∀ planned ∈ plan.interfaces, ∃ image, final.file? planned.change.file = some image ∧
        image.types.contains planned.name = true ∧
        (image.isTest = true ↔ interfaceNamedTest.createNewFiles = true ∧
          endsWith (Naming.snakeCase planned.name) "_test" = true) := by
  have evaluated : checkOk (Module.ofSources "m" structNamedTest) (fun module =>
      checkOk (interfaceNamedTest.run Naming.interfaceName module) fun ran =>
        landsInTests ran.1 ran.2) = true := by
    decide +kernel
  obtain ⟨module, loaded, checked⟩ := exists_of_checkOk evaluated
  obtain ⟨⟨final, outcome⟩, run, seen⟩ := exists_of_checkOk checked
  have told := seen
  simp only [landsInTests, Bool.and_eq_true, List.all_eq_true, decide_eq_true_eq] at told
  obtain ⟨⟨succeeded, small⟩, -⟩ := told
  obtain ⟨plan, planned, lands⟩ := run_avoids_tests "m" structNamedTest module final
    interfaceNamedTest outcome loaded rfl rfl run succeeded small
  refine ⟨module, final, outcome, plan, loaded, run, succeeded, seen, planned, ?_⟩
  intro interface member
  obtain ⟨image, found, declares, isTest, -⟩ := lands interface member
  exact ⟨image, found, declares, isTest⟩

end ExtractionOptions

end GoRefactor
