import GoRefactor.Proofs.Edit.Relocated
import GoRefactor.Proofs.Symbol.BareNames
import GoRefactor.Proofs.Symbol.LiteralKeys
import GoRefactor.Proofs.Transform.NamesApart
import GoRefactor.Proofs.Transform.Reloadable

/-!
# What a new name stands for

A rename at top level looks for its new name among the declarations of the package only, but a bare
name is looked up in the scopes around it first, and after them among the imports of the file. So
afterwards a bare use of the new name stands for the renamed declaration exactly where nothing
nearer goes by that name.
-/

namespace GoRefactor

open Lexeme

namespace RenameOptions

variable {options : RenameOptions} {module final : Module} {index : Index} {targets : List Symbol}
  {plan : RenamePlan}

namespace Planned

variable (plans : options.Planned module index targets plan)

include plans

/-- The edits of a file put names in place of names, between texts of moderate length. -/
theorem exists_relabels (laid : module.LaidOut) (small : module.Small) {file image : SourceFile}
    (inside : file ∈ module.sourceFiles)
    (made : Edit.applyToFile (Edit.own plan.edits file.path) file = .ok image)
    (short : image.content.utf8ByteSize < 2 ^ 63) :
    ∃ lexemes lexemes', file.LaidOut lexemes ∧
      Relabels 0 lexemes (Edit.own plan.edits file.path) lexemes' ∧
      byteLength (flat lexemes) < 2 ^ 63 ∧ byteLength (flat lexemes') < 2 ^ 63 := by
  have distinct := (Module.index_spec plans.built).1
  have apart : Edit.Apart plan.edits := (plans.pairwise_edits laid).imp fun facts => facts.2.2
  obtain ⟨lexemes, laidOut⟩ := laid file inside
  have each : ∀ edit ∈ Edit.own plan.edits file.path,
      nameFlaw? edit.replacement = none ∧ Lexeme.NameAt lexemes edit.span := by
    intro edit listed
    obtain ⟨member, here⟩ := List.mem_filter.mp listed
    obtain ⟨replacement, other, held, path, stands⟩ := plans.names member
    have same : other = file :=
      List.inj_on_of_nodup_map distinct held inside (path.trans (eq_of_beq here))
    exact ⟨replacement ▸ plans.valid, stands lexemes (same ▸ laidOut)⟩
  obtain ⟨lexemes', relabels⟩ := Relabels.of_edits laidOut.solid (Module.starts_of_apart
    (apart.of_file file.path) fun edit listed =>
      plans.filled laid (List.mem_filter.mp listed).1) each
  have spliced := relabels.spliceAll_eq String.utf8ByteSize_empty
  simp only [String.empty_append, ← laidOut.content] at spliced
  refine ⟨lexemes, lexemes', laidOut, relabels, ?_, ?_⟩
  · rw [← utf8ByteSize_ofList, ← laidOut.content]
    exact small file inside
  · rw [(Edit.applyToFile_eq_ok.mp made).2.2.1] at short
    rw [← utf8ByteSize_ofList, ← spliced]
    exact short

/-- **What the edits of a plan leave is tidy.** -/
theorem tidy_of_applyEdits (laid : module.LaidOut) (small : module.Small) (small' : final.Small)
    (tidy : ∀ file ∈ module.sourceFiles, file.Tidy) {paths : List String}
    (applied : (module.applyEdits plan.edits).run = .ok (.ok (final, paths))) :
    ∀ file ∈ final.sourceFiles, file.Tidy := by
  intro image member
  obtain ⟨file, inside, -, made⟩ :=
    Module.exists_makes (Module.index_spec plans.built).1 applied member
  rw [plans.arrange_eq laid] at made
  rcases made with ⟨-, rfl⟩ | ⟨moved, edited, rfl⟩
  · exact tidy image inside
  · obtain ⟨lexemes, lexemes', laidOut, relabels, fits, fits'⟩ :=
      plans.exists_relabels laid small inside edited (small' moved.flagged member)
    have kept := laidOut.tidy_applyToFile relabels fits fits' edited (tidy file inside)
    exact ⟨kept.types, kept.functions, kept.values, kept.apart⟩

end Planned

section Loaded

variable {path : String} {sources : List (String × String)}
  (loaded : Module.ofSources path sources = .ok module)
  (plans : options.Planned module index targets plan)
  (planned : (options.plan module).run = .ok (.ok plan)) {paths : List String}
  (applied : (module.applyEdits plan.edits).run = .ok (.ok (final, paths))) {package : Package}
  (listed : package ∈ module.packageList) {moved : Naming} (among : moved ∈ package.topNamings)
  (edited : plan.Edits moved)

include loaded plans planned applied listed among edited

/-- **The new name is declared** where something at top level got it. -/
theorem exists_lookup_new : ∃ site,
    (ModuleScope.ofModule .full final).lookup package.path options.new = some site := by
  have scanned := Module.scanned_of_ofSources loaded
  have laid : module.LaidOut := fun file inside =>
    SourceFile.laidOut_of_parse (scanned file inside)
  obtain ⟨image, listed', renamed⟩ := exists_mem_of_forall₂
    (renamed_of_applyEdits loaded plans applied).flip listed
  -- Among the names after the rename is the new one.
  have called : options.new ∈ image.topNamings.map Naming.name := by
    refine (perm_topNamings loaded plans planned listed renamed).mem_iff.mpr
      (List.mem_map.mpr ⟨moved, among, ?_⟩)
    rw [plans.after_eq laid, if_pos edited]
  obtain ⟨seen, inside, named⟩ := List.mem_map.mp called
  obtain ⟨file, held, declares⟩ := List.mem_flatMap.mp inside
  have keyed := Module.keyed_of_applyEdits (Module.index_spec plans.built).1 applied
    (fun file inside => SourceFile.keyed_of_parse (scanned file inside)) file
    (List.mem_flatMap.mpr ⟨image, listed', held⟩)
  have addressed := (Module.addressed_of_ofSources loaded).applyEdits applied
  rw [← renamed.path]
  exact ModuleScope.exists_lookup addressed.keyed listed' held rfl keyed
    (named ▸ SourceFile.declares_of_topNaming keyed declares)

/-- **What is declared under the new name was renamed**, and stands where it was moved. -/
theorem exists_edited_of_lookup_new {site : Site}
    (found : (ModuleScope.ofModule .full final).lookup package.path options.new = some site) :
    ∃ naming ∈ package.topNamings, plan.Edits naming ∧ naming.file = site.file.path ∧
      ∃ span, naming.span = some span ∧
        (Edit.remap (Edit.own plan.edits naming.file)).span span = .ok site.nameSpan := by
  have laid : module.LaidOut := fun file inside =>
    SourceFile.laidOut_of_parse (Module.scanned_of_ofSources loaded file inside)
  have unrivalled := top_unrivalled loaded plans planned listed among edited
  obtain ⟨image, listed', same, held', -⟩ := ModuleScope.owner_of_lookup found
  obtain ⟨other, inModule, path, files⟩ := exists_mem_of_forall₂
    (Module.packages_of_applyEdits (Module.index_spec plans.built).1 applied) listed'
  obtain rfl : other = package := by
    have addressed := Module.addressed_of_ofSources loaded
    have found := addressed.package?_eq_some inModule
    rw [← path, same, addressed.package?_eq_some listed] at found
    exact (Option.some.inj found).symm
  obtain ⟨file, held, here, made⟩ := exists_mem_of_forall₂ files held'
  rw [plans.arrange_eq laid] at made
  obtain ⟨seen, declared, named, place⟩ :=
    (ModuleScope.declaredIn_of_lookup found).2.exists_naming
  obtain ⟨-, standing⟩ := Prod.mk.inj place
  have among' {naming : Naming} (inside : naming ∈ file.topNamings) : naming ∈ other.topNamings :=
    List.mem_flatMap.mpr ⟨file, held, inside⟩
  rcases made with ⟨-, kept⟩ | ⟨image, makes, flagged⟩
  · exact absurd named (unrivalled.2 seen (among' (kept ▸ declared)))
  · have declared' : seen ∈ image.topNamings := by
      rw [flagged] at declared
      exact declared
    obtain ⟨naming, before, after, owner, span, span', stands, stands', moves⟩ :=
      (Edit.applyToFile_eq_ok.mp makes).1.exists_naming declared'
    cases stands'.symm.trans standing
    -- What had the new name before the rename would have been in its way.
    have given : plan.Edits naming := by
      by_contra untouched
      rw [named, plans.after_eq laid, if_neg untouched] at after
      exact unrivalled.2 naming (among' before) after.symm
    exact ⟨naming, among' before, given, owner.trans here.symm, span, stands, owner ▸ moves⟩

end Loaded

section Bare

variable {path : String} {sources : List (String × String)}
  (loaded : Module.ofSources path sources = .ok module)
  (plans : options.Planned module index targets plan)
  (planned : (options.plan module).run = .ok (.ok plan)) (small : module.Small)
  {package : Package} (listed : package ∈ module.packageList)

include loaded plans planned small listed

/-- **A bare name that is edited becomes the new name**, and stays a bare name. -/
theorem mem_bare_of_edit {file image : SourceFile} (held : file ∈ package.files)
    (made : Edit.Makes (Edit.own plan.edits file.path) file image)
    (short : image.content.utf8ByteSize < 2 ^ 63) {edit : Edit} (member : edit ∈ plan.edits)
    (here : edit.file = file.path) {name : String} (bare : (name, edit.span) ∈ file.bare) :
    (options.new, Edit.landing (Edit.own plan.edits file.path) edit) ∈ image.bare := by
  have scanned := Module.scanned_of_ofSources loaded
  have laid : module.LaidOut := fun file inside =>
    SourceFile.laidOut_of_parse (scanned file inside)
  have inside : file ∈ module.sourceFiles := List.mem_flatMap.mpr ⟨package, listed, held⟩
  have own : edit ∈ Edit.own plan.edits file.path :=
    List.mem_filter.mpr ⟨member, beq_iff_eq.mpr here⟩
  have keyed := SourceFile.keyed_of_parse (scanned file inside)
  have renamed := SourceFile.renamed_of_makes keyed made
  rcases made with ⟨none, -⟩ | ⟨moved, edited, rfl⟩
  · rw [none] at own
    cases own
  · obtain ⟨lexemes, lexemes', laidOut, relabels, fits, fits'⟩ :=
      plans.exists_relabels laid small inside edited short
    obtain ⟨visited, -⟩ := Edit.applyToFile_eq_ok.mp edited
    -- No declaration gets lost: those at top level have as many names as before.
    have tops := (perm_topNamings_file loaded plans planned listed held keyed renamed).length_eq
    have kept : file.decls.length ≤ moved.decls.length := by
      rw [List.length_map, List.length_map] at tops
      rw [file.length_decls, moved.length_decls, visited.methods.length_eq,
        visited.blanks.length_eq]
      exact Nat.le_of_eq (congrArg (· + _ + _) tops.symm)
    obtain ⟨-, other, sited, same, stands⟩ := plans.names member
    obtain rfl : other = file := List.inj_on_of_nodup_map (Module.index_spec plans.built).1 sited
      inside (same.trans here)
    obtain ⟨text, -, covers⟩ := stands lexemes laidOut
    obtain ⟨count, place⟩ := covers.places
    rw [place] at bare
    have there := laidOut.mem_bare_applyToFile relabels fits fits' edited kept bare
    have becomes := plans.after_eq laid ⟨name, other.path, some edit.span, false⟩
    rw [if_pos ⟨edit, member, here, rfl⟩] at becomes
    rw [Edit.landing, ← becomes, place]
    exact there

end Bare

end RenameOptions

/-- Wherever the walk arrives at a bare name, the index refers to what is bound to the name around
there, and where nothing is bound to it and no import goes by it, to the symbol that the package
declares under it. From the place where it is declared there is no reference to a symbol. -/
def Index.FollowsScopes (index : Index) (resolver : Resolver) (name : String) (declared : Symbol) :
    Prop :=
  ∀ visit ∈ resolver.fileVisits, ∀ span, visit.node = .ident name span →
    ∀ symbol ∈ index.symbols.toList, (index.RefersAt resolver.file.path span symbol.id ↔
      symbol.declaredAt resolver.file.path span = false ∧
        match visit.scopes.find? name with
        | some bound => bound.symbol = some symbol.id
        | none => resolver.file.importNamed name = none ∧ symbol.id = declared.id)

/-- **Bare uses of a new name.** Where a rename changes something at the top level of a package, the
package declares that under the new name afterwards. In a file where no import goes by this name,
every bare name that was edited is arrived at again, as the new name. From a bare use of it, whether
edited or there before, the index refers to the renamed declaration exactly where nothing is bound
to the name around the use and no import goes by it; where something is, it refers to that. -/
theorem bare_uses_of_new_name {path : String} {sources : List (String × String)}
    {module final : Module} {options : RenameOptions} {outcome : Outcome} {index : Index}
    (loaded : Module.ofSources path sources = .ok module)
    (ran : options.run module = .ok (final, outcome)) (success : outcome.success = true)
    (wet : options.dryRun = false) (short : ∀ source ∈ sources, source.2.utf8ByteSize < 2 ^ 63)
    (fits : ∀ text ∈ options.writes module, text.utf8ByteSize < 2 ^ 63)
    (built : (final.index .full).run = .ok (.ok index)) :
    ∃ plan, (options.plan module).run = .ok (.ok plan) ∧
      ∀ package ∈ module.packageList, (∃ moved ∈ package.topNamings, plan.Edits moved) →
        ∃ moved ∈ package.topNamings, plan.Edits moved ∧
          ∃ renamed ∈ index.symbols.toList, renamed.file = moved.file ∧
            (∃ span, moved.span = some span ∧
              (Edit.remap (Edit.own plan.edits moved.file)).span span = .ok renamed.nameSpan) ∧
            ∀ resolver ∈ final.resolvers .full index.symbols, resolver.package = package.path →
              (resolver.file.importNamed options.new = none →
                ∀ file ∈ package.files, resolver.file.path = file.path →
                  ∀ edit ∈ plan.edits, edit.file = file.path →
                    (options.old, edit.span) ∈ file.bare → ∃ visit ∈ resolver.fileVisits,
                      visit.node = .ident options.new
                        (Edit.landing (Edit.own plan.edits file.path) edit)) ∧
              index.FollowsScopes resolver options.new renamed := by
  have scanned := Module.scanned_of_ofSources loaded
  have shaped := Module.reloadable_of_ofSources loaded short
  obtain ⟨final', outcome', ran', shaped'⟩ := shaped.rename fits
  cases ran.symm.trans ran'
  rcases RenameOptions.run_eq_ok.mp ran with attempted | ⟨error, -, -, rfl⟩
  · obtain ⟨plan, planned, -, applied⟩ := RenameOptions.attempt_eq_ok.mp attempted
    rw [if_neg (by simp [wet])] at applied
    obtain ⟨paths, applied⟩ := applied
    obtain ⟨_, _, plans⟩ := RenameOptions.plan_spec planned
    have distinct : module.DistinctPaths := (Module.index_spec plans.built).1
    have tidy := plans.tidy_of_applyEdits shaped.laid shaped.small shaped'.small
      (fun file inside => SourceFile.tidy_of_parse (scanned file inside)) applied
    refine ⟨plan, planned, fun package listed ⟨moved, among, edited⟩ => ?_⟩
    obtain ⟨site, found⟩ :=
      RenameOptions.exists_lookup_new loaded plans planned applied listed among edited
    obtain ⟨naming, member, edited', file, span, standing, moves⟩ :=
      RenameOptions.exists_edited_of_lookup_new loaded plans planned applied listed among edited
        found
    obtain ⟨-, drawn, -⟩ := Module.index_spec built
    obtain ⟨filed, -⟩ := Module.symbols_spec drawn
    obtain ⟨renamed, known, stands, here⟩ := SymbolTable.exists_atOrigin rfl drawn found
    obtain ⟨-, -, place⟩ := SymbolTable.mem_of_atOrigin filed stands
    refine ⟨naming, member, edited', renamed, known, here.trans file.symm,
      ⟨span, standing, place ▸ moves⟩, ?_⟩
    intro resolver walked same
    obtain ⟨held, -, symbols⟩ := Module.file_of_mem_resolvers walked
    have looked : resolver.scope.lookup resolver.package options.new = some site := by
      rw [same, (Module.package_of_mem_resolvers walked).1]
      exact found
    constructor
    · intro unimported former inside path edit given own bare
      obtain ⟨origin, sited, path', made⟩ := Module.exists_makes distinct applied held
      obtain rfl : origin = former := List.inj_on_of_nodup_map distinct sited
        (List.mem_flatMap.mpr ⟨package, listed, inside⟩) (path'.symm.trans path)
      rw [plans.arrange_eq shaped.laid] at made
      have sees : resolver.Sees options.new :=
        ⟨by rw [Resolver.declared, ModuleScope.lookupInFile, looked]; rfl, unimported⟩
      exact resolver.meets_fileVisits _ (RenameOptions.mem_bare_of_edit loaded plans planned
        shaped.small listed inside made (shaped'.small _ held) given own bare) sees
    · rintro ⟨mode, node, scopes⟩ arrives span rfl symbol listed'
      rw [Module.refersAt_iff built walked (tidy _ held) arrives (List.mem_singleton_self span)
        listed', Resolver.finds_iff]
      exact and_congr_right fun _ => Resolver.symbolOf?_eq_some_iff
        (RenameOptions.ne_blank_of_nameFlaw? plans.valid) looked (symbols ▸ stands)
  · cases success

/-- A variable, and a function that uses it below a parameter of another name. -/
def capturingSources : List (String × String) :=
  [("a.go", "package p\n\nvar A = 1\n\nfunc f(x int) int \x7b return A \x7d\n")]

/-- The variable takes the name of the parameter. -/
def capturingRename : RenameOptions := { old := "A", new := "x" }

/-- The rename succeeds, and the use that it edits becomes one of the parameter. -/
theorem bare_uses_of_new_name_captured :
    ∃ module final outcome index resolver span parameter,
      Module.ofSources "m" capturingSources = .ok module ∧
      capturingRename.run module = .ok (final, outcome) ∧ outcome.success = true ∧
      (final.index .full).run = .ok (.ok index) ∧
      resolver ∈ final.resolvers .full index.symbols ∧
      (∃ visit ∈ resolver.fileVisits, visit.node = .ident "x" span) ∧
      parameter ∈ index.symbols.toList ∧ parameter.kind = .parameter ∧
      index.RefersAt resolver.file.path span parameter.id := by
  have evaluated : checkOk (Module.ofSources "m" capturingSources) (fun module =>
      decide (∀ text ∈ capturingRename.writes module, text.utf8ByteSize < 2 ^ 63) &&
      checkOk (capturingRename.plan module).run (fun ending => checkOk ending fun plan =>
        module.packageList.any fun package => package.path == "m" &&
          package.topNamings.any fun moved => plan.Edits moved) &&
      checkOk (capturingRename.runPlanned module) fun ran => ran.2.success &&
        checkOk (ran.1.index .full).run fun ending => checkOk ending fun index =>
          (ran.1.resolvers .full index.symbols).any fun resolver =>
            resolver.package == "m" &&
            resolver.fileVisits.any fun visit => visit.node.ident?.any fun named =>
              named.1 == "x" && index.symbols.toList.any fun parameter =>
                parameter.kind == .parameter &&
                  !parameter.declaredAt resolver.file.path named.2 &&
                  (visit.scopes.find? "x").any fun bound =>
                    bound.symbol == some parameter.id) = true := by
    decide +kernel
  obtain ⟨module, loaded, checked⟩ := exists_of_checkOk evaluated
  obtain ⟨checked, renamed⟩ := Bool.and_eq_true_iff.mp checked
  obtain ⟨fits, checked⟩ := Bool.and_eq_true_iff.mp checked
  obtain ⟨ending, planned, ended⟩ := exists_of_checkOk checked
  obtain ⟨plan, rfl, changes⟩ := exists_of_checkOk ended
  obtain ⟨⟨final, outcome⟩, ran, checked⟩ := exists_of_checkOk renamed
  obtain ⟨success, checked⟩ := Bool.and_eq_true_iff.mp checked
  obtain ⟨ending, built, ended⟩ := exists_of_checkOk checked
  obtain ⟨index, rfl, used⟩ := exists_of_checkOk ended
  rw [← RenameOptions.run_eq_runPlanned] at ran
  obtain ⟨package, listed, changes⟩ := List.any_eq_true.mp changes
  obtain ⟨resolver, walked, used⟩ := List.any_eq_true.mp used
  simp only [Bool.and_eq_true, List.any_eq_true, Option.any_eq_true, Bool.not_eq_true', beq_iff_eq,
    decide_eq_true_eq] at changes used
  obtain ⟨path, moved, among, edited⟩ := changes
  obtain ⟨path', visit, arrives, ⟨name, span⟩, named, rfl, parameter, known, ⟨kind, apart⟩, bound,
    found, names⟩ := used
  obtain ⟨plan', planned', each⟩ := bare_uses_of_new_name loaded ran success rfl (by decide)
    (of_decide_eq_true fits) built
  cases planned.symm.trans planned'
  obtain ⟨-, -, -, renamed, -, -, -, settled⟩ := each package listed ⟨moved, among, edited⟩
  obtain ⟨-, follows⟩ := settled resolver walked (path'.trans path.symm)
  have here := Node.eq_of_ident? named
  refine ⟨module, final, outcome, index, resolver, span, parameter, loaded, ran, success, built,
    walked, ⟨visit, arrives, here⟩, known, kind, ?_⟩
  refine (follows visit arrives span here parameter known).mpr ⟨apart, ?_⟩
  rw [show capturingRename.new = "x" from rfl, found]
  exact names

end GoRefactor
