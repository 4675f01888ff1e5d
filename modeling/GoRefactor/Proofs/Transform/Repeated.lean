import GoRefactor.Proofs.Transform.Alone
import GoRefactor.Proofs.Transform.Renamed

/-!
# Extracting again

A second extraction looks for the same packages and files and discovers the same method sets. Each
has a name that was taken when the first one planned it, or was given to an interface then. So it
has nothing to declare, unless the text of an interface declared more than the interface.
-/

namespace GoRefactor

open ExtractionPlan

namespace Module.Enriched

variable {module image : Module}

/-- Packages are found under the same names. -/
theorem map_path_findPackage? (enriched : module.Enriched image) (name : String) :
    (image.findPackage? name).map Package.path = (module.findPackage? name).map Package.path := by
  unfold findPackage?
  cases held : module.package? name with
  | some package =>
    obtain ⟨grown, found, one⟩ := enriched.package? held
    rw [found]
    exact congrArg some one.path
  | none =>
    rw [enriched.package?_eq_none held]
    have named := List.rel_filter (R := Package.Enriched)
      (p := fun package : Package => package.name == name)
      (q := fun package : Package => package.name == name)
      (fun package grown one => by simp only [one.name]) enriched.packages
    revert named
    generalize module.packageList.filter _ = packages
    generalize image.packageList.filter _ = grown
    intro named
    cases named with
    | nil => rfl
    | cons one others =>
      cases others with
      | nil => exact congrArg some one.path
      | cons => rfl

/-- Packages are looked up alike. -/
theorem packagePath_eq (enriched : module.Enriched image) :
    image.packagePath = module.packagePath := by
  funext name
  have same := enriched.map_path_findPackage? name
  unfold packagePath
  cases held : module.findPackage? name with
  | none =>
    rw [held] at same
    rw [Option.map_eq_none_iff.mp same]
  | some package =>
    rw [held] at same
    obtain ⟨grown, found, path⟩ := Option.map_eq_some_iff.mp same
    rw [found]
    simp only [path]

/-- A file is in the package that it was in. -/
theorem owner_of_packageOfFile? (enriched : module.Enriched image) (distinct : image.DistinctPaths)
    {path : String} {owner : Package} (owns : module.packageOfFile? path = some owner) :
    ∃ grown, image.packageOfFile? path = some grown ∧ grown.path = owner.path := by
  unfold packageOfFile? at owns ⊢
  have listed := List.mem_of_find?_eq_some owns
  have owned := List.find?_some owns
  obtain ⟨file, held, here⟩ := List.any_eq_true.mp owned
  obtain ⟨grown, listed', one⟩ := exists_mem_of_forall₂ enriched.packages.flip listed
  obtain ⟨images, added, split, each, -⟩ := one.files
  obtain ⟨file', image', same⟩ := exists_mem_of_forall₂ each.flip held
  have held' : file' ∈ grown.files := split ▸ List.mem_append_left _ image'
  have there : (file'.path == path) = true := by rw [same.path, here]
  have owned' : grown.owns path = true := List.any_eq_true.mpr ⟨file', held', there⟩
  cases found : image.packageList.find? (·.owns path) with
  | none => exact absurd owned' (List.find?_eq_none.mp found grown listed')
  | some other =>
    have owned'' := List.find?_some found
    obtain ⟨another, inside, here'⟩ := List.any_eq_true.mp owned''
    have unique : other = grown :=
      package_of_path distinct (List.mem_of_find?_eq_some found) listed'
      inside held' ((eq_of_beq here').trans (eq_of_beq there).symm)
    exact ⟨other, rfl, unique ▸ one.path⟩

end Module.Enriched

namespace ExtractionOptions

variable {options : ExtractionOptions} {naming : MethodPattern → String} {module image : Module}
  {target : ExtractionTarget} {patterns : List MethodPattern} {path : String}
  {sources : List (String × String)}

/-- Interfaces have the same target. -/
theorem target_eq (enriched : module.Enriched image) (distinct : image.DistinctPaths)
    (aimed : (options.target module).run = .ok (.ok target)) :
    (options.target image).run = .ok (.ok target) := by
  unfold ExtractionOptions.target at aimed ⊢
  rw [enriched.packagePath_eq]
  obtain ⟨package, asked, aimed⟩ := Attempt.run_bind_eq_ok.mp aimed
  refine Attempt.run_bind_eq_ok.mpr ⟨package, asked, ?_⟩
  split at aimed
  · exact aimed
  · rename_i file _
    cases owns : module.packageOfFile? file with
    | none =>
      rw [owns] at aimed
      cases aimed
    | some owner =>
      obtain ⟨grown, owns', same⟩ := enriched.owner_of_packageOfFile? distinct owns
      rw [owns] at aimed
      rw [owns']
      simp only [same]
      exact aimed

/-- The names of the interfaces for a list of method sets are declared where they belong, or the
test holds of them. -/
def Taken (options : ExtractionOptions) (naming : MethodPattern → String) (module : Module)
    (target : ExtractionTarget) (patterns : List MethodPattern)
    (claimed : String × String → Prop) : Prop :=
  ∀ pattern ∈ patterns, ∀ first, pattern.implementers.head? = some first →
    ∃ package, module.package? (target.package.getD first.package) = some package ∧
      (package.declares (options.interfaceName.getD (naming pattern)) = true ∨
        claimed (target.package.getD first.package, options.interfaceName.getD (naming pattern)))

/-- What is claimed while interfaces are planned stays claimed. -/
theorem claimed_of_planPattern {state next : Extraction} {pattern : MethodPattern}
    (stepped : options.planPattern naming module target state pattern = .ok next) :
    ∀ entry ∈ state.claimed, entry ∈ next.claimed := by
  intro entry member
  rcases planPattern_cases stepped with ⟨-, warnings, rfl⟩ |
    ⟨first, package, path, -, -, -, -, -, rfl⟩
  · exact member
  · exact List.mem_cons_of_mem _ member

/-- Once a method set is planned for, its name is taken. -/
theorem taken_of_planPattern {state next : Extraction} {pattern : MethodPattern}
    (stepped : options.planPattern naming module target state pattern = .ok next) :
    options.Taken naming module target [pattern] (· ∈ next.claimed) := by
  intro _ only first leads
  cases List.mem_singleton.mp only
  rcases planPattern_cases stepped with
    ⟨taken, warnings, rfl⟩ | ⟨other, package, path, leads', held, -, -, -, rfl⟩
  · exact taken first leads
  · cases leads.symm.trans leads'
    exact ⟨package, held, Or.inr List.mem_cons_self⟩

/-- **Once all method sets are planned for, all of their names are taken.** -/
theorem taken_of_folded {state last : Extraction}
    (folded : patterns.foldlM (options.planPattern naming module target) state = .ok last) :
    (∀ entry ∈ state.claimed, entry ∈ last.claimed) ∧
      options.Taken naming module target patterns (· ∈ last.claimed) := by
  induction patterns generalizing state with
  | nil =>
    cases folded
    exact ⟨fun _ member => member, fun _ none => nomatch none⟩
  | cons pattern rest ih =>
    rw [List.foldlM_cons] at folded
    obtain ⟨next, stepped, folded⟩ := bind_eq_ok.mp folded
    obtain ⟨still, others⟩ := ih folded
    refine ⟨fun entry member => still entry (claimed_of_planPattern stepped entry member), ?_⟩
    refine List.forall_mem_cons.mpr ⟨fun first leads => ?_, others⟩
    obtain ⟨package, held, taken⟩ :=
      taken_of_planPattern stepped pattern List.mem_cons_self first leads
    exact ⟨package, held, taken.imp_right (still _)⟩

/-- A name that is claimed is that of an interface, which is planned for the package. -/
theorem exists_plannedFor_of_claimed {state : Extraction}
    (folded : patterns.foldlM (options.planPattern naming module target) {} = .ok state) :
    ∀ entry ∈ state.claimed, ∃ interface ∈ state.interfaces, ∃ pattern ∈ patterns,
      ∃ first package, options.PlannedFor naming module target pattern first package interface ∧
        entry = (target.package.getD first.package, interface.name) := by
  refine foldlM_keeps_of_mem (fun state : Extraction => ∀ entry ∈ state.claimed,
    ∃ interface ∈ state.interfaces, ∃ pattern ∈ patterns, ∃ first package,
      options.PlannedFor naming module target pattern first package interface ∧
        entry = (target.package.getD first.package, interface.name))
    patterns {} state (fun state pattern member next known stepped => ?_)
    (fun _ none => nomatch none) folded
  rcases planPattern_cases stepped with
    ⟨-, warnings, rfl⟩ | ⟨first, package, path, leads, held, free, -, aimed, rfl⟩
  · exact known
  · have plans := plannedFor_placed leads held free aimed (plannedText module state path)
    refine List.forall_mem_cons.mpr ⟨⟨_, List.mem_cons_self, pattern, member, first, package, plans,
      Prod.ext rfl plans.named.symm⟩, fun entry among => ?_⟩
    obtain ⟨interface, planned, rest⟩ := known entry among
    exact ⟨interface, List.mem_cons_of_mem _ planned, rest⟩

/-- Where all names are declared, nothing is planned. -/
theorem foldlM_planPattern_of_taken
    (taken : options.Taken naming module target patterns fun _ => False) (state : Extraction) :
    ∃ warnings, patterns.foldlM (options.planPattern naming module target) state =
      .ok { state with warnings := warnings } := by
  induction patterns generalizing state with
  | nil => exact ⟨state.warnings, rfl⟩
  | cons pattern rest ih =>
    obtain ⟨here, others⟩ := List.forall_mem_cons.mp taken
    have stepped : ∃ warnings, options.planPattern naming module target state pattern =
        .ok { state with warnings := warnings } := by
      unfold planPattern
      cases leads : pattern.implementers.head? with
      | none => exact ⟨state.warnings, rfl⟩
      | some first =>
        obtain ⟨package, held, declared | ⟨⟨⟩⟩⟩ := here first leads
        simp only [held, declared, Bool.true_or, if_true]
        exact ⟨_, rfl⟩
    obtain ⟨warnings, stepped⟩ := stepped
    obtain ⟨more, folded⟩ := ih others { state with warnings := warnings }
    exact ⟨more, by rw [List.foldlM_cons, stepped]; exact folded⟩

/-- **After interfaces are declared, the names of all method sets are declared** in the packages
that the interfaces belong to. -/
theorem taken_of_declared (loaded : Module.ofSources path sources = .ok module)
    (named : ∀ pattern, nameFlaw? (naming pattern) = none) (valid : options.validate = .ok ())
    {choice : IndexOptions} {index : Index} {state : Extraction}
    (asked : (options.target module).run = .ok (.ok target))
    (built : (module.index choice).run = .ok (.ok index))
    (found : discover index options = .ok patterns)
    (folded : patterns.foldlM (options.planPattern naming module target) {} = .ok state)
    (on : ExtractionPlan.PlannedOn module.text? state.interfaces.reverse)
    (fits : ∀ planned ∈ state.interfaces.reverse, planned.Fits module)
    (homes : ∀ planned ∈ state.interfaces.reverse, ∃ package, planned.AtHome module package)
    (declared : module.declareInterfaces state.interfaces.reverse = .ok (image, none))
    (small : image.Small) (enriched : module.Enriched image) :
    options.Taken naming image target patterns fun _ => False := by
  have addressed := Module.addressed_of_ofSources loaded
  obtain ⟨-, taken⟩ := taken_of_folded folded
  intro pattern member first leads
  obtain ⟨package, held, known⟩ := taken pattern member first leads
  obtain ⟨grown, found', one⟩ := enriched.package? held
  refine ⟨grown, found', Or.inl ?_⟩
  rcases known with before | claimed
  · exact one.declares before
  · obtain ⟨interface, planned, other, discovered, leader, owner, plans, same⟩ :=
      exists_plannedFor_of_claimed folded _ claimed
    obtain ⟨path, name⟩ := Prod.mk.inj same
    -- The interface was planned for this package.
    have here : owner = package := by
      have held' := plans.held
      rw [← path, held] at held'
      exact (Option.some.inj held').symm
    subst here
    have home := plans.atHome loaded valid asked built found discovered
      (plans.nameFlaw?_eq_none valid named)
    obtain ⟨image', found'', declares⟩ := declares_of_declared loaded on declared small fits homes
      (List.mem_reverse.mpr planned) home
    have key : owner.path = target.package.getD first.package :=
      (addressed.keyed _ (NameMap.get?_eq_some_iff.mp held)).symm
    rw [key, found'] at found''
    cases found''
    exact name ▸ declares

/-- **Extracting again.** An extraction whose interfaces declare nothing but themselves leaves
nothing to extract: the same extraction makes no change then. It may be refused, if the module that
is left has no index. -/
theorem run_again (path : String) (sources : List (String × String)) (module final : Module)
    (options : ExtractionOptions) (outcome : Outcome)
    (loaded : Module.ofSources path sources = .ok module) (real : options.dryRun = false)
    (run : options.run Naming.interfaceName module = .ok (final, outcome))
    (succeeded : outcome.success = true) (small : final.Small)
    (alone : ∀ plan, (options.plan Naming.interfaceName module).run = .ok (.ok plan) →
      ∀ planned ∈ plan.interfaces, planned.Alone module) :
    ∃ again, options.run Naming.interfaceName final = .ok (final, again) ∧
      again.changes = [] ∧ again.affectedFiles = [] ∧
      (again.success = true ∨ ∃ error,
        (final.index ⟨false, options.includePrivate⟩).run = .ok (.error error) ∧
        again = .failed error) := by
  obtain ⟨plan, planned, declared, -⟩ := exists_declared_of_success real run succeeded
  have distinct : module.DistinctPaths := Module.nodup_paths_of_ofSources loaded
  have addressed := Module.addressed_of_ofSources loaded
  have scanned := Module.scanned_of_ofSources loaded
  have on := plannedOn_of_plan planned
  have carries := Module.carries_of_declareInterfaces distinct on declared
  have fits := fits_of_plan loaded Naming.nameFlaw?_interfaceName planned
  have settled (file : SourceFile) (held : file ∈ module.sourceFiles) : file.Settled :=
    SourceFile.settled_of_parse (scanned file held)
  have settled' (file : SourceFile) (held : file ∈ final.sourceFiles) : file.Settled :=
    (carries.filed file.path
      (fun former found => settled former (Module.mem_of_file? found).1) small.text?).2 file
      (Module.file?_path carries.distinct held)
  have enriched := enriched_of_declared loaded on declared small
    (fun interface member => (fits interface member).1)
    (fun interface member => (fits interface member).2) (alone plan planned)
  obtain ⟨valid, target, index, patterns, state, asked, built, found, folded, rfl⟩ :=
    plan_eq_ok.mp planned
  have asked' := target_eq enriched carries.distinct asked
  obtain ⟨error | index', built'⟩ := Module.LaidOut.ends_index
    (fun file held => (settled' file held).laid) ⟨false, options.includePrivate⟩
  · exact ⟨.failed error, run_eq_ok.mpr (Or.inl ⟨error,
      plan_of_index_refused valid asked' built', rfl, rfl⟩), rfl, rfl, Or.inr ⟨error, built', rfl⟩⟩
  · have found' : discover index' options = .ok patterns :=
      (enriched.discover_eq (fun package listed => addressed.package?_eq_some listed)
        (fun file held => (settled file held).laid) (fun file held => (settled file held).keyed)
        (fun file held => (settled' file held).keyed) built built' options).trans found
    have taken := taken_of_declared loaded Naming.nameFlaw?_interfaceName valid asked built found
      folded on (fun interface member => (fits interface member).1)
      (fun interface member => (fits interface member).2) declared small enriched
    obtain ⟨warnings, folded'⟩ := foldlM_planPattern_of_taken taken {}
    have planned' : (options.plan Naming.interfaceName final).run =
        .ok (.ok ⟨patterns.length, [], warnings.reverse⟩) :=
      plan_eq_ok.mpr ⟨valid, target, index', patterns, _, asked', built', found', folded', rfl⟩
    refine ⟨options.report ⟨patterns.length, [], warnings.reverse⟩,
      run_eq_ok.mpr (Or.inr ⟨_, planned', ?_⟩), rfl, rfl, Or.inl rfl⟩
    rw [if_neg (by simp [real])]
    exact Or.inl ⟨rfl, rfl⟩

/-- Two structs with methods of their own. -/
def twoPatterns : List (String × String) :=
  [("p/a.go", "package p\ntype A struct\x7b\x7d\nfunc (a A) F() \x7b\x7d\n" ++
    "type B struct\x7b\x7d\nfunc (b B) G() \x7b\x7d\n")]

/-- One name for the interfaces of both, so that the second one is skipped. -/
def oneName : ExtractionOptions := { minTypes := 1, interfaceName := some "I" }

/-- What the witness looks at: one interface is planned, which stands alone, and one is skipped. -/
def plansOne (module : Module) (plan : ExtractionPlan) : Bool :=
  plan.interfaces.length == 1 && plan.warnings.length == 1 &&
    plan.interfaces.all fun planned => decide (planned.Alone module)

/-- A second extraction skips both interfaces. -/
theorem run_again_twoPatterns :
    ∃ module plan final again, Module.ofSources "m" twoPatterns = .ok module ∧
      (oneName.plan Naming.interfaceName module).run = .ok (.ok plan) ∧
      plansOne module plan = true ∧
      oneName.run Naming.interfaceName module = .ok (final, oneName.report plan) ∧
      oneName.run Naming.interfaceName final = .ok (final, again) ∧
      again.changes = [] ∧ again.affectedFiles = [] := by
  have evaluated : checkOk (Module.ofSources "m" twoPatterns) (fun module =>
      checkOk (oneName.plan Naming.interfaceName module).run fun planned =>
        checkOk planned fun plan => plansOne module plan &&
          checkOk (module.declareAllPlanned plan.interfaces) fun declared =>
            declared.2.isNone && declared.1.sourceFiles.all fun file =>
              file.content.utf8ByteSize < 2 ^ 63) = true := by
    decide +kernel
  obtain ⟨module, loaded, checked⟩ := exists_of_checkOk evaluated
  obtain ⟨planned, planning, checked⟩ := exists_of_checkOk checked
  obtain ⟨plan, rfl, checked⟩ := exists_of_checkOk checked
  obtain ⟨plans, checked⟩ := Bool.and_eq_true_iff.mp checked
  obtain ⟨⟨final, refusal⟩, declared, checked⟩ := exists_of_checkOk checked
  rw [← Module.declareInterfaces_eq_planned (inserts_of_plan planning)] at declared
  simp only [Bool.and_eq_true, Option.isNone_iff_eq_none, List.all_eq_true,
    decide_eq_true_eq] at checked
  obtain ⟨rfl, small⟩ := checked
  have run : oneName.run Naming.interfaceName module = .ok (final, oneName.report plan) :=
    run_eq_ok.mpr (Or.inr ⟨plan, planning, Or.inl ⟨declared, rfl⟩⟩)
  have alone : ∀ planned ∈ plan.interfaces, planned.Alone module := by
    simp only [plansOne, Bool.and_eq_true, List.all_eq_true, decide_eq_true_eq] at plans
    exact plans.2
  obtain ⟨again, rerun, still, files, -⟩ := run_again "m" twoPatterns module final oneName
    (oneName.report plan) loaded rfl run rfl small fun other planned => by
      cases planning.symm.trans planned
      exact alone
  exact ⟨module, plan, final, again, loaded, planning, plans, run, rerun, still, files⟩

end ExtractionOptions

end GoRefactor
