import GoRefactor.Proofs.Edit.Apply
import GoRefactor.Proofs.Transform.Runs
import Mathlib.Algebra.GroupWithZero.Nat

/-!
# What a refused transformation leaves behind

A refused rename changes nothing. An extraction declares its interfaces one after the other, and a
refusal keeps those that were declared before: the module is as it was exactly when the refusal
came before the first of them. Every declared interface makes the module's text longer, which is
why two modules on the way never agree.
-/

namespace GoRefactor

/-- Bytes that a file takes, one more than its text has. -/
def SourceFile.weight (file : SourceFile) : Nat := file.content.utf8ByteSize + 1

/-- Bytes of a list of files, each counted with one more. -/
def totalWeight (files : List SourceFile) : Nat := (files.map SourceFile.weight).sum

/-- Bytes of all files, each counted with one more. -/
def Module.weight (module : Module) : Nat := totalWeight module.sourceFiles

/-- The interface lengthens what it is put into: it is inserted as a text that is not empty, or
gets a file of its own. -/
def PlannedInterface.Lengthens (planned : PlannedInterface) : Prop :=
  match planned.placement with
  | .append edit => edit.span.start = edit.span.stop ∧ 0 < edit.replacement.utf8ByteSize
  | .create _ => True

/-- A heavier file in place of the first that passes a test makes the whole heavier by as much. -/
theorem weight_modifyFirst (test : SourceFile → Bool) (replacement found : SourceFile)
    (files : List SourceFile) (first : files.find? test = some found) :
    totalWeight (modifyFirst test (fun _ => replacement) files) + found.weight =
      totalWeight files + replacement.weight := by
  unfold totalWeight
  induction files with
  | nil => cases first
  | cons head rest ih =>
    rw [List.find?_cons] at first
    rw [modifyFirst]
    cases passed : test head with
    | true =>
      rw [passed] at first
      cases first
      rw [if_pos rfl]
      simp only [List.map_cons, List.sum_cons]
      omega
    | false =>
      rw [passed] at first
      have tail := ih first
      rw [if_neg Bool.false_ne_true]
      simp only [List.map_cons, List.sum_cons]
      omega

namespace Module

/-- Weights do not see flags. -/
theorem weight_eq_of_unflagged {left right : Module}
    (same : left.sourceFiles.map SourceFile.unflagged =
      right.sourceFiles.map SourceFile.unflagged) : left.weight = right.weight := by
  have view : ∀ files : List SourceFile,
      totalWeight files = totalWeight (files.map SourceFile.unflagged) := by
    intro files
    unfold totalWeight
    rw [List.map_map]
    rfl
  unfold weight
  rw [view left.sourceFiles, view right.sourceFiles, same]

/-- Flagging a file keeps the weight. -/
theorem weight_markModified (module : Module) (path : String) :
    (module.markModified path).weight = module.weight :=
  weight_eq_of_unflagged (map_unflagged_markModified module path)

/-- A change that keeps the text keeps the weight. -/
theorem weight_updateFile_of_keeps (module : Module) (path : String)
    (change : SourceFile → SourceFile) (keeps : ∀ file, (change file).weight = file.weight) :
    (module.updateFile path change).weight = module.weight := by
  unfold weight totalWeight
  rw [sourceFiles_updateFile, map_modifyFirst_of_keeps _ change _ keeps]

/-- A text inserted into a file makes the module heavier. -/
theorem weight_lt_of_insertion {module edited : Module} {edit : Edit} {paths : List String}
    (point : edit.span.start = edit.span.stop) (long : 0 < edit.replacement.utf8ByteSize)
    (applied : (module.applyEdits [edit]).run = .ok (.ok (edited, paths))) :
    module.weight < edited.weight := by
  obtain ⟨file, moved, held, fits, edits, rfl⟩ := applyEdits_single applied
  obtain ⟨front, middle, back, cut, start, stop⟩ := Edit.cut_of_conflict? fits
  obtain ⟨-, text, -⟩ := Edit.applyToFile_keeps edits
  have longer : moved.weight = file.weight + edit.replacement.utf8ByteSize := by
    have whole : Edit.spliceAll [edit] file.content = edit.splice file.content := rfl
    unfold SourceFile.weight
    rw [text, whole, edit.splice_eq cut start stop, cut]
    simp only [String.utf8ByteSize_append]
    omega
  have sum := weight_modifyFirst (fun file => file.path == edit.file) moved file
    module.sourceFiles (by rw [← file?_eq_find?, held])
  have unflagged := weight_markModified (module.updateFile edit.file fun _ => moved) edit.file
  unfold weight at unflagged ⊢
  rw [sourceFiles_touch, unflagged, sourceFiles_updateFile]
  omega

/-- A change that makes every package heavier, made to the one under a key, makes the whole
heavier. -/
theorem weight_lt_of_growth (change : Package → Package)
    (heavier : ∀ package : Package, totalWeight package.files < totalWeight (change package).files)
    (key : String) (entries : List (String × Package))
    (held : (entries.find? fun entry => entry.1 == key).isSome) :
    totalWeight ((entries.map Prod.snd).flatMap (·.files)) <
      totalWeight (((entries.map fun entry =>
        if entry.1 = key then (entry.1, change entry.2) else entry).map Prod.snd).flatMap
          (·.files)) := by
  have split : ∀ (package : Package) (others : List Package),
      totalWeight ((package :: others).flatMap (·.files)) =
        totalWeight package.files + totalWeight (others.flatMap (·.files)) := by
    intro package others
    simp only [totalWeight, List.flatMap_cons, List.map_append, List.sum_append]
  have grows : ∀ others : List (String × Package),
      totalWeight ((others.map Prod.snd).flatMap (·.files)) ≤
        totalWeight (((others.map fun entry =>
          if entry.1 = key then (entry.1, change entry.2) else entry).map Prod.snd).flatMap
            (·.files)) := by
    intro others
    induction others with
    | nil => exact Nat.le_refl _
    | cons head rest ih =>
      have own := heavier head.2
      simp only [List.map_cons, split]
      by_cases same : head.1 = key
      · rw [if_pos same]
        dsimp only
        omega
      · rw [if_neg same]
        omega
  induction entries with
  | nil => cases held
  | cons head rest ih =>
    have own := heavier head.2
    have tail := grows rest
    simp only [List.map_cons, split]
    by_cases same : head.1 = key
    · rw [if_pos same]
      dsimp only
      omega
    · rw [if_neg same]
      rw [List.find?_cons, beq_eq_false_iff_ne.mpr same] at held
      have later := ih held
      omega

/-- A declared interface makes the module heavier. -/
theorem weight_lt_of_declareInterface {module next : Module} {planned : PlannedInterface}
    (lengthens : planned.Lengthens)
    (declared : (module.declareInterface planned).run = .ok (.ok next)) :
    module.weight < next.weight := by
  unfold PlannedInterface.Lengthens at lengthens
  unfold declareInterface at declared
  cases placed : planned.placement with
  | append edit =>
    rw [placed] at lengthens declared
    obtain ⟨file, types, edited, paths, -, -, applied, rfl⟩ := appendInterface_eq_ok.mp declared
    have heavier := weight_lt_of_insertion lengthens.1 lengthens.2 applied
    rw [weight_updateFile_of_keeps]
    · exact heavier
    · intro file
      rfl
  | create package =>
    rw [placed] at declared
    obtain ⟨file, owner, -, held, rfl⟩ := createFile_eq_ok.mp declared
    unfold package? NameMap.get? at held
    obtain ⟨entry, found, -⟩ := Option.map_eq_some_iff.mp held
    refine weight_lt_of_growth
      (fun owner => { owner with files := owner.files ++ [file.flagged], modified := true })
      (fun owner => ?_) package module.packages.entries (by rw [found]; rfl)
    have positive : 0 < file.flagged.weight := Nat.succ_pos _
    simp only [totalWeight, List.map_append, List.sum_append, List.map_singleton,
      List.sum_singleton]
    omega

/-- How many of the planned interfaces are declared before one is refused. -/
def declaredCount (module : Module) : List PlannedInterface → Nat
  | [] => 0
  | planned :: rest =>
    match (module.declareInterface planned).run with
    | .ok (.ok next) => next.declaredCount rest + 1
    | _ => 0

/-- No more are declared than are planned. -/
theorem declaredCount_le (module : Module) (interfaces : List PlannedInterface) :
    module.declaredCount interfaces ≤ interfaces.length := by
  induction interfaces generalizing module with
  | nil => exact Nat.le_refl _
  | cons planned rest ih =>
    rw [declaredCount, List.length_cons]
    split
    · exact Nat.succ_le_succ (ih _)
    · exact Nat.zero_le _

/-- A list of interfaces that is refused in the middle leaves the module as the interfaces before
the refused one leave it. -/
theorem declareInterfaces_take_of_refused {module final : Module}
    {interfaces : List PlannedInterface} {error : Error}
    (refused : module.declareInterfaces interfaces = .ok (final, some error)) :
    module.declaredCount interfaces < interfaces.length ∧
      module.declareInterfaces (interfaces.take (module.declaredCount interfaces)) =
        .ok (final, none) := by
  induction interfaces generalizing module with
  | nil => cases refused
  | cons planned rest ih =>
    rw [declaredCount, List.length_cons]
    rcases declareInterfaces_cons.mp refused with ⟨next, step, later⟩ | ⟨_, step, rfl, -⟩
    · simp only [step]
      obtain ⟨shorter, kept⟩ := ih later
      refine ⟨Nat.succ_lt_succ shorter, ?_⟩
      rw [List.take_succ_cons]
      exact declareInterfaces_cons.mpr (Or.inl ⟨next, step, kept⟩)
    · simp only [step]
      exact ⟨Nat.succ_pos _, rfl⟩

/-- Interfaces that are all declared make the module heavier, unless there are none. -/
theorem weight_of_declareInterfaces {module final : Module} {interfaces : List PlannedInterface}
    (lengthen : ∀ planned ∈ interfaces, planned.Lengthens)
    (declared : module.declareInterfaces interfaces = .ok (final, none)) :
    module.weight + interfaces.length ≤ final.weight := by
  induction interfaces generalizing module with
  | nil =>
    cases declared
    exact Nat.le_refl _
  | cons planned rest ih =>
    rcases declareInterfaces_cons.mp declared with ⟨next, step, later⟩ | ⟨_, -, -, none⟩
    · have heavier := weight_lt_of_declareInterface (lengthen planned List.mem_cons_self) step
      have others := ih (fun other member => lengthen other (List.mem_cons_of_mem _ member)) later
      rw [List.length_cons]
      omega
    · cases none

end Module

namespace ExtractionOptions

/-- A planned interface lengthens what it is put into, wherever it goes. -/
theorem planPattern_lengthens {options : ExtractionOptions} {naming : MethodPattern → String}
    {module : Module} {target : ExtractionTarget} {state next : Extraction}
    {pattern : MethodPattern}
    (lengthen : ∀ planned ∈ state.interfaces, planned.Lengthens)
    (stepped : options.planPattern naming module target state pattern = .ok next) :
    ∀ planned ∈ next.interfaces, planned.Lengthens := by
  rcases planPattern_cases stepped with
    ⟨-, warnings, rfl⟩ | ⟨_, package, path, _, _, _, _, _, rfl⟩
  · exact lengthen
  · intro planned member
    rcases List.mem_cons.mp member with rfl | earlier
    · cases plannedText module state path with
      | none => trivial
      | some content =>
        -- The text to insert holds the declaration, which starts with a comment.
        refine ⟨rfl, ?_⟩
        have comment : "// ".utf8ByteSize = 3 := by decide
        simp only [appendEdit, Edit.insert, renderInterface, String.utf8ByteSize_append]
        omega
    · exact lengthen planned earlier

/-- All interfaces of a plan lengthen what they are put into. -/
theorem plan_lengthens {options : ExtractionOptions} {naming : MethodPattern → String}
    {module : Module} {plan : ExtractionPlan}
    (planned : (options.plan naming module).run = .ok (.ok plan)) :
    ∀ interface ∈ plan.interfaces, interface.Lengthens :=
  forall_mem_plan (fun _ _ _ _ => planPattern_lengthens) planned

/-- How many interfaces an extraction declares before one is refused. -/
def declaredCount (options : ExtractionOptions) (naming : MethodPattern → String)
    (module : Module) : Nat :=
  if options.dryRun then 0
  else
    match (options.plan naming module).run with
    | .ok (.ok plan) => module.declaredCount plan.interfaces
    | _ => 0

/-- An extraction that only says what would change declares nothing. -/
theorem declaredCount_of_dry (options : ExtractionOptions) (dry : options.dryRun = true)
    (naming : MethodPattern → String) (module : Module) :
    options.declaredCount naming module = 0 := by
  rw [declaredCount, if_pos dry]

/-- Another one declares what it plans, up to the first interface that is refused. -/
theorem declaredCount_of_plan {options : ExtractionOptions} {naming : MethodPattern → String}
    {module : Module} {plan : ExtractionPlan} (real : options.dryRun = false)
    (planned : (options.plan naming module).run = .ok (.ok plan)) :
    options.declaredCount naming module = module.declaredCount plan.interfaces := by
  rw [declaredCount, if_neg (by simp [real]), planned]

end ExtractionOptions

/-- **What a refused transformation leaves behind.** A refused rename leaves the module as it was.
A refused extraction does so exactly when no interface was declared before the refusal; otherwise
the module holds the interfaces before the refused one, and no others. -/
theorem refused_run_keeps_module_iff (module final : Module) (outcome : Outcome)
    (refused : outcome.success = false) :
    (∀ options : RenameOptions, options.run module = .ok (final, outcome) → final = module) ∧
    ∀ (options : ExtractionOptions) (naming : MethodPattern → String),
      options.run naming module = .ok (final, outcome) →
        (final = module ↔ options.declaredCount naming module = 0) ∧
        ∀ plan, (options.plan naming module).run = .ok (.ok plan) →
          options.declaredCount naming module < plan.interfaces.length ∧
          module.declareInterfaces (plan.interfaces.take (options.declaredCount naming module)) =
            .ok (final, none) := by
  constructor
  · intro options run
    rcases RenameOptions.run_eq_ok.mp run with attempted | ⟨-, -, same, -⟩
    · obtain ⟨plan, -, reported, -⟩ := RenameOptions.attempt_eq_ok.mp attempted
      rw [show outcome = options.report plan from reported] at refused
      cases refused
    · exact same
  · intro options naming run
    rcases ExtractionOptions.run_eq_ok.mp run with ⟨error, planned, rfl, -⟩ |
      ⟨plan, planned, ending⟩
    · -- The plan itself was refused: nothing was declared.
      have none : options.declaredCount naming final = 0 := by
        unfold ExtractionOptions.declaredCount
        rw [planned]
        split
        · rfl
        · rfl
      refine ⟨⟨fun _ => none, fun _ => rfl⟩, ?_⟩
      intro plan given
      rw [planned] at given
      cases given
    · by_cases dry : options.dryRun = true
      · rw [if_pos dry] at ending
        rw [ending.2] at refused
        cases refused
      · rw [if_neg dry] at ending
        rcases ending with ⟨-, rfl⟩ | ⟨error, stopped, -⟩
        · cases refused
        · have count : options.declaredCount naming module =
              module.declaredCount plan.interfaces := by
            unfold ExtractionOptions.declaredCount
            rw [if_neg dry, planned]
          obtain ⟨shorter, kept⟩ := Module.declareInterfaces_take_of_refused stopped
          have longer := Module.weight_of_declareInterfaces
            (fun interface member => ExtractionOptions.plan_lengthens planned interface
              (List.mem_of_mem_take member)) kept
          rw [List.length_take_of_le (Nat.le_of_lt shorter)] at longer
          rw [count]
          refine ⟨⟨?_, ?_⟩, ?_⟩
          · rintro rfl
            omega
          · intro none
            rw [none, List.take_zero] at kept
            cases kept
            rfl
          · intro other given
            rw [planned] at given
            cases given
            exact ⟨shorter, kept⟩

/-- Two structs whose method sets are both extracted. The second signature is broken by a comment,
so that on one line it does not close any more. -/
def brokenSignature : List (String × String) :=
  [("p/a.go", "package p\n\ntype A struct\x7b\x7d\n\nfunc (a A) F() \x7b\x7d\n\n" ++
    "type B struct\x7b\x7d\n\nfunc (b B) G(x int, // c\n\ty int) \x7b\x7d\n")]

/-- An extraction is refused after its first interface, and the interface stays declared. -/
theorem refused_extraction_keeps_first_interface :
    ∃ module final outcome, Module.ofSources "m" brokenSignature = .ok module ∧
      ExtractionOptions.run { minTypes := 1 } Naming.interfaceName module = .ok (final, outcome) ∧
      outcome.success = false ∧ final ≠ module := by
  have evaluated : checkOk (Module.ofSources "m" brokenSignature) (fun module =>
      checkOk
        (ExtractionOptions.plan { minTypes := 1 } Naming.interfaceName module).run fun ending =>
        checkOk ending fun plan =>
          plan.interfaces.head?.any (fun first =>
            checkOk (module.declarePlanned first).run fun ending =>
              checkOk ending fun _ => true) &&
          checkOk (module.declareAllPlanned plan.interfaces) fun ran => ran.2.isSome) = true := by
    decide +kernel
  obtain ⟨module, built, checked⟩ := exists_of_checkOk evaluated
  obtain ⟨ending, planned, ended⟩ := exists_of_checkOk checked
  obtain ⟨plan, rfl, checkedPlan⟩ := exists_of_checkOk ended
  obtain ⟨leads, stops⟩ := Bool.and_eq_true_iff.mp checkedPlan
  obtain ⟨⟨final, refusal⟩, stopped, refused⟩ := exists_of_checkOk stops
  obtain ⟨error, rfl⟩ := Option.isSome_iff_exists.mp refused
  obtain ⟨first, head, declares⟩ := (Option.any_eq_true _ _).mp leads
  obtain ⟨ending, declared, ended⟩ := exists_of_checkOk declares
  obtain ⟨next, rfl, -⟩ := exists_of_checkOk ended
  have inserts := ExtractionOptions.inserts_of_plan planned
  rw [← Module.declareInterfaces_eq_planned inserts] at stopped
  have run : ExtractionOptions.run { minTypes := 1 } Naming.interfaceName module =
      .ok (final, .failed error) :=
    ExtractionOptions.run_eq_ok.mpr (Or.inr ⟨plan, planned, Or.inr ⟨error, stopped, rfl⟩⟩)
  refine ⟨module, final, _, built, run, rfl, ?_⟩
  have exact := ((refused_run_keeps_module_iff module final _ rfl).2 _ _ run).1
  obtain ⟨rest, interfaces⟩ := List.head?_eq_some_iff.mp head
  rw [Ne, exact, ExtractionOptions.declaredCount_of_plan rfl planned, interfaces,
    Module.declaredCount,
    Module.declareInterface_eq_planned (inserts first (List.mem_of_mem_head? head)), declared]
  exact Nat.succ_ne_zero _

end GoRefactor
