import GoRefactor.Proofs.Edit.Append
import GoRefactor.Proofs.Transform.RenameSafety
import Mathlib.Logic.Function.Basic

/-!
# Extractions without faults

An extraction plans each interface on the text that the interfaces before it leave. Carried out in
this order, every interface finds its file with that text, or finds no file where it needs a new
one. So a declaration is put behind the end of a file that is laid out, which leaves it laid out, or
into a file that is scanned.
-/

namespace GoRefactor

open Lexeme

/-! ## Plans on texts -/

/-- The text of the file that the interface goes to, after it is declared there. -/
def PlannedInterface.written (planned : PlannedInterface) (texts : String → Option String) :
    String :=
  (texts planned.change.file).getD "" ++ planned.change.after

/-- All texts, after the interface is declared. -/
def PlannedInterface.textsAfter (planned : PlannedInterface) (texts : String → Option String) :
    String → Option String :=
  Function.update texts planned.change.file (some (planned.written texts))

namespace ExtractionPlan

/-- The texts that interfaces write, one after the other. -/
def writes (texts : String → Option String) : List PlannedInterface → List String
  | [] => []
  | planned :: rest => planned.written texts :: writes (planned.textsAfter texts) rest

/-- Each interface is planned on the texts that those before it leave. -/
def PlannedOn (texts : String → Option String) : List PlannedInterface → Prop
  | [] => True
  | planned :: rest =>
    (∃ package path name rendered,
      planned = ExtractionOptions.placed package path name rendered (texts path)) ∧
    PlannedOn (planned.textsAfter texts) rest

/-- The texts after all interfaces. -/
def textsAfter (texts : String → Option String) (interfaces : List PlannedInterface) :
    String → Option String :=
  interfaces.foldl (fun texts planned => planned.textsAfter texts) texts

/-- The last interface changes the texts last. -/
theorem textsAfter_append (texts : String → Option String) (interfaces : List PlannedInterface)
    (planned : PlannedInterface) :
    textsAfter texts (interfaces ++ [planned]) = planned.textsAfter (textsAfter texts interfaces) :=
  List.foldl_append

/-- A further interface is planned on what the others leave. -/
theorem plannedOn_append {texts : String → Option String} {interfaces : List PlannedInterface}
    (planned : PlannedOn texts interfaces) {package : Package} {path name rendered : String} :
    PlannedOn texts (interfaces ++ [ExtractionOptions.placed package path name rendered
      (textsAfter texts interfaces path)]) := by
  induction interfaces generalizing texts with
  | nil => exact ⟨⟨package, path, name, rendered, rfl⟩, trivial⟩
  | cons first rest ih => exact ⟨planned.1, ih planned.2⟩

end ExtractionPlan

/-- The texts of the files of a module. -/
def Module.text? (module : Module) (path : String) : Option String :=
  (module.file? path).map (·.content)

namespace ExtractionOptions

variable {options : ExtractionOptions} {naming : MethodPattern → String} {module : Module}

/-- The interfaces planned so far are planned on each other, and leave the pending texts. -/
def KeepsTexts (module : Module) (state : Extraction) : Prop :=
  ExtractionPlan.PlannedOn module.text? state.interfaces.reverse ∧
    plannedText module state = ExtractionPlan.textsAfter module.text? state.interfaces.reverse

/-- Planning one method set takes the pending texts into account. -/
theorem planPattern_keepsTexts {target : ExtractionTarget} {state next : Extraction}
    {pattern : MethodPattern} (keeps : KeepsTexts module state)
    (stepped : options.planPattern naming module target state pattern = .ok next) :
    KeepsTexts module next := by
  obtain ⟨on, texts⟩ := keeps
  rcases planPattern_cases stepped with
    ⟨-, warnings, rfl⟩ | ⟨_, package, path, -, -, -, -, -, rfl⟩
  · exact ⟨on, texts⟩
  · refine ⟨?_, ?_⟩
    · rw [List.reverse_cons, texts]
      exact ExtractionPlan.plannedOn_append on
    · rw [List.reverse_cons, ExtractionPlan.textsAfter_append, ← texts]
      funext other
      rw [PlannedInterface.textsAfter, PlannedInterface.written, file_placed,
        Function.update_apply, plannedText, NameMap.get?_insert]
      split
      · rfl
      · rfl

/-- **An extraction plans each interface on the texts that those before it leave.** -/
theorem plannedOn_of_plan {plan : ExtractionPlan}
    (planned : (options.plan naming module).run = .ok (.ok plan)) :
    ExtractionPlan.PlannedOn module.text? plan.interfaces := by
  unfold ExtractionOptions.plan at planned
  obtain ⟨-, -, planned⟩ := Attempt.run_bind_eq_ok.mp planned
  obtain ⟨target, -, planned⟩ := Attempt.run_bind_eq_ok.mp planned
  obtain ⟨index, -, planned⟩ := Attempt.run_bind_eq_ok.mp planned
  obtain ⟨patterns, -, planned⟩ := Attempt.run_bind_eq_ok.mp planned
  obtain ⟨state, folded, planned⟩ := Attempt.run_bind_eq_ok.mp planned
  rw [Attempt.run_pure] at planned
  cases planned
  have kept := foldlM_keeps (KeepsTexts module)
    (fun _ _ _ keeps stepped => planPattern_keepsTexts keeps stepped) patterns {} state
    ⟨trivial, rfl⟩ (Except.ok.inj folded)
  exact kept.1

end ExtractionOptions

/-! ## Interfaces carried out -/

namespace Module

variable {module : Module} {texts : String → Option String}

/-- The files are laid out, short enough, and have the given texts. -/
structure Stands (texts : String → Option String) (module : Module) : Prop where
  laid : module.LaidOut
  small : module.Small
  distinct : (module.sourceFiles.map SourceFile.path).Nodup
  texts : ∀ file ∈ module.sourceFiles, texts file.path = some file.content

/-- The texts of the files of a module are those that it has. -/
theorem stands_text? (laid : module.LaidOut) (small : module.Small)
    (distinct : (module.sourceFiles.map SourceFile.path).Nodup) : Stands module.text? module :=
  ⟨laid, small, distinct, fun file member => by rw [text?, file?_path distinct member]; rfl⟩

/-- A single edit of a file that takes it is carried out. -/
theorem editFiles_single {edit : Edit} {file image : SourceFile}
    (held : module.file? edit.file = some file)
    (applied : Edit.applyToFile [edit] file = .ok image) :
    module.editFiles (Edit.arrange [edit]) (dropRepeats ((Edit.arrange [edit]).map (·.file))) =
      .ok ((module.updateFile edit.file fun _ => image).markModified edit.file) := by
  have here : ((Edit.arrange [edit]).filter fun other => other.file == edit.file) = [edit] := by
    simp [Edit.arrange, sortBy, insertBy, Edit.distinctAfter]
  have one : dropRepeats ((Edit.arrange [edit]).map (·.file)) = [edit.file] := rfl
  rw [one, editFiles, List.foldlM_cons, editFile, held]
  simp only [here, applied]
  rfl

/-- A file that is laid out takes the place of another. -/
theorem Stands.replaces (stands : module.Stands texts) {next : Module} {path content : String}
    {file image : SourceFile} {lexemes : List Lexeme} (replaces : module.Replaces next path image)
    (held : module.file? path = some file) (laid : image.LaidOut lexemes)
    (here : image.path = path) (known : image.content = content)
    (short : content.utf8ByteSize < 2 ^ 63) :
    next.Stands (Function.update texts path (some content)) := by
  have cases_mem {other : SourceFile} (member : other ∈ next.sourceFiles) :
      (other.path = path ∧ other.content = content) ∨
        ∃ former ∈ module.sourceFiles, former.unflagged = other.unflagged := by
    rcases replaces.cases_mem member with same | former
    · left
      rw [← other.unflagged_path, ← other.unflagged_content, same]
      exact ⟨here, known⟩
    · exact Or.inr former
  refine ⟨fun other member => ?_, fun other member => ?_, ?_, fun other member => ?_⟩
  · rcases replaces.cases_mem member with same | ⟨former, inside, same⟩
    · exact ⟨lexemes, laid.of_unflagged same.symm⟩
    · obtain ⟨lexemes, laid⟩ := stands.laid former inside
      exact ⟨lexemes, laid.of_unflagged same⟩
  · rcases cases_mem member with ⟨-, same⟩ | ⟨former, inside, same⟩
    · rw [same]
      exact short
    · rw [← other.unflagged_content, ← same]
      exact stands.small former inside
  · rw [replaces.paths here]
    exact stands.distinct
  · by_cases there : other.path = path
    · have same := replaces.unflagged_of_path held here stands.distinct member there
      rw [there, Function.update_self, ← other.unflagged_content, same]
      exact congrArg some known.symm
    · rcases cases_mem member with ⟨same, -⟩ | ⟨former, inside, same⟩
      · exact absurd same there
      · rw [Function.update_of_ne there, ← other.unflagged_path, ← other.unflagged_content, ← same]
        exact stands.texts former inside

/-- **A declaration at the end of a file is put there or refused.** -/
theorem Stands.appendInterface (stands : module.Stands texts) {path content name rendered : String}
    (known : texts path = some content)
    (short : ((ExtractionOptions.planAppend path content name rendered).written
      texts).utf8ByteSize < 2 ^ 63) :
    Attempt.Ends (module.appendInterface (appendEdit path content rendered) rendered) ∧
      ∀ next, (module.appendInterface (appendEdit path content rendered) rendered).run =
          .ok (.ok next) →
        next.Stands ((ExtractionOptions.planAppend path content name rendered).textsAfter
          texts) := by
  have aimed : (appendEdit path content rendered).file = path := rfl
  cases held : module.file? path with
  | none =>
    have missing : module.file? (appendEdit path content rendered).file = none := held
    unfold Module.appendInterface
    rw [missing]
    exact ⟨Attempt.ends_refuse _, fun next done => by simp at done⟩
  | some file =>
    obtain ⟨member, here⟩ := mem_of_file? held
    have same : file.content = content :=
      Option.some.inj ((stands.texts file member).symm.trans (here ▸ known))
    subst same
    have whole : (ExtractionOptions.planAppend path file.content name rendered).written texts =
        file.content ++ (appendEdit path file.content rendered).replacement := by
      change (texts path).getD "" ++ _ = _
      rw [known]
      rfl
    have sum := short
    rw [whole, String.utf8ByteSize_append] at sum
    obtain ⟨lexemes, laid⟩ := stands.laid file member
    have edited : module.file? (appendEdit path file.content rendered).file = some file := held
    constructor
    · unfold Module.appendInterface
      rw [edited]
      refine Attempt.ends_bind (Attempt.ends_mk_ok _) fun types made => ?_
      obtain ⟨image, applied, -⟩ := laid.append (Except.ok.inj made) sum
      refine Attempt.ends_bind (ends_applyEdits fun _ _ => ?_) fun _ _ => Attempt.ends_pure _
      exact ⟨_, editFiles_single edited applied⟩
    · intro next done
      obtain ⟨_, types, _, paths, edited', made, edits, rfl⟩ := appendInterface_eq_ok.mp done
      cases edited.symm.trans edited'
      rw [aimed] at made ⊢
      obtain ⟨image, applied, lexemes', laid'⟩ := laid.append made sum
      obtain ⟨other, moved, held', -, applied', rfl⟩ := applyEdits_single edits
      rw [aimed, held] at held'
      cases held'
      rw [applied] at applied'
      cases applied'
      obtain ⟨path_eq, content_eq, -⟩ := Edit.applyToFile_keeps applied
      rw [here] at path_eq
      rw [SourceFile.spliceAll_insert_end rfl, ← whole] at content_eq
      have placed :
          module.Replaces ((module.updateFile path fun _ => image).markModified path).touch
          path image := replaces_updateFile module path image
      have registered := placed.updateFile path_eq (fun file => file.unflagged_register types)
      exact stands.replaces registered held laid' path_eq content_eq short

/-- A file that is laid out is added, under a path that was free. -/
theorem Stands.grown (stands : module.Stands texts) {next : Module} {path content : String}
    {file : SourceFile} (grown : next.sourceFiles.Perm (file :: module.sourceFiles))
    (free : texts path = none) (laid : ∃ lexemes, file.LaidOut lexemes) (here : file.path = path)
    (known : file.content = content) (short : content.utf8ByteSize < 2 ^ 63) :
    next.Stands (Function.update texts path (some content)) := by
  have away : ∀ other ∈ module.sourceFiles, other.path ≠ path := by
    intro other member same
    have text := stands.texts other member
    rw [same, free] at text
    cases text
  refine ⟨fun other member => ?_, fun other member => ?_, ?_, fun other member => ?_⟩
  · rcases List.mem_cons.mp (grown.mem_iff.mp member) with rfl | former
    · exact laid
    · exact stands.laid other former
  · rcases List.mem_cons.mp (grown.mem_iff.mp member) with rfl | former
    · rw [known]
      exact short
    · exact stands.small other former
  · refine (grown.map _).nodup_iff.mpr (List.nodup_cons.mpr ⟨fun listed => ?_, stands.distinct⟩)
    obtain ⟨other, former, same⟩ := List.mem_map.mp listed
    exact away other former (same.trans here)
  · rcases List.mem_cons.mp (grown.mem_iff.mp member) with rfl | former
    · rw [here, known, Function.update_self]
    · rw [Function.update_of_ne (away other former)]
      exact stands.texts other former

/-- **An interface in a new file is scanned into the module or refused.** -/
theorem Stands.createFile (stands : module.Stands texts) {package path content : String}
    (free : texts path = none) (short : content.utf8ByteSize < 2 ^ 63) :
    Attempt.Ends (module.createFile package path content) ∧
      ∀ next, (module.createFile package path content).run = .ok (.ok next) →
        next.Stands (Function.update texts path (some content)) := by
  constructor
  · unfold Module.createFile
    refine Attempt.ends_bind (Attempt.ends_mk_ok _) fun file _ => ?_
    split
    · exact Attempt.ends_refuse _
    · exact Attempt.ends_pure _
  · intro next done
    obtain ⟨file, owner, scanned, held, rfl⟩ := createFile_eq_ok.mp done
    have parsed := parse_of_scanFile scanned
    obtain ⟨path_eq, content_eq⟩ := SourceFile.path_of_parse parsed
    have grown := perm_sourceFiles_grown held file
    exact stands.grown grown free ((SourceFile.laidOut_of_parse parsed).imp fun _ laid =>
      laid.of_unflagged rfl) path_eq content_eq short

/-- **An interface planned on the texts of the module is declared or refused.** -/
theorem Stands.declareInterface (stands : module.Stands texts) {planned : PlannedInterface}
    (placed : ∃ package path name rendered,
      planned = ExtractionOptions.placed package path name rendered (texts path))
    (short : (planned.written texts).utf8ByteSize < 2 ^ 63) :
    Attempt.Ends (module.declareInterface planned) ∧
      ∀ next, (module.declareInterface planned).run = .ok (.ok next) →
        next.Stands (planned.textsAfter texts) := by
  obtain ⟨package, path, name, rendered, rfl⟩ := placed
  cases known : texts path with
  | some content =>
    rw [known] at short
    exact stands.appendInterface known short
  | none =>
    rw [known] at short
    have whole : (ExtractionOptions.placed package path name rendered none).written texts =
        "package " ++ package.name ++ "\n\n" ++ rendered := by
      rw [PlannedInterface.written, ExtractionOptions.file_placed, known]
      exact String.empty_append
    rw [PlannedInterface.textsAfter, ExtractionOptions.file_placed, whole]
    rw [whole] at short
    exact stands.createFile known short

/-- **Interfaces planned one on the other are declared, up to the first that is refused.** -/
theorem Stands.declareInterfaces (stands : module.Stands texts)
    {interfaces : List PlannedInterface} (planned : ExtractionPlan.PlannedOn texts interfaces)
    (short : ∀ text ∈ ExtractionPlan.writes texts interfaces, text.utf8ByteSize < 2 ^ 63) :
    ∃ final refusal, module.declareInterfaces interfaces = .ok (final, refusal) ∧
      final.LaidOut ∧ final.Small := by
  induction interfaces generalizing module texts with
  | nil => exact ⟨module, none, rfl, stands.laid, stands.small⟩
  | cons first rest ih =>
    obtain ⟨short₁, shorts⟩ := List.forall_mem_cons.mp short
    obtain ⟨⟨result, declared⟩, keeps⟩ := stands.declareInterface planned.1 short₁
    rw [ExceptT.run] at declared
    rw [Module.declareInterfaces, declared]
    cases result with
    | error refusal => exact ⟨module, some refusal, rfl, stands.laid, stands.small⟩
    | ok next => exact ih (keeps next declared) planned.2 shorts

end Module

namespace ExtractionOptions

variable {module : Module}

/-- **Extractions from files that are laid out are planned or refused.** -/
theorem ends_plan (laid : module.LaidOut) (options : ExtractionOptions)
    (naming : MethodPattern → String) : Attempt.Ends (options.plan naming module) := by
  unfold ExtractionOptions.plan
  refine Attempt.ends_bind (Attempt.ends_mk_ok _) fun _ _ => ?_
  refine Attempt.ends_bind ?_ fun target _ => Attempt.ends_bind (laid.ends_index _) fun index _ =>
    Attempt.ends_bind (Attempt.ends_mk_ok _) fun patterns _ =>
      Attempt.ends_bind (Attempt.ends_mk_ok _) fun _ _ => Attempt.ends_pure _
  unfold ExtractionOptions.target
  refine Attempt.ends_bind (Attempt.ends_optionMapM fun path _ => module.ends_packagePath path)
    fun package _ => ?_
  split
  · exact Attempt.ends_pure _
  · split
    · exact Attempt.ends_refuse _
    · exact Attempt.ends_ite (Attempt.ends_pure _) (Attempt.ends_refuse _)

/-- The texts that an extraction writes, one after the other. -/
def writes (options : ExtractionOptions) (naming : MethodPattern → String) (module : Module) :
    List String :=
  match (options.plan naming module).run with
  | .ok (.ok plan) =>
    if options.dryRun then [] else ExtractionPlan.writes module.text? plan.interfaces
  | _ => []

/-- What is planned, is planned for files that paths tell apart. -/
theorem distinct_of_plan {options : ExtractionOptions} {naming : MethodPattern → String}
    {plan : ExtractionPlan} (planned : (options.plan naming module).run = .ok (.ok plan)) :
    (module.sourceFiles.map SourceFile.path).Nodup := by
  unfold ExtractionOptions.plan at planned
  obtain ⟨-, -, planned⟩ := Attempt.run_bind_eq_ok.mp planned
  obtain ⟨target, -, planned⟩ := Attempt.run_bind_eq_ok.mp planned
  obtain ⟨index, built, -⟩ := Attempt.run_bind_eq_ok.mp planned
  exact (Module.index_spec built).1

/-- **An extraction from files that are laid out ends, and leaves them laid out.** -/
theorem run_laidOut (laid : module.LaidOut) (small : module.Small) (options : ExtractionOptions)
    (naming : MethodPattern → String)
    (fits : ∀ text ∈ options.writes naming module, text.utf8ByteSize < 2 ^ 63) :
    ∃ final outcome, options.run naming module = .ok (final, outcome) ∧ final.LaidOut ∧
      final.Small := by
  obtain ⟨refusal | plan, planned⟩ := options.ends_plan laid naming
  · exact ⟨module, .failed refusal, run_eq_ok.mpr (Or.inl ⟨refusal, planned, rfl, rfl⟩), laid,
      small⟩
  · by_cases dry : options.dryRun = true
    · refine ⟨module, options.report plan, run_eq_ok.mpr (Or.inr ⟨plan, planned, ?_⟩), laid, small⟩
      rw [if_pos dry]
      exact ⟨rfl, rfl⟩
    · rw [ExtractionOptions.writes, planned] at fits
      simp only [dry, Bool.false_eq_true, if_false] at fits
      obtain ⟨final, refusal, declared, laid', small'⟩ :=
        (Module.stands_text? laid small (distinct_of_plan planned)).declareInterfaces
          (plannedOn_of_plan planned) fits
      cases refusal with
      | none =>
        refine ⟨final, options.report plan, run_eq_ok.mpr (Or.inr ⟨plan, planned, ?_⟩), laid',
          small'⟩
        rw [if_neg dry]
        exact Or.inl ⟨declared, rfl⟩
      | some error =>
        refine ⟨final, .failed error, run_eq_ok.mpr (Or.inr ⟨plan, planned, ?_⟩), laid', small'⟩
        rw [if_neg dry]
        exact Or.inr ⟨error, declared, rfl⟩

end ExtractionOptions

end GoRefactor
