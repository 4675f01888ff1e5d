import GoRefactor.Proofs.Edit.Renaming
import GoRefactor.Proofs.Symbol.Integrity
import GoRefactor.Proofs.Text.Position
import GoRefactor.Proofs.Transform.AppliedEdits
import GoRefactor.Proofs.Transform.RenameSafety

/-!
# What a rename changes

A rename of a scanned module that can be planned can be carried out. Its edits are the places of the
located declarations and of the references to them, each once; everywhere the old name stands, and
it gives way to the new one. Every other byte and every other file stay, and the changes that are
reported are these edits, in the order of the text.
-/

namespace GoRefactor

namespace RenameOptions

variable {options : RenameOptions} {module : Module} {index : Index} {targets : List Symbol}
  {plan : RenamePlan}

/-- A package is found under its import path or name. -/
theorem run_packagePath_eq_ok {name path : String} :
    (module.packagePath name).run = .ok (.ok path) ↔
      ∃ package, module.findPackage? name = some package ∧ package.path = path := by
  unfold Module.packagePath
  cases module.findPackage? name with
  | none => simp
  | some package =>
    constructor
    · intro given
      cases given
      exact ⟨package, rfl, rfl⟩
    · rintro ⟨found, same, rfl⟩
      cases same
      rfl

/-- The located declarations are those with the old name that can be renamed, belong to the type or
function that the options name, and stand in the package. -/
theorem mem_located_iff (built : (module.index .full).run = .ok (.ok index))
    (located : (options.locate module index).run = .ok (.ok targets)) {symbol : Symbol} :
    symbol ∈ targets ↔ symbol ∈ index.symbols.toList ∧ symbol.name = options.old ∧
      symbol.kind.isRenamable = true ∧ options.ownedBy symbol = true ∧
      ∀ name ∈ options.package, ∃ package, module.findPackage? name = some package ∧
        package.path = symbol.package := by
  obtain ⟨-, drawn, -⟩ := Module.index_spec built
  obtain ⟨filed, -⟩ := Module.symbols_spec drawn
  obtain ⟨path, resolved, located⟩ := Attempt.run_bind_eq_ok.mp located
  have placed : (path.all fun path => path == symbol.package) = true ↔
      ∀ name ∈ options.package, ∃ package, module.findPackage? name = some package ∧
        package.path = symbol.package := by
    cases given : options.package with
    | none =>
      rw [given] at resolved
      cases resolved
      simp
    | some name =>
      rw [given] at resolved
      obtain ⟨found, looked, same⟩ := Attempt.run_bind_eq_ok.mp resolved
      cases same
      obtain ⟨package, known, rfl⟩ := run_packagePath_eq_ok.mp looked
      simp [known]
  simp only at located
  split at located
  · cases located
  · cases located
    rw [SymbolTable.named_eq_filter filed, List.mem_filter, List.mem_filter, Bool.and_eq_true,
      Bool.and_eq_true, placed, beq_iff_eq, and_assoc, and_assoc]

namespace Planned

variable (plans : options.Planned module index targets plan)

include plans

/-- **What a planned edit replaces is the old name.** -/
theorem replaces {edit : Edit} (member : edit ∈ plan.edits) :
    ∃ file, module.file? edit.file = some file ∧
      edit.span.slice? file.content = some options.old ∧ edit.replacement = options.new ∧
      edit.replaced = options.old ∧ edit.conflict? file.content = none := by
  obtain ⟨file, held, planned⟩ := plans.edits edit member
  have fits := Edit.conflict?_of_replace? planned
  obtain ⟨text, covers, made⟩ := Option.map_eq_some_iff.mp planned
  have reads : file.text edit.span = text := by rw [SourceFile.text, covers, Option.getD_some]
  have old : text = options.old := by
    have listed : (edit.file, edit.span) ∈ spans index targets :=
      plans.places ▸ List.mem_map_of_mem member
    obtain ⟨target, inside, place⟩ := (mem_spans plans.built).mp listed
    obtain ⟨known, named, renamable⟩ := locate_spec plans.built plans.located inside
    have proper : target.kind ≠ .imported := fun imported => by
      rw [imported] at renamable
      cases renamable
    rcases place with same | ⟨reference, referred, number, same⟩
    · obtain ⟨path, span⟩ := Prod.mk.inj same
      obtain ⟨file', held', -, stands⟩ := Module.symbol_addressed plans.built known
      rw [← path, held] at held'
      cases held'
      rw [← reads, span, stands proper, named]
    · obtain ⟨path, span⟩ := Prod.mk.inj same
      obtain ⟨file', target', held', -, known', number', -, stands⟩ :=
        Module.reference_addressed plans.built referred
      have numbered := (Module.symbols_spec (Module.index_spec plans.built).2.1).2.1
      rw [SymbolTable.eq_of_id_eq numbered known' known (number'.trans number)] at stands
      rw [path, held] at held'
      cases held'
      rw [← reads, ← span, stands proper, named]
  subst old
  refine ⟨file, held, covers, ?_, ?_, fits⟩
  · rw [← made]
  · rw [← made]

/-- What is edited is not empty. -/
theorem filled (laid : module.LaidOut) {edit : Edit} (member : edit ∈ plan.edits) :
    edit.span.start < edit.span.stop := by
  obtain ⟨-, file, inside, -, stands⟩ := plans.names member
  obtain ⟨lexemes, laidOut⟩ := laid file inside
  exact (stands lexemes laidOut).filled laidOut.solid

/-- The edits are in order, do different things, and those of one file are apart. -/
theorem pairwise_edits (laid : module.LaidOut) : plan.edits.Pairwise fun earlier later =>
    earlier.le later = true ∧ earlier.sameEffect later = false ∧
      (earlier.file = later.file → earlier.span.stop ≤ later.span.start) := by
  have distinct := (Module.index_spec plans.built).1
  have ordered : (plan.edits.map fun edit => (edit.file, edit.span)).Pairwise _ :=
    plans.places ▸ pairwise_spans index targets
  refine (List.pairwise_map.mp ordered).imp_of_mem fun {earlier later} first second facts => ?_
  obtain ⟨before, apart⟩ := facts
  simp only [Span.le, Bool.or_eq_true, decide_eq_true_eq, Bool.and_eq_true, beq_iff_eq] at before
  refine ⟨(Edit.le_iff _ _).mpr before, Bool.eq_false_iff.mpr fun same => apart ?_, fun same => ?_⟩
  · simp only [Edit.sameEffect, Bool.and_eq_true, beq_iff_eq] at same
    exact Prod.ext same.1.1 same.1.2
  · obtain ⟨-, file, inside, path, stands⟩ := plans.names first
    obtain ⟨-, file', inside', path', stands'⟩ := plans.names second
    have equal : file' = file :=
      List.inj_on_of_nodup_map distinct inside' inside (path'.trans (same.symm.trans path.symm))
    obtain ⟨lexemes, laidOut⟩ := laid file inside
    obtain ⟨text, -, here⟩ := stands lexemes laidOut
    obtain ⟨text', -, there⟩ := stands' lexemes (equal ▸ laidOut)
    have order := before.resolve_left fun smaller => String.lt_irrefl _ (same ▸ smaller)
    rcases here.apart there with equal | ends | crossed
    · exact absurd (Prod.ext same equal) apart
    · exact ends
    · have upright : later.span.start ≤ later.span.stop := by
        obtain ⟨front, back, -, covers⟩ := there
        rw [covers]
        exact Nat.le_add_right _ _
      omega

/-- The edits are arranged as they are planned. -/
theorem arrange_eq (laid : module.LaidOut) : Edit.arrange plan.edits = plan.edits :=
  Edit.arrange_of_pairwise ((plans.pairwise_edits laid).imp And.left)
    ((plans.pairwise_edits laid).imp fun facts => facts.2.1)

/-- **There is no reason to refuse the edits.** -/
theorem not_refuses (laid : module.LaidOut) : ¬module.Refuses plan.edits := by
  rintro (⟨edit, member, absent⟩ | ⟨edit, member, file, held, conflict, found⟩ |
    ⟨first, second, inOrder, same, overlap⟩)
  · obtain ⟨file, held, -⟩ := plans.replaces member
    rw [absent] at held
    cases held
  · obtain ⟨file', held', -, -, -, fits⟩ := plans.replaces member
    rw [held] at held'
    cases held'
    rw [fits] at found
    cases found
  · have apart := List.pairwise_iff_forall_sublist.mp (plans.pairwise_edits laid) inOrder
    rw [Edit.not_overlaps_of_le (apart.2.2 same)] at overlap
    cases overlap

/-- **The edits of a plan are made**, if the new texts are no longer than texts can be. -/
theorem exists_applyEdits (laid : module.LaidOut) (small : module.Small)
    (short : ∀ file ∈ module.sourceFiles,
      (Edit.spliceAll (Edit.own plan.edits file.path) file.content).utf8ByteSize < 2 ^ 63) :
    ∃ edited paths, (module.applyEdits plan.edits).run = .ok (.ok (edited, paths)) := by
  have arranged := plans.arrange_eq laid
  obtain ⟨refusal | ⟨edited, paths⟩, applied⟩ := (laid.applyEdits small
    (Module.index_spec plans.built).1
    (fun edit member => ⟨(plans.names member).1 ▸ plans.valid, (plans.names member).2⟩)
    (arranged.symm ▸ short)).1
  · exact absurd (arranged ▸ (Module.refused_iff module plan.edits).mp ⟨refusal, applied⟩)
      (plans.not_refuses laid)
  · exact ⟨edited, paths, applied⟩

/-- The changes that are planned tell, in the order of the text, where which text gives way. -/
theorem changes_spec : List.Forall₂ (fun edit change => change.file = edit.file ∧
    change.before = options.old ∧ change.after = options.new ∧
    ∃ file, module.file? edit.file = some file ∧
      Position.IsAt ⟨change.line, change.column⟩ file.content.toList edit.span.start)
    plan.edits plan.changes := by
  have both := (List.forall₂_and_left _ _).mpr ⟨fun edit member => member, plans.changes⟩
  refine both.imp fun edit change ⟨member, file, held, told⟩ => ?_
  obtain ⟨file', held', covers, replacement, replaced, -⟩ := plans.replaces member
  cases held.symm.trans held'
  subst told
  refine ⟨rfl, replaced, replacement, file, held, ?_⟩
  obtain ⟨-, front, back, whole, start, -⟩ := Span.slice?_eq_some_iff.mp covers
  have lists : file.content.toList = front.toList ++ (options.old ++ back).toList := by
    rw [whole, String.append_assoc, String.toList_append]
  have place := @LineIndex.isAt_position front.toList (options.old ++ back).toList
  rw [← lists, byteLength_toList, start] at place
  exact place

/-- The place of an edit is in front of the end of its file. -/
theorem start_lt (laid : module.LaidOut) {edit : Edit} (member : edit ∈ plan.edits)
    {file : SourceFile} (held : module.file? edit.file = some file) :
    edit.span.start < file.content.utf8ByteSize := by
  obtain ⟨file', held', covers, -⟩ := plans.replaces member
  cases held.symm.trans held'
  obtain ⟨-, front, back, whole, start, size⟩ := Span.slice?_eq_some_iff.mp covers
  have filled := plans.filled laid member
  rw [whole, String.utf8ByteSize_append, String.utf8ByteSize_append]
  omega

/-- Changes are planned in the order of file, line and column, in files that are not too long for
their numbers. -/
theorem pairwise_changes (laid : module.LaidOut)
    (short : ∀ file ∈ module.sourceFiles, file.content.utf8ByteSize < 2 ^ 32) :
    plan.changes.Pairwise fun earlier later =>
      earlier.file < later.file ∨ (earlier.file = later.file ∧
        Position.lt ⟨earlier.line, earlier.column⟩ ⟨later.line, later.column⟩ = true) := by
  have ordered : plan.edits.Pairwise fun earlier later => earlier.file < later.file ∨
      (earlier.file = later.file ∧ earlier.span.start < later.span.start ∧
        ∀ file, module.file? later.file = some file →
          later.span.start < file.content.utf8ByteSize) := by
    refine (plans.pairwise_edits laid).imp_of_mem fun {earlier later} member member' facts => ?_
    rcases (Edit.le_iff _ _).mp facts.1 with smaller | ⟨same, -⟩
    · exact Or.inl smaller
    · exact Or.inr ⟨same, Nat.lt_of_lt_of_le (plans.filled laid member) (facts.2.2 same),
        fun _ => plans.start_lt laid member'⟩
  refine pairwise_of_forall₂ plans.changes_spec ordered ?_
  rintro edit change edit' change' ⟨path, -, -, file, held, here⟩ ⟨path', -, -, file', held', there⟩
    (smaller | ⟨same, earlier, inside⟩)
  · exact Or.inl (path ▸ path' ▸ smaller)
  · rw [same, held'] at held
    cases held
    have before := inside file held'
    have small := short file (Module.mem_of_file? held').1
    exact Or.inr ⟨path.trans (same.trans path'.symm),
      here.lt there earlier (Nat.le_of_lt before) (by omega)⟩

/-- So sorting leaves them as they are. -/
theorem sortChanges_eq (laid : module.LaidOut)
    (short : ∀ file ∈ module.sourceFiles, file.content.utf8ByteSize < 2 ^ 32) :
    sortChanges plan.changes = plan.changes := by
  refine sortBy_of_pairwise
    ((plans.pairwise_changes laid short).imp fun {earlier later} before => ?_)
  simp only [Change.le, Position.lt, Bool.or_eq_true, decide_eq_true_eq, Bool.and_eq_true,
    beq_iff_eq] at before ⊢
  rcases before with smaller | ⟨same, further | ⟨line, column⟩⟩
  · exact Or.inl smaller
  · exact Or.inr ⟨same, Or.inl further⟩
  · exact Or.inr ⟨same, Or.inr ⟨line, Or.inl column⟩⟩

/-- A file that the edits turn into another gets another text exactly if it has edits. -/
theorem content_ne_iff (laid : module.LaidOut) {file image : SourceFile} {path : String}
    (held : module.file? path = some file)
    (turned : Edit.TurnInto (Edit.own plan.edits path) file image) :
    image.content ≠ file.content ↔ ∃ edit ∈ plan.edits, edit.file = path := by
  have known {edit : Edit} (listed : edit ∈ Edit.own plan.edits path) :
      edit.span.slice? file.content = some options.old ∧ edit.replacement = options.new ∧
        edit.Cuts file.content := by
    obtain ⟨member, here⟩ := List.mem_filter.mp listed
    obtain ⟨file', held', covers, replacement, -, fits⟩ := plans.replaces member
    rw [eq_of_beq here, held] at held'
    cases held'
    exact ⟨covers, replacement, Edit.cut_of_conflict? fits⟩
  have given : Edit.own plan.edits path ≠ [] ↔ ∃ edit ∈ plan.edits, edit.file = path := by
    rw [← Module.mem_edited_iff, mem_dropRepeats, List.mem_map]
  rw [← given]
  constructor
  · intro changed none
    exact changed (congrArg SourceFile.content (turned.untouched none))
  · intro some
    have apart : Edit.Apart plan.edits := (plans.pairwise_edits laid).imp fun facts => facts.2.2
    obtain ⟨text, rewrites, -, read⟩ := Edit.exists_rewrites (fun edit listed => (known listed).2.2)
      (apart.of_file path)
    rw [Option.some.inj (turned.content.symm.trans read)]
    exact rewrites.ne_of_renames some (fun edit listed => ⟨(known listed).1, (known listed).2.1⟩)
      plans.renames

end Planned

/-- A rename was carried out: which places it edits, what became of the files, and what it tells. -/
structure Renames (options : RenameOptions) (module : Module) (index : Index)
    (targets : List Symbol) (plan : RenamePlan) (final : Module) (outcome : Outcome) : Prop where
  /-- The located declarations are those with the old name that can be renamed, in the scope. -/
  located : ∀ symbol, symbol ∈ targets ↔ symbol ∈ index.symbols.toList ∧
    symbol.name = options.old ∧ symbol.kind.isRenamable = true ∧ options.ownedBy symbol = true ∧
    ∀ name ∈ options.package, ∃ package, module.findPackage? name = some package ∧
      package.path = symbol.package
  /-- Every edit puts the new name in place of the old one. -/
  replaced : ∀ edit ∈ plan.edits, ∃ file, module.file? edit.file = some file ∧
    edit.span.slice? file.content = some options.old ∧ edit.replacement = options.new
  /-- The places to edit are those of the located declarations and of the references to them. -/
  places : ∀ place, place ∈ plan.edits.map (fun edit => (edit.file, edit.span)) ↔
    ∃ target ∈ targets, place = (target.file, target.nameSpan) ∨
      ∃ reference ∈ index.references.references, reference.symbol = target.id ∧
        (reference.file, reference.span) = place
  /-- Each place is edited once. -/
  once : (plan.edits.map fun edit => (edit.file, edit.span)).Nodup
  /-- The text of each file is read off from the front, with the edits made; a file without edits
  is the same as before. -/
  files : List.Forall₂ (fun file => Edit.TurnInto (Edit.own plan.edits file.path) file)
    module.sourceFiles final.sourceFiles
  /-- Each change tells of one edit: where in the old text which text gave way. -/
  changes : List.Forall₂ (fun edit change => change.file = edit.file ∧
    change.before = options.old ∧ change.after = options.new ∧
    ∃ file, module.file? edit.file = some file ∧
      Position.IsAt ⟨change.line, change.column⟩ file.content.toList edit.span.start)
    plan.edits outcome.changes
  /-- Changes are ordered by file, line and column. -/
  inOrder : outcome.changes.Pairwise fun earlier later => earlier.file < later.file ∨
    (earlier.file = later.file ∧
      Position.lt ⟨earlier.line, earlier.column⟩ ⟨later.line, later.column⟩ = true)
  /-- The affected files are those whose text changed. -/
  affected : ∀ path, path ∈ outcome.affectedFiles ↔
    ∃ file image, module.file? path = some file ∧ final.file? path = some image ∧
      image.content ≠ file.content

/-- **A rename edits its declarations and the references to them, and tells just that.** Whatever is
planned on a module from source text can be carried out. -/
theorem rename_exact (path : String) (sources : List (String × String)) (module : Module)
    (options : RenameOptions) (plan : RenamePlan)
    (loaded : Module.ofSources path sources = .ok module)
    (short : ∀ source ∈ sources, source.2.utf8ByteSize < 2 ^ 32)
    (planned : (options.plan module).run = .ok (.ok plan))
    (fits : ∀ text ∈ RenameOptions.writes { options with dryRun := false } module,
      text.utf8ByteSize < 2 ^ 63) :
    ∃ index targets final outcome, (module.index .full).run = .ok (.ok index) ∧
      (options.locate module index).run = .ok (.ok targets) ∧
      RenameOptions.run { options with dryRun := false } module = .ok (final, outcome) ∧
      outcome.success = true ∧ options.Renames module index targets plan final outcome := by
  have laid : module.LaidOut := fun file member =>
    SourceFile.laidOut_of_parse (Module.scanned_of_ofSources loaded file member)
  have short : ∀ file ∈ module.sourceFiles, file.content.utf8ByteSize < 2 ^ 32 :=
    fun file member => short _ (Module.source_of_ofSources loaded file member)
  have small : module.Small := fun file member => Nat.lt_trans (short file member) (by decide)
  obtain ⟨index, targets, plans⟩ := plan_spec planned
  have distinct : module.DistinctPaths := (Module.index_spec plans.built).1
  have arranged := plans.arrange_eq laid
  have wet : (RenameOptions.plan { options with dryRun := false } module).run = .ok (.ok plan) :=
    planned
  rw [RenameOptions.writes, wet] at fits
  simp only [Bool.false_eq_true, if_false, List.forall_mem_map, arranged] at fits
  obtain ⟨edited, paths, applied⟩ := plans.exists_applyEdits laid small fits
  have matched := arranged ▸ Module.turnInto_of_applyEdits distinct applied
  have reported : (RenameOptions.report { options with dryRun := false } plan).changes =
      plan.changes := plans.sortChanges_eq laid short
  refine ⟨index, targets, edited, RenameOptions.report { options with dryRun := false } plan,
    plans.built, plans.located, ?_, rfl, ?_⟩
  · exact run_eq_ok.mpr (Or.inl (attempt_eq_ok.mpr ⟨plan, wet, rfl, paths, applied⟩))
  · refine ⟨fun symbol => mem_located_iff plans.built plans.located, fun edit member => ?_,
      fun place => ?_, ?_, matched, ?_, ?_, fun path => ?_⟩
    · obtain ⟨file, held, covers, replacement, -⟩ := plans.replaces member
      exact ⟨file, held, covers, replacement⟩
    · rw [plans.places, mem_spans plans.built]
    · rw [plans.places]
      exact (pairwise_spans index targets).imp And.right
    · rw [reported]
      exact plans.changes_spec
    · rw [reported]
      exact plans.pairwise_changes laid short
    · have files : plan.changes.map (·.file) = plan.edits.map (·.file) :=
        map_eq_map_of_forall₂ _ _ (fun _ _ told => told.1) plans.changes_spec
      have listed :
          path ∈ (RenameOptions.report { options with dryRun := false } plan).affectedFiles ↔
          ∃ edit ∈ plan.edits, edit.file = path := by
        rw [Outcome.affectedFiles, reported, files, distinctSorted, List.mem_eraseDups, sortTexts,
          mem_sortBy, List.mem_map]
      have turned {file : SourceFile} (held : module.file? path = some file) :
          ∃ image, edited.file? path = some image ∧
            Edit.TurnInto (Edit.own plan.edits path) file image := by
        obtain ⟨image, held', turns⟩ := Module.file?_of_matched matched
          (fun file image turns => turns.path) held
        exact ⟨image, held', (Module.mem_of_file? held).2 ▸ turns⟩
      rw [listed]
      constructor
      · intro edited
        obtain ⟨edit, member, rfl⟩ := edited
        obtain ⟨file, held, -⟩ := plans.edits edit member
        obtain ⟨image, held', turns⟩ := turned held
        exact ⟨file, image, held, held', (plans.content_ne_iff laid held turns).mpr
          ⟨edit, member, rfl⟩⟩
      · rintro ⟨file, image, held, held', changed⟩
        obtain ⟨image', held'', turns⟩ := turned held
        cases held'.symm.trans held''
        exact (plans.content_ne_iff laid held turns).mp changed

/-- A longer name for what one file declares and another uses. -/
def longerLimit : RenameOptions := { old := "Limit", new := "Maximum", dryRun := true }

/-- Planned dry or not, the rename edits the declaration and the use, and tells where they stood. -/
theorem rename_exact_limits :
    ∃ module plan index targets final outcome,
      Module.ofSources "m" Module.limitSources = .ok module ∧
      (longerLimit.plan module).run = .ok (.ok plan) ∧
      RenameOptions.run { longerLimit with dryRun := false } module = .ok (final, outcome) ∧
      outcome.changes = [⟨"p.go", 3, 5, "Limit", "Maximum"⟩, ⟨"q.go", 3, 13, "Limit", "Maximum"⟩] ∧
      longerLimit.Renames module index targets plan final outcome := by
  have evaluated : checkOk (Module.ofSources "m" Module.limitSources) (fun module =>
      checkOk (longerLimit.plan module).run (fun ending => checkOk ending fun _ => true) &&
      decide (∀ text ∈ RenameOptions.writes { longerLimit with dryRun := false } module,
        text.utf8ByteSize < 2 ^ 63) &&
      checkOk (runPlanned { longerLimit with dryRun := false } module) fun result =>
        decide (result.2.changes =
          [⟨"p.go", 3, 5, "Limit", "Maximum"⟩, ⟨"q.go", 3, 13, "Limit", "Maximum"⟩])) = true := by
    decide +kernel
  obtain ⟨module, loaded, checked⟩ := exists_of_checkOk evaluated
  obtain ⟨checked, changed⟩ := Bool.and_eq_true_iff.mp checked
  obtain ⟨planned, fits⟩ := Bool.and_eq_true_iff.mp checked
  obtain ⟨ending, planned, ended⟩ := exists_of_checkOk planned
  obtain ⟨plan, rfl, -⟩ := exists_of_checkOk ended
  obtain ⟨index, targets, final, outcome, -, -, ran, -, renames⟩ :=
    rename_exact "m" Module.limitSources module longerLimit plan loaded (by decide +kernel) planned
      (of_decide_eq_true fits)
  obtain ⟨result, ran', changes⟩ := exists_of_checkOk changed
  rw [← run_eq_runPlanned] at ran'
  cases ran.symm.trans ran'
  exact ⟨module, plan, index, targets, final, outcome, loaded, planned, ran,
    of_decide_eq_true changes, renames⟩

end RenameOptions

end GoRefactor
