import GoRefactor.Proofs.Symbol.Standing
import GoRefactor.Proofs.Transform.Runs

/-!
# What a rename plans

A plan edits the places of the declarations that are renamed and of the references to them, each
once and in order. All of them are names of the text.
-/

namespace GoRefactor

/-- A package is found or refused. -/
theorem Module.ends_packagePath (module : Module) (pathOrName : String) :
    Attempt.Ends (module.packagePath pathOrName) := by
  unfold packagePath
  split
  · exact Attempt.ends_pure _
  · exact Attempt.ends_refuse _

namespace RenameOptions

variable {options : RenameOptions} {module : Module} {index : Index} {targets : List Symbol}
  {plan : RenamePlan}

/-- What is renamed is declared in the module under the old name, and can be renamed. -/
theorem locate_spec (built : (module.index .full).run = .ok (.ok index))
    (located : (options.locate module index).run = .ok (.ok targets)) {target : Symbol}
    (member : target ∈ targets) :
    target ∈ index.symbols.toList ∧ target.name = options.old ∧
      target.kind.isRenamable = true := by
  obtain ⟨path, -, located⟩ := Attempt.run_bind_eq_ok.mp located
  simp only at located
  split at located
  · cases located
  · cases located
    obtain ⟨named, allowed⟩ := List.mem_filter.mp member
    obtain ⟨-, drawn, -⟩ := Module.index_spec built
    obtain ⟨filed, -⟩ := Module.symbols_spec drawn
    obtain ⟨inside, called⟩ := SymbolTable.mem_of_named filed named
    simp only [Bool.and_eq_true] at allowed
    exact ⟨inside, called, allowed.1.1⟩

/-- The places to edit are those of a renamed declaration or of a reference to one. -/
theorem mem_spans (built : (module.index .full).run = .ok (.ok index)) {place : String × Span} :
    place ∈ spans index targets ↔ ∃ target ∈ targets, place = (target.file, target.nameSpan) ∨
      ∃ reference ∈ index.references.references, reference.symbol = target.id ∧
        (reference.file, reference.span) = place := by
  unfold spans
  simp only [mem_dropRepeats, mem_sortBy, List.mem_flatMap, List.mem_cons, List.mem_map,
    Module.toSymbol_eq_filter built, List.mem_filter, beq_iff_eq, and_assoc]

/-- The places are in order, and no two are the same. -/
theorem pairwise_spans (index : Index) (targets : List Symbol) :
    (spans index targets).Pairwise fun left right =>
      (left.1 < right.1 ∨ (left.1 = right.1 ∧ left.2.le right.2 = true)) ∧ left ≠ right := by
  let inOrder (left right : String × Span) : Bool :=
    left.1 < right.1 || (left.1 == right.1 && left.2.le right.2)
  have spelled (left right : String × Span) : inOrder left right = true ↔
      left.1 < right.1 ∨ (left.1 = right.1 ∧ (left.2.start < right.2.start ∨
        (left.2.start = right.2.start ∧ left.2.stop ≤ right.2.stop))) := by
    simp [inOrder, Span.le]
  have total (left right : String × Span) :
      inOrder left right = true ∨ inOrder right left = true := by
    rw [spelled, spelled]
    grind
  have trans (left middle right : String × Span) (first : inOrder left middle = true)
      (second : inOrder middle right = true) : inOrder left right = true := by
    rw [spelled] at *
    grind
  have antisymm (left right : String × Span) (first : inOrder left right = true)
      (second : inOrder right left = true) : left = right := by
    rw [spelled] at first second
    obtain ⟨file, start, stop⟩ := left
    obtain ⟨file', start', stop'⟩ := right
    simp only [Prod.mk.injEq, Span.mk.injEq] at *
    grind
  refine (pairwise_dropRepeats antisymm (pairwise_sortBy total trans _)).imp ?_
  rintro left right ⟨before, apart⟩
  simpa [inOrder, apart] using before

/-- Names stand at the places to edit. -/
theorem nameAt_of_mem_spans (built : (module.index .full).run = .ok (.ok index))
    (located : (options.locate module index).run = .ok (.ok targets)) {place : String × Span}
    (member : place ∈ spans index targets) : module.NameAt place.1 place.2 := by
  obtain ⟨target, inside, rfl | ⟨reference, listed, -, rfl⟩⟩ := (mem_spans built).mp member
  · obtain ⟨known, -, renamable⟩ := locate_spec built located inside
    exact Module.nameAt_symbol built known renamable
  · exact Module.nameAt_reference built listed

/-- Taken file by file, the places stay as they are. -/
theorem flatMap_spansByFile (places : List (String × Span)) :
    (spansByFile places).flatMap (fun entry => entry.2.map fun span => (entry.1, span)) =
      places := by
  induction places with
  | nil => rfl
  | cons place rest ih =>
    rw [spansByFile]
    cases grouped : spansByFile rest with
    | nil =>
      rw [grouped] at ih
      rw [← ih]
      rfl
    | cons entry files =>
      rw [grouped] at ih
      rw [← ih]
      dsimp only
      split
      · rename_i same
        simp only [List.flatMap_cons, List.map_cons, List.cons_append, ← eq_of_beq same]
      · rfl

/-- For one file, an edit of the old name to the new one is planned at each place. -/
theorem editsIn_spec {path : String} {places : List Span} {found : List (Edit × Change)}
    (made : (options.editsIn module path places).run = .ok (.ok found)) :
    found.map (fun entry => (entry.1.file, entry.1.span)) =
        places.map (fun span => (path, span)) ∧
      ∀ entry ∈ found, ∃ file, module.file? path = some file ∧
        Edit.replace? path file.content entry.1.span options.new = some entry.1 ∧
        entry.2 = Change.ofEdit entry.1 file.content := by
  unfold editsIn at made
  cases held : module.file? path with
  | none =>
    rw [held] at made
    cases made
  | some file =>
    rw [held] at made
    have each := Attempt.run_mapM_eq_ok.mp made
    have step : List.Forall₂ (fun span entry => entry.1.file = path ∧ entry.1.span = span ∧
        Edit.replace? path file.content span options.new = some entry.1 ∧
        entry.2 = Change.ofEdit entry.1 file.content) places found := by
      refine each.imp fun span entry planned => ?_
      cases replaced : Edit.replace? path file.content span options.new with
      | none =>
        rw [replaced] at planned
        cases planned
      | some edit =>
        rw [replaced] at planned
        cases planned
        obtain ⟨text, -, rfl⟩ := Option.map_eq_some_iff.mp replaced
        exact ⟨rfl, rfl, rfl, rfl⟩
    refine ⟨?_, fun entry member => ?_⟩
    · refine map_eq_map_of_forall₂ _ _ (fun span entry facts => ?_) step
      rw [facts.1, facts.2.1]
    · obtain ⟨span, -, -, rfl, replaced, change⟩ := exists_mem_of_forall₂ step member
      exact ⟨file, rfl, replaced, change⟩

/-- What a rename plans. -/
structure Planned (options : RenameOptions) (module : Module) (index : Index)
    (targets : List Symbol) (plan : RenamePlan) : Prop where
  /-- The new name can be declared. -/
  valid : nameFlaw? options.new = none
  /-- It is another one. -/
  renames : options.old ≠ options.new
  built : (module.index .full).run = .ok (.ok index)
  located : (options.locate module index).run = .ok (.ok targets)
  /-- All places are edited. -/
  places : plan.edits.map (fun edit => (edit.file, edit.span)) = spans index targets
  /-- Each edit is planned on the text of its file. -/
  edits : ∀ edit ∈ plan.edits, ∃ file, module.file? edit.file = some file ∧
    Edit.replace? edit.file file.content edit.span options.new = some edit
  /-- Each change tells of one edit. -/
  changes : List.Forall₂ (fun edit change => ∃ file, module.file? edit.file = some file ∧
    change = Change.ofEdit edit file.content) plan.edits plan.changes

/-- **What a rename plans, when it does.** -/
theorem plan_spec (planned : (options.plan module).run = .ok (.ok plan)) :
    ∃ index targets, options.Planned module index targets plan := by
  unfold RenameOptions.plan at planned
  cases valid : nameFlaw? options.new with
  | some flaw =>
    rw [valid] at planned
    cases planned
  | none =>
    rw [valid] at planned
    simp only at planned
    split at planned
    · cases planned
    · rename_i renames
      obtain ⟨index, built, planned⟩ := Attempt.run_bind_eq_ok.mp planned
      obtain ⟨targets, located, planned⟩ := Attempt.run_bind_eq_ok.mp planned
      obtain ⟨-, -, planned⟩ := Attempt.run_bind_eq_ok.mp planned
      obtain ⟨found, made, returned⟩ := Attempt.run_bind_eq_ok.mp planned
      cases returned
      have each := Attempt.run_mapM_eq_ok.mp made
      have planned : ∀ entry ∈ found.flatten, ∃ file,
          module.file? entry.1.file = some file ∧
          Edit.replace? entry.1.file file.content entry.1.span options.new = some entry.1 ∧
          entry.2 = Change.ofEdit entry.1 file.content := by
        intro entry listed
        obtain ⟨part, inside, listed⟩ := List.mem_flatten.mp listed
        obtain ⟨⟨path, places⟩, -, made⟩ := exists_mem_of_forall₂ each inside
        obtain ⟨file, held, replaced, change⟩ := (editsIn_spec made).2 entry listed
        have same : entry.1.file = path := by
          obtain ⟨text, -, equal⟩ := Option.map_eq_some_iff.mp replaced
          rw [← equal]
        exact ⟨file, same ▸ held, same ▸ replaced, change⟩
      refine ⟨index, targets, valid, fun same => renames (beq_iff_eq.mpr same), built, located, ?_,
        fun edit member => ?_, ?_⟩
      · have parts := map_eq_map_of_forall₂
          (fun entry : String × List Span => entry.2.map fun span => (entry.1, span))
          (fun found : List (Edit × Change) =>
            found.map fun entry => (entry.1.file, entry.1.span))
          (fun entry found made => (editsIn_spec made).1) each
        rw [← flatMap_spansByFile (spans index targets), List.flatMap, ← parts, List.map_map,
          List.map_flatten]
        rfl
      · obtain ⟨entry, listed, rfl⟩ := List.mem_map.mp member
        obtain ⟨file, held, replaced, -⟩ := planned entry listed
        exact ⟨file, held, replaced⟩
      · rw [List.forall₂_map_left_iff, List.forall₂_map_right_iff, List.forall₂_same]
        intro entry listed
        obtain ⟨file, held, -, change⟩ := planned entry listed
        exact ⟨file, held, change⟩

namespace Planned

variable (plans : options.Planned module index targets plan)

include plans

/-- Every edit puts the new name in place of a name. -/
theorem names {edit : Edit} (member : edit ∈ plan.edits) :
    edit.replacement = options.new ∧ module.NameAt edit.file edit.span := by
  obtain ⟨file, -, replaced⟩ := plans.edits edit member
  obtain ⟨text, -, equal⟩ := Option.map_eq_some_iff.mp replaced
  refine ⟨by rw [← equal], ?_⟩
  have listed : (edit.file, edit.span) ∈ spans index targets :=
    plans.places ▸ List.mem_map_of_mem member
  exact nameAt_of_mem_spans plans.built plans.located listed

end Planned

/-- Plan and, unless it is a dry run, apply the edits without asking whether a text changed. -/
def runPlanned (options : RenameOptions) (module : Module) : Except Fault (Module × Outcome) := do
  match ← (options.plan module).run with
  | .error error => return (module, .failed error)
  | .ok plan =>
    if options.dryRun then return (module, options.report plan)
    else
      match ← (module.applyPlanned plan.edits).run with
      | .ok (edited, _) => return (edited, options.report plan)
      | .error error => return (module, .failed error)

/-- **A rename has nothing to ask about its edits.** -/
theorem run_eq_runPlanned (options : RenameOptions) (module : Module) :
    options.run module = options.runPlanned module := by
  unfold run attempt runPlanned
  rcases planned : (options.plan module).run with fault | error | plan
  · rw [Attempt.run_bind_fault _ planned]
    rfl
  · rw [Attempt.run_bind_error _ planned]
    rfl
  · obtain ⟨index, targets, plans⟩ := plan_spec planned
    have same := Module.applyEdits_eq_applyPlanned fun edit member => by
      obtain ⟨file, held, replaced⟩ := plans.edits edit member
      exact ⟨file, held, (plans.names member).1 ▸ replaced⟩
    rw [Attempt.run_bind_ok _ planned]
    by_cases dry : options.dryRun = true
    · simp only [bind_ok, if_pos dry]
      rfl
    · simp only [dry, same]
      rcases applied : (module.applyPlanned plan.edits).run with fault | error | edited
      · rw [if_neg Bool.false_ne_true, Attempt.run_bind_fault _ applied]
        simp only [bind_ok, if_neg Bool.false_ne_true, applied]
        rfl
      · rw [if_neg Bool.false_ne_true, Attempt.run_bind_error _ applied]
        simp only [bind_ok, if_neg Bool.false_ne_true, applied]
      · rw [if_neg Bool.false_ne_true, Attempt.run_bind_ok _ applied]
        simp only [bind_ok, if_neg Bool.false_ne_true, applied]
        rfl

/-- **Renames of files that are laid out are planned or refused.** -/
theorem ends_plan (laid : module.LaidOut) (options : RenameOptions) :
    Attempt.Ends (options.plan module) := by
  unfold RenameOptions.plan
  split
  · exact Attempt.ends_refuse _
  · refine Attempt.ends_ite (Attempt.ends_refuse _) ?_
    refine Attempt.ends_bind (laid.ends_index .full) fun index _ => ?_
    refine Attempt.ends_bind ?_ fun targets _ => Attempt.ends_bind ?_ fun _ _ =>
      Attempt.ends_bind (Attempt.ends_mapM fun entry _ => ?_) fun _ _ => Attempt.ends_pure _
    · exact Attempt.ends_bind (Attempt.ends_optionMapM fun path _ => module.ends_packagePath path)
        fun _ _ => Attempt.ends_ite (Attempt.ends_refuse _) (Attempt.ends_pure _)
    · unfold checkSiblings
      split
      · exact Attempt.ends_refuse _
      · exact Attempt.ends_pure _
    · obtain ⟨path, places⟩ := entry
      simp only [editsIn]
      split
      · exact Attempt.ends_refuse _
      · refine Attempt.ends_mapM fun span _ => ?_
        split
        · exact Attempt.ends_refuse _
        · exact Attempt.ends_pure _

end RenameOptions

end GoRefactor
