import GoRefactor.Proofs.Edit.Arranged
import GoRefactor.Proofs.Module.Changes
import GoRefactor.Proofs.Transform.RenamePlan

/-!
# Renames without faults

Where every file is laid out, a rename is planned, refused or carried out, but it cannot fault: the
plan puts names in place of names, and such edits move every span to a span. The files stay laid
out, so that another transformation can follow.
-/

namespace GoRefactor

open Lexeme

/-- What a text of a file may cover, in bytes. -/
def Module.Small (module : Module) : Prop :=
  ∀ file ∈ module.sourceFiles, file.content.utf8ByteSize < 2 ^ 63

/-- Only the flag is left out when a file is taken without it. -/
theorem SourceFile.LaidOut.of_unflagged {file other : SourceFile} {lexemes : List Lexeme}
    (laid : file.LaidOut lexemes) (same : file.unflagged = other.unflagged) :
    other.LaidOut lexemes := by
  have bare : file.unflagged.LaidOut lexemes :=
    ⟨laid.content, laid.solid, ⟨laid.fixed.package, laid.fixed.imports, laid.fixed.decls⟩,
      ⟨laid.proper.package, laid.proper.imports, laid.proper.decls⟩, laid.inOrder, laid.package,
      ⟨laid.paired.imports, laid.paired.decls⟩⟩
  rw [same] at bare
  exact ⟨bare.content, bare.solid, ⟨bare.fixed.package, bare.fixed.imports, bare.fixed.decls⟩,
    ⟨bare.proper.package, bare.proper.imports, bare.proper.decls⟩, bare.inOrder, bare.package,
    ⟨bare.paired.imports, bare.paired.decls⟩⟩

namespace Module

variable {module : Module} {edits : List Edit}

/-- The file is laid out, and if it is still to be edited, its edits put names in place of names. -/
structure Ready (edits : List Edit) (paths : List String) (file : SourceFile)
    (lexemes : List Lexeme) : Prop where
  laid : file.LaidOut lexemes
  small : file.content.utf8ByteSize < 2 ^ 63
  /-- What the edits leave is laid out as well. -/
  edits : file.path ∈ paths → ∃ lexemes',
    Relabels 0 lexemes (edits.filter fun edit => edit.file == file.path) lexemes' ∧
      byteLength (flat lexemes') < 2 ^ 63

/-- Edits of one file after the other find each file ready. -/
theorem editFiles_of_ready {paths : List String} (distinct : paths.Nodup)
    (ready : ∀ file ∈ module.sourceFiles, ∃ lexemes, Ready edits paths file lexemes) :
    ∃ edited, module.editFiles edits paths = .ok edited ∧ edited.LaidOut ∧ edited.Small := by
  induction paths generalizing module with
  | nil =>
    refine ⟨module, rfl, fun file member => ?_, fun file member => ?_⟩
    · obtain ⟨lexemes, holds⟩ := ready file member
      exact ⟨lexemes, holds.laid⟩
    · exact (ready file member).choose_spec.small
  | cons path rest ih =>
    obtain ⟨fresh, distinct'⟩ := List.nodup_cons.mp distinct
    -- One file is edited; the others are as ready as before.
    have step : ∃ next, module.editFile edits path = .ok next ∧
        ∀ file ∈ next.sourceFiles, ∃ lexemes, Ready edits rest file lexemes := by
      have later {file : SourceFile} {lexemes : List Lexeme}
          (holds : Ready edits (path :: rest) file lexemes) : Ready edits rest file lexemes :=
        ⟨holds.laid, holds.small, fun listed => holds.edits (List.mem_cons_of_mem _ listed)⟩
      unfold editFile
      cases held : module.file? path with
      | none => exact ⟨module, rfl, fun file member => (ready file member).imp fun _ => later⟩
      | some file =>
        obtain ⟨member, here⟩ := mem_of_file? held
        obtain ⟨lexemes, holds⟩ := ready file member
        obtain ⟨lexemes', relabels, short⟩ := holds.edits (here ▸ List.mem_cons_self)
        have size : byteLength (flat lexemes) < 2 ^ 63 := by
          rw [← utf8ByteSize_ofList, ← holds.laid.content]
          exact holds.small
        obtain ⟨image, applied, laid⟩ := holds.laid.applyToFile relabels (by omega) (by omega)
        rw [here] at applied
        refine ⟨_, bind_eq_ok.mpr ⟨image, applied, rfl⟩, fun other member => ?_⟩
        rcases (replaces_updateFile module path image).cases_mem member with
          same | ⟨former, inside, same⟩
        · have kept := Edit.applyToFile_keeps applied
          refine ⟨lexemes', laid.of_unflagged same.symm, ?_, fun listed => ?_⟩
          · rw [← other.unflagged_content, same, image.unflagged_content, laid.content,
              utf8ByteSize_ofList]
            exact short
          · rw [← other.unflagged_path, same, image.unflagged_path, kept.1, here] at listed
            exact absurd listed fresh
        · obtain ⟨lexemes, holds⟩ := ready former inside
          have path_eq : former.path = other.path := by
            rw [← former.unflagged_path, same, other.unflagged_path]
          have content_eq : former.content = other.content := by
            rw [← former.unflagged_content, same, other.unflagged_content]
          refine ⟨lexemes, holds.laid.of_unflagged same, content_eq ▸ holds.small, fun listed => ?_⟩
          rw [← path_eq] at listed ⊢
          exact holds.edits (List.mem_cons_of_mem _ listed)
    obtain ⟨next, stepped, ready'⟩ := step
    obtain ⟨edited, rest_eq, facts⟩ := ih distinct' ready'
    refine ⟨edited, ?_, facts⟩
    rw [editFiles, List.foldlM_cons]
    exact bind_eq_ok.mpr ⟨next, stepped, rest_eq⟩

/-- In what order edits of names come: the earlier one starts first. -/
theorem starts_of_apart {edits : List Edit}
    (apart : edits.Pairwise fun earlier later => earlier.span.stop ≤ later.span.start)
    (filled : ∀ edit ∈ edits, edit.span.start < edit.span.stop) :
    edits.Pairwise fun earlier later => earlier.span.start < later.span.start := by
  refine apart.imp_of_mem fun {earlier later} first _ ends => ?_
  exact Nat.lt_of_lt_of_le (filled earlier first) ends

/-- **Names in place of names are applied or refused, and leave the files laid out.** -/
theorem LaidOut.applyEdits (laid : module.LaidOut) (small : module.Small)
    (distinct : (module.sourceFiles.map SourceFile.path).Nodup)
    (names : ∀ edit ∈ edits, nameFlaw? edit.replacement = none ∧
      module.NameAt edit.file edit.span)
    (short : ∀ file ∈ module.sourceFiles,
      (Edit.spliceAll ((Edit.arrange edits).filter fun edit => edit.file == file.path)
        file.content).utf8ByteSize < 2 ^ 63) :
    Attempt.Ends (module.applyEdits edits) ∧
      ∀ edited paths, (module.applyEdits edits).run = .ok (.ok (edited, paths)) →
        edited.LaidOut ∧ edited.Small := by
  have carried (clear : (Edit.overlaps (Edit.arrange edits)).head? = none)
      (fits : (dropRepeats ((Edit.arrange edits).map (·.file))).findSome? (fun path =>
        module.editConflict? path ((Edit.arrange edits).filter fun edit => edit.file == path)) =
          none) :
      ∃ edited, module.editFiles (Edit.arrange edits)
        (dropRepeats ((Edit.arrange edits).map (·.file))) = .ok edited ∧
          edited.LaidOut ∧ edited.Small := by
    obtain ⟨apart, -⟩ := checked_of_fits clear fits
    refine editFiles_of_ready (Edit.nodup_files_arrange edits) fun file member => ?_
    obtain ⟨lexemes, laidOut⟩ := laid file member
    refine ⟨lexemes, laidOut, small file member, fun _ => ?_⟩
    -- The edits of one file stand at names of its text, one behind the other.
    have each : ∀ edit ∈ (Edit.arrange edits).filter (fun edit => edit.file == file.path),
        nameFlaw? edit.replacement = none ∧ Lexeme.NameAt lexemes edit.span := by
      intro edit listed
      obtain ⟨arranged, here⟩ := List.mem_filter.mp listed
      obtain ⟨valid, other, inside, path, stands⟩ := names edit (Edit.mem_of_mem_arrange arranged)
      have same : other = file :=
        List.inj_on_of_nodup_map distinct inside member (path.trans (eq_of_beq here))
      exact ⟨valid, stands lexemes (same ▸ laidOut)⟩
    have filled : ∀ edit ∈ (Edit.arrange edits).filter (fun edit => edit.file == file.path),
        edit.span.start < edit.span.stop := fun edit listed =>
      (each edit listed).2.filled laidOut.solid
    obtain ⟨lexemes', relabels⟩ := Relabels.of_edits laidOut.solid (starts_of_apart
      (Edit.Apart.of_file apart file.path) filled) each
    refine ⟨lexemes', relabels, ?_⟩
    have spliced := relabels.spliceAll_eq String.utf8ByteSize_empty
    simp only [String.empty_append, ← laidOut.content] at spliced
    rw [← utf8ByteSize_ofList, ← spliced]
    exact short file member
  refine ⟨ends_applyEdits fun clear fits => ?_, fun edited paths applied => ?_⟩
  · obtain ⟨edited, done, -⟩ := carried clear fits
    exact ⟨edited, done⟩
  · obtain ⟨rfl, clear, fits, spliced, done, rfl⟩ := applyEdits_eq_ok.mp applied
    obtain ⟨edited, done', facts⟩ := carried clear fits
    rw [done] at done'
    cases done'
    exact facts

end Module

/-- The texts that a rename writes: those of all files, with the new name in place. -/
def RenameOptions.writes (options : RenameOptions) (module : Module) : List String :=
  match (options.plan module).run with
  | .ok (.ok plan) =>
    if options.dryRun then []
    else module.sourceFiles.map fun file =>
      Edit.spliceAll ((Edit.arrange plan.edits).filter fun edit => edit.file == file.path)
        file.content
  | _ => []

/-- **A rename of files that are laid out ends, and leaves them laid out.** -/
theorem RenameOptions.run_laidOut {module : Module} (laid : module.LaidOut) (small : module.Small)
    (options : RenameOptions)
    (fits : ∀ text ∈ options.writes module, text.utf8ByteSize < 2 ^ 63) :
    ∃ final outcome, options.run module = .ok (final, outcome) ∧ final.LaidOut ∧ final.Small := by
  obtain ⟨refusal | plan, planned⟩ := options.ends_plan laid
  · refine ⟨module, .failed refusal, run_eq_ok.mpr (Or.inr ⟨refusal, ?_, rfl, rfl⟩), laid, small⟩
    exact Attempt.run_bind_error _ planned
  · by_cases dry : options.dryRun = true
    · refine ⟨module, options.report plan, run_eq_ok.mpr (Or.inl ?_), laid, small⟩
      exact attempt_eq_ok.mpr ⟨plan, planned, rfl, by rw [if_pos dry]⟩
    · rw [RenameOptions.writes, planned] at fits
      simp only [dry, Bool.false_eq_true, if_false, List.forall_mem_map] at fits
      obtain ⟨index, targets, plans⟩ := plan_spec planned
      have distinct := (Module.index_spec plans.built).1
      obtain ⟨⟨refusal | ⟨edited, paths⟩, applied⟩, keeps⟩ := laid.applyEdits small distinct
        (fun edit member => ⟨(plans.names member).1 ▸ plans.valid, (plans.names member).2⟩) fits
      · refine ⟨module, .failed refusal, run_eq_ok.mpr (Or.inr ⟨refusal, ?_, rfl, rfl⟩), laid,
          small⟩
        unfold attempt
        rw [Attempt.run_bind_ok _ planned]
        simp only [dry]
        exact Attempt.run_bind_error _ applied
      · obtain ⟨laid', small'⟩ := keeps edited paths applied
        refine ⟨edited, options.report plan, run_eq_ok.mpr (Or.inl ?_), laid', small'⟩
        exact attempt_eq_ok.mpr ⟨plan, planned, rfl, by rw [if_neg dry]; exact ⟨paths, applied⟩⟩

end GoRefactor
