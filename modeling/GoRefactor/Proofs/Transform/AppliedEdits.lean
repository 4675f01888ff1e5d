import GoRefactor.Proofs.Edit.Splicing
import GoRefactor.Proofs.Go.Offers
import GoRefactor.Proofs.Module.Changes
import GoRefactor.Proofs.Transform.Staleness
import Mathlib.Data.List.Destutter

/-!
# Applied edits

Edits of a module are refused as a whole or made as a whole. What decides are the edits in order,
each once: one that names no file or does not fit its text, and two of one file that share bytes,
neighbours or not. Edits that are made give each file the text that is read off from the front, gap
by gap and replacement by replacement, and leave every other file as it is.
-/

namespace GoRefactor

namespace Edit

/-! ## The order of edits -/

/-- Edits by file and span, equals in the order in which they came, without those that do the same
as the one before. -/
def ordered (edits : List Edit) : List Edit :=
  (edits.mergeSort Edit.le).destutter fun earlier later => ¬earlier.sameEffect later = true

/-- Edits that do the same as the one kept before them are dropped. -/
theorem distinctAfter_eq_destutter' (kept : Edit) (edits : List Edit) :
    kept :: distinctAfter kept edits =
      edits.destutter' (fun earlier later => ¬earlier.sameEffect later = true) kept := by
  induction edits generalizing kept with
  | nil => rfl
  | cons edit rest ih =>
    rw [distinctAfter]
    by_cases same : kept.sameEffect edit = true
    · rw [if_pos same, List.destutter'_cons_neg _ (not_not_intro same), ih]
    · rw [if_neg same, List.destutter'_cons_pos _ same, ih]

/-- Arranged edits are the edits in order, each once. -/
theorem arrange_eq_ordered (edits : List Edit) : arrange edits = ordered edits := by
  unfold arrange ordered
  rw [sortBy_eq_mergeSort le_total le_trans]
  cases edits.mergeSort Edit.le with
  | nil => rfl
  | cons first rest => exact distinctAfter_eq_destutter' first rest

/-- The edits of one file. -/
def own (edits : List Edit) (path : String) : List Edit :=
  edits.filter fun edit => edit.file == path

/-- Edits that are apart do not overlap. -/
theorem not_overlaps_of_le {earlier later : Edit} (ends : earlier.span.stop ≤ later.span.start) :
    earlier.span.overlaps later.span = false := by
  simp only [Span.overlaps, Bool.and_eq_false_iff, decide_eq_false_iff_not]
  omega

/-- What is found among neighbours are two edits of one file that share bytes. -/
theorem exists_sublist_of_overlaps {edits : List Edit} {conflict : Conflict}
    (found : (overlaps edits).head? = some conflict) :
    ∃ first second, [first, second].Sublist edits ∧ first.file = second.file ∧
      first.span.overlaps second.span = true := by
  fun_induction overlaps edits with
  | case1 first second rest following both ih =>
    rw [Bool.and_eq_true, beq_iff_eq] at both
    exact ⟨first, second, (List.nil_sublist rest).cons_cons _ |>.cons_cons _, both.1, both.2⟩
  | case2 first second rest following _ ih =>
    obtain ⟨left, right, inside, shared⟩ := ih found
    exact ⟨left, right, inside.cons first, shared⟩
  | case3 => cases found

/-- The whole text with the edits made, read from the front: gap, replacement, gap, and so on. -/
def textAfter? (edits : List Edit) (content : String) : Option String :=
  rewritten? content edits ⟨0, content.utf8ByteSize⟩

/-- **Edits of one file that are apart and cut its text rewrite it.** -/
theorem exists_rewrites {edits : List Edit} {content : String}
    (cuts : ∀ edit ∈ edits, edit.Cuts content)
    (apart : edits.Pairwise fun earlier later => earlier.span.stop ≤ later.span.start) :
    ∃ text, Rewrites 0 edits content text ∧ spliceAll edits content = text ∧
      textAfter? edits content = some text := by
  obtain ⟨text, rewrites⟩ := Rewrites.of_apart String.empty_append.symm String.utf8ByteSize_empty
    cuts apart fun _ _ => Nat.zero_le _
  have spliced := rewrites.spliceAll_eq String.utf8ByteSize_empty
  have read := rewrites.rewritten?_eq String.utf8ByteSize_empty ""
  rw [String.empty_append, String.empty_append] at spliced
  rw [String.empty_append, String.append_empty, Nat.zero_add] at read
  exact ⟨text, rewrites, spliced, read⟩

instance (edits : List Edit) (offset : Nat) : Decidable (Clear edits offset) :=
  inferInstanceAs (Decidable (∀ edit ∈ edits, _))

/-- The edits leave no span of the file broken: all spans are in order and in bounds, and none
starts or ends strictly inside what an edit replaces. The new text is no longer than a text can
be. -/
def Spare (edits : List Edit) (file : SourceFile) : Prop :=
  (∀ span ∈ file.spans, span.start ≤ span.stop ∧ span.stop ≤ file.content.utf8ByteSize ∧
    Clear edits span.start ∧ Clear edits span.stop) ∧
      ∀ text ∈ textAfter? edits file.content, text.utf8ByteSize < 2 ^ 63

instance (edits : List Edit) (file : SourceFile) : Decidable (Spare edits file) :=
  inferInstanceAs (Decidable (_ ∧ _))

/-- Where all spans move to spans, edits of a file can be made. -/
theorem exists_applyToFile {edits : List Edit} {file : SourceFile}
    (moves : ∀ span ∈ file.spans, ∃ moved, (remap edits).span span = .ok moved) :
    ∃ image, applyToFile edits file = .ok image := by
  have walked : ∃ moved,
      (remap edits).file { file with content := spliceAll edits file.content } = .ok moved := by
    refine (SpanVisitor.tours_file _).lists.mpr fun offer member => ?_
    obtain ⟨span', moved⟩ := moves offer.place (List.mem_map_of_mem member)
    cases offer with
    | span span => exact ⟨.span span', map_eq_ok.mpr ⟨span', moved, rfl⟩⟩
    | name name span =>
      exact ⟨.name _ span', map_eq_ok.mpr
        ⟨_, SpanVisitor.named_eq_ok_iff.mpr ⟨remap_name edits name span, moved⟩, rfl⟩⟩
  obtain ⟨moved, walked⟩ := walked
  exact ⟨moved.rekey, bind_eq_ok.mpr ⟨moved, walked, rfl⟩⟩

/-- What the edits of a file make of it: its text is the one read from the front, and it is flagged.
Each edit, made after those behind it, meets a text that it cuts between characters. Without edits
the file stays as it is. -/
structure TurnInto (edits : List Edit) (file image : SourceFile) : Prop where
  untouched : edits = [] → image = file
  path : image.path = file.path
  isTest : image.isTest = file.isTest
  content : textAfter? edits file.content = some image.content
  cuts : AllCut edits file.content
  flag : edits ≠ [] → image.modified = true

/-- Without edits a file stays as it is. -/
theorem TurnInto.refl (file : SourceFile) : TurnInto [] file file where
  untouched _ := rfl
  path := rfl
  isTest := rfl
  content := by
    obtain ⟨text, rewrites, -, read⟩ := exists_rewrites (List.forall_mem_nil _) .nil
    cases rewrites
    exact read
  cuts := trivial
  flag edited := absurd rfl edited

variable {edits : List Edit} {file : SourceFile}

/-- Edits that are apart, cut a file's text and spare its spans can be made. -/
theorem exists_applyToFile_of_spare (cuts : ∀ edit ∈ edits, edit.Cuts file.content)
    (apart : edits.Pairwise fun earlier later => earlier.span.stop ≤ later.span.start)
    (spare : Spare edits file) : ∃ moved, applyToFile edits file = .ok moved := by
  obtain ⟨text, rewrites, -, read⟩ := exists_rewrites cuts apart
  refine exists_applyToFile fun span member => ?_
  obtain ⟨order, inside, clear, clear'⟩ := spare.1 span member
  obtain ⟨start, stop, moves, -⟩ :=
    rewrites.exists_moved (spare.2 text read) order inside clear clear'
  exact ⟨⟨start, stop⟩, moves⟩

/-- **Edits that are made turn a file into the one that is read from the front.** -/
theorem turnInto_of_applyToFile (cuts : ∀ edit ∈ edits, edit.Cuts file.content)
    (apart : edits.Pairwise fun earlier later => earlier.span.stop ≤ later.span.start)
    (given : edits ≠ []) {moved : SourceFile} (applied : applyToFile edits file = .ok moved) :
    TurnInto edits file moved.flagged := by
  obtain ⟨text, -, spliced, read⟩ := exists_rewrites cuts apart
  obtain ⟨path, content, isTest, -⟩ := applyToFile_keeps applied
  exact ⟨fun none => absurd none given, path, isTest,
    read.trans (congrArg some (spliced.symm.trans content.symm)), allCut cuts apart, fun _ => rfl⟩

end Edit

/-! ## Files after edits -/

namespace Module

variable {module edited : Module} {edits : List Edit} {paths : List String}

/-- The edits of one file change what is found by its path, and nothing else. -/
theorem file?_of_editFile {path : String} (done : module.editFile edits path = .ok edited) :
    (∀ wanted ≠ path, edited.file? wanted = module.file? wanted) ∧
      ∀ file, module.file? path = some file → ∃ moved,
        Edit.applyToFile (Edit.own edits path) file = .ok moved ∧
          edited.file? path = some moved.flagged := by
  unfold editFile at done
  cases held : module.file? path with
  | none =>
    rw [held] at done
    cases done
    exact ⟨fun _ _ => rfl, fun file found => by cases found⟩
  | some file =>
    rw [held] at done
    obtain ⟨moved, applied, returned⟩ := bind_eq_ok.mp done
    cases returned
    have here : moved.path = path :=
      (Edit.applyToFile_keeps applied).1.trans (mem_of_file? held).2
    have placed (wanted : String) := module.file?_updateFile (fun _ _ => here) wanted
    refine ⟨fun wanted other => ?_, fun found same => ?_⟩
    · rw [file?_markModified, placed, Option.map_map]
      cases found : module.file? wanted with
      | none => rfl
      | some file' =>
        have apart : file'.path ≠ path := fun same => other ((mem_of_file? found).2.symm.trans same)
        rw [Option.map_some, Function.comp_apply, if_neg apart, if_neg apart]
    · cases same
      refine ⟨moved, applied, ?_⟩
      rw [file?_markModified, placed, held, Option.map_some, Option.map_some,
        if_pos (mem_of_file? held).2, if_pos here]

/-- Edits file by file find every file as it was. -/
theorem file?_of_editFiles (distinct : paths.Nodup)
    (done : module.editFiles edits paths = .ok edited) {path : String} {file : SourceFile}
    (held : module.file? path = some file) :
    (path ∉ paths → edited.file? path = some file) ∧
      (path ∈ paths → ∃ moved, Edit.applyToFile (Edit.own edits path) file = .ok moved ∧
        edited.file? path = some moved.flagged) := by
  induction paths generalizing module file with
  | nil =>
    cases done
    exact ⟨fun _ => held, fun member => nomatch member⟩
  | cons first rest ih =>
    obtain ⟨fresh, distinct'⟩ := List.nodup_cons.mp distinct
    obtain ⟨next, stepped, later⟩ := bind_eq_ok.mp (List.foldlM_cons.symm.trans done)
    replace later : next.editFiles edits rest = .ok edited := later
    obtain ⟨others, one⟩ := file?_of_editFile stepped
    by_cases same : path = first
    · obtain ⟨moved, applied, held'⟩ := one file (same ▸ held)
      subst same
      have kept := (ih distinct' later held').1 fresh
      exact ⟨fun outside => absurd List.mem_cons_self outside, fun _ => ⟨moved, applied, kept⟩⟩
    · have kept := ih distinct' later ((others path same).trans held)
      simpa only [List.mem_cons, same, false_or] using kept

/-- Edits file by file can be made if those of each file can. -/
theorem exists_editFiles (distinct : paths.Nodup)
    (each : ∀ path ∈ paths, ∀ file, module.file? path = some file →
      ∃ moved, Edit.applyToFile (Edit.own edits path) file = .ok moved) :
    ∃ edited, module.editFiles edits paths = .ok edited := by
  induction paths generalizing module with
  | nil => exact ⟨module, rfl⟩
  | cons first rest ih =>
    obtain ⟨fresh, distinct'⟩ := List.nodup_cons.mp distinct
    obtain ⟨first', later⟩ := List.forall_mem_cons.mp each
    have step : ∃ next, module.editFile edits first = .ok next := by
      unfold editFile
      cases held : module.file? first with
      | none => exact ⟨module, rfl⟩
      | some file =>
        obtain ⟨moved, applied⟩ := first' file held
        exact ⟨_, bind_eq_ok.mpr ⟨moved, applied, rfl⟩⟩
    obtain ⟨next, stepped⟩ := step
    have others := (file?_of_editFile stepped).1
    obtain ⟨edited, done⟩ := ih distinct' fun path member file held =>
      later path member file ((others path fun same => fresh (same ▸ member)).symm.trans held)
    exact ⟨edited, bind_eq_ok.mpr ⟨next, stepped, done⟩⟩

/-- Editing files leaves the paths of all files as they are. -/
theorem paths_of_editFiles (done : module.editFiles edits paths = .ok edited) :
    edited.sourceFiles.map SourceFile.path = module.sourceFiles.map SourceFile.path := by
  refine foldlM_keeps (fun state : Module => state.sourceFiles.map SourceFile.path =
    module.sourceFiles.map SourceFile.path) (fun state path next same stepped => ?_) paths module
    edited rfl done
  unfold editFile at stepped
  cases held : state.file? path with
  | none =>
    rw [held] at stepped
    cases stepped
    exact same
  | some file =>
    rw [held] at stepped
    obtain ⟨moved, applied, returned⟩ := bind_eq_ok.mp stepped
    cases returned
    refine ((replaces_updateFile state path moved).paths ?_).trans same
    exact (Edit.applyToFile_keeps applied).1.trans (mem_of_file? held).2

/-! ## Refusals -/

/-- Why a module refuses edits. -/
inductive Refuses (module : Module) (edits : List Edit) : Prop where
  /-- An edit names a file that is not there. -/
  | missing (edit : Edit) (member : edit ∈ edits) (absent : module.file? edit.file = none)
  /-- An edit does not fit the text of its file. -/
  | unfit (edit : Edit) (member : edit ∈ edits) (file : SourceFile)
    (held : module.file? edit.file = some file) (conflict : Conflict)
    (found : edit.conflict? file.content = some conflict)
  /-- Two edits of one file share bytes. -/
  | shared (first second : Edit) (inOrder : [first, second].Sublist edits)
    (same : first.file = second.file) (overlap : first.span.overlaps second.span = true)

/-- What a check finds is refused. -/
theorem refuses_of_editConflict? {path : String} {conflict : Conflict}
    (named : ∃ edit ∈ edits, edit.file = path)
    (found : module.editConflict? path (Edit.own edits path) = some conflict) :
    module.Refuses edits := by
  unfold editConflict? at found
  cases held : module.file? path with
  | none =>
    obtain ⟨edit, member, rfl⟩ := named
    exact .missing edit member held
  | some file =>
    rw [held] at found
    obtain ⟨edit, member, found⟩ := List.exists_of_findSome?_eq_some found
    obtain ⟨member, here⟩ := List.mem_filter.mp member
    exact .unfit edit member file (eq_of_beq here ▸ held) conflict found

/-- **Edits pass all checks exactly if there is no reason to refuse them.** -/
theorem fits_iff :
    ((Edit.overlaps (Edit.arrange edits)).head? = none ∧
        (dropRepeats ((Edit.arrange edits).map (·.file))).findSome? (fun path =>
          module.editConflict? path (Edit.own (Edit.arrange edits) path)) = none) ↔
      ¬module.Refuses (Edit.arrange edits) := by
  constructor
  · rintro ⟨clear, fits⟩
    obtain ⟨apart, each⟩ := checked_of_fits clear fits
    rintro (⟨edit, member, absent⟩ | ⟨edit, member, file, held, conflict, found⟩ |
      ⟨first, second, inOrder, same, overlap⟩)
    · obtain ⟨file, held, -⟩ := each edit member
      rw [absent] at held
      cases held
    · have quiet := List.findSome?_eq_none_iff.mp fits edit.file
        (mem_dropRepeats.mpr (List.mem_map_of_mem member))
      rw [editConflict?, held] at quiet
      have fitting := List.findSome?_eq_none_iff.mp quiet edit
        (List.mem_filter.mpr ⟨member, beq_self_eq_true _⟩)
      rw [found] at fitting
      cases fitting
    · have ends := List.pairwise_iff_forall_sublist.mp apart inOrder same
      rw [Edit.not_overlaps_of_le ends] at overlap
      cases overlap
  · intro accepted
    constructor
    · refine Option.eq_none_iff_forall_ne_some.mpr fun conflict found => accepted ?_
      obtain ⟨first, second, inOrder, same, overlap⟩ := Edit.exists_sublist_of_overlaps found
      exact .shared first second inOrder same overlap
    · refine List.findSome?_eq_none_iff.mpr fun path listed => ?_
      refine Option.eq_none_iff_forall_ne_some.mpr fun conflict found => accepted ?_
      obtain ⟨edit, member, here⟩ := List.mem_map.mp (mem_dropRepeats.mp listed)
      exact refuses_of_editConflict? ⟨edit, member, here⟩ found

/-- Edits are refused exactly if there is a reason. -/
theorem refused_iff (module : Module) (edits : List Edit) :
    (∃ error, (module.applyEdits edits).run = .ok (.error error)) ↔
      module.Refuses (Edit.arrange edits) := by
  rw [← not_iff_not, ← fits_iff]
  unfold applyEdits
  simp only
  cases clear : (Edit.overlaps (Edit.arrange edits)).head? with
  | some conflict => simp
  | none =>
    simp only [true_and]
    split
    · rename_i conflict found
      simp only [Attempt.run_refuse, Except.ok.injEq, Except.error.injEq, exists_eq',
        not_true_eq_false, false_iff]
      exact Option.ne_none_iff_exists'.mpr ⟨conflict, found⟩
    · rename_i fits
      refine iff_of_true (fun ⟨error, refused⟩ => ?_) fits
      -- Checked edits may fault, but they are not refused.
      obtain refused | ⟨edited, -, returned⟩ := Attempt.run_bind_eq_error.mp refused
      · exact Attempt.run_lift_ne_error _ _ refused
      · cases returned

/-- What passes the checks: in each file the edits cut the text and are apart. -/
theorem own_of_fits (distinct : module.DistinctPaths)
    (clear : (Edit.overlaps (Edit.arrange edits)).head? = none)
    (fits : (dropRepeats ((Edit.arrange edits).map (·.file))).findSome? (fun path =>
      module.editConflict? path (Edit.own (Edit.arrange edits) path)) = none)
    {file : SourceFile} (member : file ∈ module.sourceFiles) :
    (∀ edit ∈ Edit.own (Edit.arrange edits) file.path, edit.Cuts file.content) ∧
      (Edit.own (Edit.arrange edits) file.path).Pairwise fun earlier later =>
        earlier.span.stop ≤ later.span.start := by
  obtain ⟨apart, each⟩ := checked_of_fits clear fits
  refine ⟨fun edit listed => ?_, apart.of_file file.path⟩
  obtain ⟨listed, here⟩ := List.mem_filter.mp listed
  obtain ⟨found, held, cut⟩ := each edit listed
  rw [eq_of_beq here, file?_path distinct member] at held
  cases held
  exact cut

/-- A path is listed for edits exactly if it has some. -/
theorem mem_edited_iff {path : String} :
    path ∈ dropRepeats (edits.map (·.file)) ↔ Edit.own edits path ≠ [] := by
  rw [mem_dropRepeats, Edit.own, Ne, List.filter_eq_nil_iff]
  simp

/-- Edits without a reason to refuse them are made if those of each file can be. -/
theorem exists_applyEdits (distinct : module.DistinctPaths)
    (accepted : ¬module.Refuses (Edit.arrange edits))
    (each : ∀ file ∈ module.sourceFiles, Edit.own (Edit.arrange edits) file.path ≠ [] →
      (∀ edit ∈ Edit.own (Edit.arrange edits) file.path, edit.Cuts file.content) →
      ((Edit.own (Edit.arrange edits) file.path).Pairwise fun earlier later =>
        earlier.span.stop ≤ later.span.start) →
      ∃ moved, Edit.applyToFile (Edit.own (Edit.arrange edits) file.path) file = .ok moved) :
    ∃ edited paths, (module.applyEdits edits).run = .ok (.ok (edited, paths)) := by
  obtain ⟨clear, fits⟩ := fits_iff.mpr accepted
  obtain ⟨edited, done⟩ := exists_editFiles (Edit.nodup_files_arrange edits)
    fun path listed file held => by
      obtain ⟨member, rfl⟩ := mem_of_file? held
      obtain ⟨cuts, apart⟩ := own_of_fits distinct clear fits member
      exact each file member (mem_edited_iff.mp listed) cuts apart
  exact ⟨edited.touch, _, applyEdits_eq_ok.mpr ⟨rfl, clear, fits, edited, done, rfl⟩⟩

/-- **Edits that are made turn each file into the one that is read from the front.** -/
theorem turnInto_of_applyEdits (distinct : module.DistinctPaths)
    (applied : (module.applyEdits edits).run = .ok (.ok (edited, paths))) :
    List.Forall₂ (fun file => Edit.TurnInto (Edit.own (Edit.arrange edits) file.path) file)
      module.sourceFiles edited.sourceFiles := by
  obtain ⟨rfl, clear, fits, spliced, done, rfl⟩ := applyEdits_eq_ok.mp applied
  have same := paths_of_editFiles done
  have distinct' : spliced.DistinctPaths := by
    unfold DistinctPaths
    rw [same]
    exact distinct
  rw [sourceFiles_touch]
  refine (forall₂_of_map_eq same).imp fun file image ⟨member, member', here⟩ => ?_
  have found := here ▸ file?_path distinct' member'
  obtain ⟨keeps, turns⟩ := file?_of_editFiles (Edit.nodup_files_arrange edits) done
    (file?_path distinct member)
  by_cases none : Edit.own (Edit.arrange edits) file.path = []
  · have kept := keeps fun listed => mem_edited_iff.mp listed none
    rw [found] at kept
    cases kept
    rw [none]
    exact .refl _
  · obtain ⟨moved, made, held⟩ := turns (mem_edited_iff.mpr none)
    obtain ⟨cuts, apart⟩ := own_of_fits distinct clear fits member
    rw [found] at held
    cases held
    exact Edit.turnInto_of_applyToFile cuts apart none made

/-- **Edits are refused as a whole or made as they read from the front.** Refused are edits that
name a file that is not there, that do not fit its text, or of which two share bytes, and a refusal
leaves the module alone. Other edits that spare the spans of their files are made without a fault:
each edited file has the text of the gaps and replacements in order, and every other file is the
same as before. -/
theorem applyEdits_rewrites (distinct : module.DistinctPaths) (edits : List Edit) :
    ((∃ error, (module.applyEdits edits).run = .ok (.error error)) ↔
        module.Refuses (Edit.ordered edits)) ∧
      (module.Refuses (Edit.ordered edits) → (Step.edit edits).run module = .ok module) ∧
      (¬module.Refuses (Edit.ordered edits) →
        (∀ file ∈ module.sourceFiles, Edit.own (Edit.ordered edits) file.path ≠ [] →
          Edit.Spare (Edit.own (Edit.ordered edits) file.path) file) →
        ∃ edited paths, (module.applyEdits edits).run = .ok (.ok (edited, paths)) ∧
          List.Forall₂ (fun file => Edit.TurnInto (Edit.own (Edit.ordered edits) file.path) file)
            module.sourceFiles edited.sourceFiles) := by
  rw [← Edit.arrange_eq_ordered]
  refine ⟨refused_iff module edits, fun refuses => ?_, fun accepted spared => ?_⟩
  · obtain ⟨error, refused⟩ := (refused_iff module edits).mpr refuses
    rw [Step.run, refused]
  · obtain ⟨edited, paths, applied⟩ := exists_applyEdits distinct accepted
      fun file member given cuts apart =>
        Edit.exists_applyToFile_of_spare cuts apart (spared file member given)
    exact ⟨edited, paths, applied, turnInto_of_applyEdits distinct applied⟩

/-- Files that match one by one and keep their paths are found by the same paths. -/
theorem file?_of_matched {related : SourceFile → SourceFile → Prop}
    (matched : List.Forall₂ related module.sourceFiles edited.sourceFiles)
    (keeps : ∀ file image, related file image → image.path = file.path) {path : String}
    {file : SourceFile} (held : module.file? path = some file) :
    ∃ image, edited.file? path = some image ∧ related file image := by
  rw [file?_eq_find?] at held ⊢
  generalize module.sourceFiles = files at matched held
  generalize edited.sourceFiles = images at matched
  induction matched with
  | nil => cases held
  | @cons first first' _ _ one _ ih =>
    rw [List.find?_cons] at held ⊢
    rw [keeps first first' one]
    cases here : first.path == path with
    | true =>
      rw [here] at held
      cases held
      exact ⟨first', rfl, one⟩
    | false =>
      rw [here] at held
      exact ih held

/-- Two files; only the first one is edited. -/
def limitSources : List (String × String) :=
  [("p.go", "package p\n\nvar Limit = 1\n"), ("q.go", "package p\n\nvar Other = Limit\n")]

/-- An insertion at the end, a longer name, which is asked for twice, and an insertion behind it. -/
def limitEdits : List Edit :=
  [.insert "p.go" 25 "// end\n", ⟨"p.go", ⟨15, 20⟩, "Maximum", "Limit", sha256 "Limit"⟩,
    .insert "p.go" 20 " int", ⟨"p.go", ⟨15, 20⟩, "Maximum", "Limit", sha256 "Limit"⟩]

/-- Each edit has the hash of what it says stands there. -/
theorem limitEdits_hashed : ∀ edit ∈ limitEdits, edit.expected = sha256 edit.replaced :=
  List.forall_mem_cons.mpr ⟨rfl, List.forall_mem_cons.mpr ⟨rfl,
    List.forall_mem_cons.mpr ⟨rfl, List.forall_mem_singleton.mpr rfl⟩⟩⟩

/-- The edits are made, wherever they stand in the list, and the other file stays. -/
theorem applyEdits_limits :
    ∃ module edited paths, Module.ofSources "m" limitSources = .ok module ∧
      (module.applyEdits limitEdits).run = .ok (.ok (edited, paths)) ∧
      edited.sourceFiles.map SourceFile.content =
        ["package p\n\nvar Maximum int = 1\n// end\n", "package p\n\nvar Other = Limit\n"] ∧
      List.Forall₂ (fun file => Edit.TurnInto (Edit.own (Edit.ordered limitEdits) file.path) file)
        module.sourceFiles edited.sourceFiles := by
  -- The checks would hash every text again: what they compare is read off the edits.
  have evaluated : checkOk (Module.ofSources "m" limitSources) (fun module =>
      decide ((module.sourceFiles.map SourceFile.path).Nodup) &&
      decide (∀ file ∈ module.sourceFiles, Edit.own (Edit.arrange limitEdits) file.path ≠ [] →
        Edit.Spare (Edit.own (Edit.arrange limitEdits) file.path) file) &&
      decide (∀ edit ∈ limitEdits, ((module.file? edit.file).bind fun file =>
        edit.span.slice? file.content) = some edit.replaced) &&
      checkOk (module.applyPlanned limitEdits).run fun ending =>
        checkOk ending fun result => decide (result.1.sourceFiles.map SourceFile.content =
          ["package p\n\nvar Maximum int = 1\n// end\n", "package p\n\nvar Other = Limit\n"])) =
            true := by
    decide +kernel
  obtain ⟨module, loaded, checked⟩ := exists_of_checkOk evaluated
  obtain ⟨checked, applied⟩ := Bool.and_eq_true_iff.mp checked
  obtain ⟨checked, covers⟩ := Bool.and_eq_true_iff.mp checked
  obtain ⟨distinct, spared⟩ := Bool.and_eq_true_iff.mp checked
  obtain ⟨ending, ran, ended⟩ := exists_of_checkOk applied
  obtain ⟨⟨edited, paths⟩, rfl, texts⟩ := exists_of_checkOk ended
  rw [← applyEdits_eq_applyPlanned (planned_of_slices limitEdits_hashed
    (of_decide_eq_true covers))] at ran
  have distinct : (module.sourceFiles.map SourceFile.path).Nodup := of_decide_eq_true distinct
  have spared := of_decide_eq_true spared
  rw [Edit.arrange_eq_ordered] at spared
  obtain ⟨refused, -, made⟩ := applyEdits_rewrites distinct limitEdits
  have accepted : ¬module.Refuses (Edit.ordered limitEdits) := fun refuses => by
    obtain ⟨error, stopped⟩ := refused.mpr refuses
    rw [ran] at stopped
    cases stopped
  obtain ⟨edited', paths', ran', turned⟩ := made accepted spared
  cases ran.symm.trans ran'
  exact ⟨module, edited, paths, loaded, ran, of_decide_eq_true texts, turned⟩

end Module

end GoRefactor
