import GoRefactor.Proofs.Edit.Undone
import GoRefactor.Proofs.Module.Sources
import GoRefactor.Proofs.Transform.EditedPackages

/-!
# Edits of a module undone

Every edit tells what it replaced, and where its replacement lands can be told from the edits in
front of it. So the edits that put everything back can be planned on the new texts. They are
accepted, and they give the module again: texts, declarations with their spans, and the names under
which these are kept. Only the flags and the revision tell that something happened.
-/

namespace GoRefactor

namespace Edit

variable {edits other : List Edit}

/-- What edits gain in front of an offset does not depend on their order. -/
theorem gainBefore_perm (perm : edits.Perm other) (offset : Nat) :
    gainBefore edits offset = gainBefore other offset :=
  ((perm.filter _).map _).sum_eq

/-- Edits that are apart file by file are apart. -/
theorem apart_of_own (each : ∀ path, (own edits path).Pairwise fun earlier later =>
    earlier.span.stop ≤ later.span.start) : Apart edits := by
  refine List.pairwise_iff_forall_sublist.mpr fun {earlier later} inside same => ?_
  refine List.pairwise_iff_forall_sublist.mp (each earlier.file) ?_
  have kept : [earlier, later].filter (fun edit => edit.file == earlier.file) =
      [earlier, later] := by
    simp [same]
  rw [← kept]
  exact inside.filter _

/-- A flag on a file stays there through edits. -/
theorem applyToFile_flagged {file image : SourceFile}
    (applied : applyToFile edits file = .ok image) :
    applyToFile edits file.flagged = .ok image.flagged := by
  obtain ⟨visited, path, content, isTest, -⟩ := applyToFile_eq_ok.mp applied
  obtain ⟨package, imports, types, functions, methods, vars, consts, blanks⟩ := visited
  exact applyToFile_eq_ok.mpr
    ⟨⟨package, imports, types, functions, methods, vars, consts, blanks⟩, path, content,
      isTest, rfl⟩

/-- Where the replacement of an edit lands: behind what the edits of the file gain in front of
it. -/
def landingPlace (edits : List Edit) (edit : Edit) : Span :=
  let start := (edit.span.start + gainBefore (own edits edit.file) edit.span.start).toNat
  ⟨start, start + edit.replacement.utf8ByteSize⟩

/-- The edit that puts back what an edit replaced, planned on a text. -/
def reverse? (edits : List Edit) (content : String) (edit : Edit) : Option Edit :=
  replace? edit.file content (landingPlace edits edit) edit.replaced

/-- The edit that puts back what an edit replaced. -/
def undoing (edits : List Edit) (edit : Edit) : Edit :=
  ⟨edit.file, landingPlace edits edit, edit.replaced, edit.replacement, sha256 edit.replacement⟩

/-- Where the replacement stands where it lands, it can be planned to put back what it replaced. -/
theorem reverse?_eq_some {content : String} {edit : Edit}
    (covers : (landingPlace edits edit).slice? content = some edit.replacement) :
    reverse? edits content edit = some (undoing edits edit) := by
  rw [reverse?, replace?, covers]
  rfl

/-- The edits that undo those of a file are edits of the file. -/
theorem own_map_undoing (given : List Edit) (path : String) :
    own (given.map (undoing edits)) path = (own given path).map (undoing edits) := by
  unfold own
  rw [List.filter_map]
  rfl

/-- A name after edits: the replacement where its span is replaced. -/
def renamed (edits : List Edit) (name : String) (span : Span) : String :=
  (replacementAt edits span).getD name

/-- Among edits that are told apart by their spans the order does not matter for names. -/
theorem renamed_perm (perm : edits.Perm other) (solid : ∀ edit ∈ edits, edit.Solid)
    (distinct : (edits.map (·.span)).Nodup) : renamed edits = renamed other := by
  have replaced {given : List Edit} (solid : ∀ edit ∈ given, edit.Solid)
      (distinct : (given.map (·.span)).Nodup) {edit : Edit} (member : edit ∈ given) :
      replacementAt given edit.span = some edit.replacement := by
    cases found : replacementAt given edit.span with
    | none => exact absurd rfl (ne_of_replacementAt found member (solid edit member).1)
    | some text =>
      obtain ⟨one, member', same, rfl⟩ := exists_of_replacementAt found
      rw [List.inj_on_of_nodup_map distinct member' member same]
  have solid' : ∀ edit ∈ other, edit.Solid :=
    fun edit member => solid edit (perm.mem_iff.mpr member)
  have distinct' := ((perm.map (·.span)).nodup_iff).mp distinct
  funext name span
  unfold renamed
  cases found : replacementAt edits span with
  | some text =>
    obtain ⟨edit, member, rfl, rfl⟩ := exists_of_replacementAt found
    rw [replaced solid' distinct' (perm.mem_iff.mp member)]
  | none =>
    cases found' : replacementAt other span with
    | none => rfl
    | some text =>
      obtain ⟨edit, member, rfl, -⟩ := exists_of_replacementAt found'
      rw [replaced solid distinct (perm.mem_iff.mpr member)] at found
      cases found

end Edit

namespace SourceFile

open Edit (renamed remap)

/-- No two declarations of one kind that a file keeps by name have one name after the edits. -/
structure NamesStayApart (file : SourceFile) (edits : List Edit) : Prop where
  types : (file.types.values.map fun decl => renamed edits decl.name decl.nameSpan).Nodup
  functions : (file.functions.values.map fun decl => renamed edits decl.name decl.nameSpan).Nodup
  vars : (file.vars.values.map fun decl => renamed edits decl.name decl.nameSpan).Nodup
  consts : (file.consts.values.map fun decl => renamed edits decl.name decl.nameSpan).Nodup

instance (file : SourceFile) (edits : List Edit) : Decidable (file.NamesStayApart edits) :=
  decidable_of_iff (_ ∧ _ ∧ _ ∧ _)
    ⟨fun ⟨types, functions, vars, consts⟩ => ⟨types, functions, vars, consts⟩,
      fun ⟨types, functions, vars, consts⟩ => ⟨types, functions, vars, consts⟩⟩

/-- Declarations that are visited with their names are kept apart where their new names are. -/
theorem stayApart_remap {α : Type} {visit : α → Except Fault α} {name : α → String}
    {nameSpan : α → Span} {map : NameMap α} {edits : List Edit}
    (named : ∀ value seen, visit value = .ok seen →
      (remap edits).named (name value) (nameSpan value) = .ok (name seen, nameSpan seen))
    (distinct : (map.values.map fun value => renamed edits (name value) (nameSpan value)).Nodup) :
    StayApart visit name map := by
  intro images matched
  have names : images.map name =
      map.values.map fun value => renamed edits (name value) (nameSpan value) := by
    refine map_eq_map_of_forall₂ _ _ (fun value seen visited => ?_) matched
    have given := (SpanVisitor.named_eq_ok_iff.mp (named value seen visited)).1
    rw [Edit.remap_name] at given
    exact (Except.ok.inj given).symm
  rw [names]
  exact distinct

/-- Where names stay apart, declarations are kept apart. -/
theorem NamesStayApart.keptApart {file : SourceFile} {edits : List Edit}
    (apart : file.NamesStayApart edits) : file.KeptApart (remap edits) where
  types := stayApart_remap (fun _ _ seen => SpanVisitor.named_of_typeDecl seen) apart.types
  functions := stayApart_remap (fun _ _ seen => SpanVisitor.named_of_funcDecl seen) apart.functions
  vars := stayApart_remap (fun _ _ seen => SpanVisitor.named_of_valueDecl seen) apart.vars
  consts := stayApart_remap (fun _ _ seen => SpanVisitor.named_of_valueDecl seen) apart.consts

end SourceFile

namespace Module

/-- For each edit the one that puts back what it replaced, planned on the module after the edits. -/
def reverse? (edited : Module) (edits : List Edit) : Option (List Edit) :=
  edits.mapM fun edit => (edited.file? edit.file).bind fun file =>
    Edit.reverse? edits file.content edit

/-- A module and edits planned on it that can be undone. -/
structure Undoable (module : Module) (edits : List Edit) : Prop where
  /-- Paths tell the files apart. -/
  distinct : module.DistinctPaths
  /-- Declarations are kept under their names. -/
  keyed : ∀ file ∈ module.sourceFiles, file.Keyed
  /-- Spans are in order and inside their texts. -/
  upright : ∀ file ∈ module.sourceFiles, ∀ span ∈ file.spans,
    span.start ≤ span.stop ∧ span.stop ≤ file.content.utf8ByteSize
  /-- Names stand under their spans. -/
  addressed : ∀ file ∈ module.sourceFiles, ∀ entry ∈ file.names, file.text entry.2 = entry.1
  /-- Each edit is a replacement planned on the text of its file. -/
  planned : ∀ edit ∈ edits, ∃ file, module.file? edit.file = some file ∧
    Edit.replace? edit.file file.content edit.span edit.replacement = some edit
  /-- It puts text in place of text. -/
  solid : ∀ edit ∈ edits, edit.Solid
  /-- File and span tell the edits apart. -/
  apart : (edits.map fun edit => (edit.file, edit.span)).Nodup
  /-- No span of a file starts or ends strictly inside what an edit replaces. -/
  clear : ∀ file ∈ module.sourceFiles, ∀ span ∈ file.spans,
    Edit.Clear (Edit.own edits file.path) span.start ∧
      Edit.Clear (Edit.own edits file.path) span.stop
  /-- Declarations that are kept by name end up with different names. -/
  named : ∀ file ∈ module.sourceFiles, file.NamesStayApart (Edit.own edits file.path)

variable {module edited : Module} {edits : List Edit} {paths : List String} {file : SourceFile}

namespace Undoable

/-- The edits of a file in order are those that were given. -/
theorem perm_own (undoable : module.Undoable edits) (path : String) :
    (Edit.own (Edit.arrange edits) path).Perm (Edit.own edits path) :=
  (Edit.perm_arrange undoable.apart).filter _

/-- The edits of a file spare what has to be spared. -/
theorem sparing (undoable : module.Undoable edits) (member : file ∈ module.sourceFiles) :
    Edit.Sparing (Edit.own (Edit.arrange edits) file.path) file where
  solid edit listed := undoable.solid edit (Edit.mem_of_mem_arrange (List.mem_filter.mp listed).1)
  upright := undoable.upright file member
  clear span shown :=
    ⟨fun edit listed => (undoable.clear file member span shown).1 edit
        ((undoable.perm_own file.path).mem_iff.mp listed),
      fun edit listed => (undoable.clear file member span shown).2 edit
        ((undoable.perm_own file.path).mem_iff.mp listed)⟩
  addressed := undoable.addressed file member

/-- Each edit of a file covers what it is to replace there. -/
theorem slice?_eq (undoable : module.Undoable edits) (member : file ∈ module.sourceFiles)
    {edit : Edit} (listed : edit ∈ Edit.own (Edit.arrange edits) file.path) :
    edit.span.slice? file.content = some edit.replaced := by
  obtain ⟨inside, here⟩ := List.mem_filter.mp listed
  obtain ⟨found, held, planned⟩ := undoable.planned edit (Edit.mem_of_mem_arrange inside)
  rw [eq_of_beq here, file?_path undoable.distinct member] at held
  cases held
  obtain ⟨text, covers, same⟩ := Option.map_eq_some_iff.mp planned
  rw [covers, ← same]

/-- The declarations of a file are kept apart by its edits. -/
theorem keptApart (undoable : module.Undoable edits) (member : file ∈ module.sourceFiles) :
    file.KeptApart (Edit.remap (Edit.own (Edit.arrange edits) file.path)) := by
  have perm := undoable.perm_own file.path
  have sparing := undoable.sparing member
  have distinct : ((Edit.own (Edit.arrange edits) file.path).map (·.span)).Nodup := by
    have places : ((Edit.own (Edit.arrange edits) file.path).map
        fun edit => (edit.file, edit.span)).Nodup :=
      (((perm.map fun edit => (edit.file, edit.span)).nodup_iff).mpr
        (undoable.apart.sublist (List.Sublist.map _ List.filter_sublist)))
    refine List.pairwise_map.mpr ((List.pairwise_map.mp places).imp_of_mem
      fun {one other} listed listed' apart same => apart (Prod.ext ?_ same))
    have here := eq_of_beq (List.mem_filter.mp listed).2
    have here' := eq_of_beq (List.mem_filter.mp listed').2
    exact here.trans here'.symm
  have same := Edit.renamed_perm perm sparing.solid distinct
  obtain ⟨types, functions, vars, consts⟩ := undoable.named file member
  rw [← same] at types functions vars consts
  exact SourceFile.NamesStayApart.keptApart ⟨types, functions, vars, consts⟩

/-- **What the edits of a file make of it is undone.** -/
theorem returns (undoable : module.Undoable edits) (member : file ∈ module.sourceFiles)
    (cuts : ∀ edit ∈ Edit.own (Edit.arrange edits) file.path, edit.Cuts file.content)
    (apart : (Edit.own (Edit.arrange edits) file.path).Pairwise fun earlier later =>
      earlier.span.stop ≤ later.span.start) {moved : SourceFile}
    (applied : Edit.applyToFile (Edit.own (Edit.arrange edits) file.path) file = .ok moved)
    (small : file.content.utf8ByteSize < 2 ^ 63) (small' : moved.content.utf8ByteSize < 2 ^ 63) :
    Edit.Swaps 0 0 (Edit.own (Edit.arrange edits) file.path)
        ((Edit.own (Edit.arrange edits) file.path).map (Edit.undoing edits))
        file.content moved.content ∧
      Edit.applyToFile ((Edit.own (Edit.arrange edits) file.path).map (Edit.undoing edits)) moved =
        .ok file := by
  have sparing := undoable.sparing member
  have filled (edit : Edit) (listed : edit ∈ Edit.own (Edit.arrange edits) file.path) :=
    (sparing.solid edit listed).1
  obtain ⟨text, rewrites, spliced, -⟩ := Edit.exists_rewrites cuts apart
  have swaps : Edit.Swaps 0 0 (Edit.own (Edit.arrange edits) file.path)
      ((Edit.own (Edit.arrange edits) file.path).map (Edit.undoing edits)) file.content text := by
    refine rewrites.swaps filled String.utf8ByteSize_empty
      (List.forall₂_map_right_iff.mpr (List.forall₂_same.mpr fun edit listed => ⟨?_, ?_, rfl⟩))
    · rw [String.empty_append]
      exact undoable.slice?_eq member listed
    · -- No edit in front of it takes away more than there is.
      obtain ⟨clear, -⟩ := Edit.clear_of_apart filled apart edit listed
      obtain ⟨order, front, back, whole, start, length⟩ :=
        Span.slice?_eq_some_iff.mp (undoable.slice?_eq member listed)
      have bounds := rewrites.bounds (Nat.zero_le _) (by
        rw [whole, String.utf8ByteSize_append, String.utf8ByteSize_append]
        omega) clear
      have gains := Edit.gainBefore_perm (undoable.perm_own file.path) edit.span.start
      rw [← eq_of_beq (List.mem_filter.mp listed).2] at gains
      simp only [Edit.undoing, Edit.landingPlace, ← gains]
      rw [eq_of_beq (List.mem_filter.mp listed).2]
      omega
  have same : moved.content = text := (Edit.applyToFile_keeps applied).2.1.trans spliced
  rw [← same] at swaps
  exact ⟨swaps, sparing.applyToFile_back (undoable.keyed file member) (undoable.keptApart member)
    swaps small small' applied⟩

/-- Each edit is one of those of a file. -/
theorem exists_file (undoable : module.Undoable edits) {edit : Edit} (member : edit ∈ edits) :
    ∃ file ∈ module.sourceFiles, file.path = edit.file ∧
      edit ∈ Edit.own (Edit.arrange edits) file.path := by
  obtain ⟨file, held, -⟩ := undoable.planned edit member
  obtain ⟨inside, here⟩ := mem_of_file? held
  refine ⟨file, inside, here, List.mem_filter.mpr ⟨?_, beq_iff_eq.mpr here.symm⟩⟩
  exact (Edit.perm_arrange undoable.apart).mem_iff.mpr member

section Accepted

variable (undoable : module.Undoable edits)
  (applied : (module.applyEdits edits).run = .ok (.ok (edited, paths)))
  (small : ∀ file ∈ module.sourceFiles, file.content.utf8ByteSize < 2 ^ 63)
  (small' : ∀ file ∈ edited.sourceFiles, file.content.utf8ByteSize < 2 ^ 63)

include undoable applied small small'

/-- The edits make of a file one that the edits which undo them turn back. -/
theorem exists_returned (member : file ∈ module.sourceFiles)
    (given : Edit.own (Edit.arrange edits) file.path ≠ []) :
    ∃ image, edited.file? file.path = some image ∧
      Edit.Swaps 0 0 (Edit.own (Edit.arrange edits) file.path)
        ((Edit.own (Edit.arrange edits) file.path).map (Edit.undoing edits))
        file.content image.content ∧
      Edit.applyToFile ((Edit.own (Edit.arrange edits) file.path).map (Edit.undoing edits)) image =
        .ok file.flagged := by
  obtain ⟨image, held, -, turns⟩ := file?_of_applyEdits undoable.distinct applied member
  obtain ⟨moved, made, rfl⟩ := turns given
  obtain ⟨rfl, clear, fits, -⟩ := applyEdits_eq_ok.mp applied
  obtain ⟨cuts, apart⟩ := own_of_fits undoable.distinct clear fits member
  obtain ⟨swaps, back⟩ := undoable.returns member cuts apart made (small file member)
    (small' moved.flagged (mem_of_file? held).1)
  exact ⟨moved.flagged, held, swaps, Edit.applyToFile_flagged back⟩

/-- Where the replacement of an edit landed, it can be planned to put back what it replaced. -/
theorem exists_reversed {edit : Edit} (member : edit ∈ edits) :
    ∃ image, edited.file? edit.file = some image ∧
      Edit.reverse? edits image.content edit = some (Edit.undoing edits edit) := by
  obtain ⟨file, inside, here, listed⟩ := undoable.exists_file member
  obtain ⟨image, held, swaps, -⟩ := undoable.exists_returned applied small small' inside
    (List.ne_nil_of_mem listed)
  have landed := swaps.symm.matched (swaps.solid (undoable.sparing inside).solid)
    String.utf8ByteSize_empty
  rw [String.empty_append, List.forall₂_map_left_iff, List.forall₂_same] at landed
  exact ⟨image, here ▸ held, Edit.reverse?_eq_some (landed edit listed).1⟩

/-- The edits that undo others are apart. -/
theorem apart_undoing : Edit.Apart ((Edit.arrange edits).map (Edit.undoing edits)) := by
  refine Edit.apart_of_own fun path => ?_
  rw [Edit.own_map_undoing]
  by_cases none : Edit.own (Edit.arrange edits) path = []
  · rw [none]
    exact .nil
  · obtain ⟨edit, listed⟩ := List.exists_mem_of_ne_nil _ none
    obtain ⟨member, same⟩ := List.mem_filter.mp listed
    obtain ⟨file, inside, here, listed'⟩ := undoable.exists_file (Edit.mem_of_mem_arrange member)
    obtain ⟨image, -, swaps, -⟩ := undoable.exists_returned applied small small' inside
      (List.ne_nil_of_mem listed')
    rw [here, eq_of_beq same] at swaps
    exact swaps.symm.rewrites.apart

/-- In order, the edits that undo others stand as these do. -/
theorem arrange_undoing : Edit.arrange (edits.map (Edit.undoing edits)) =
    (Edit.arrange edits).map (Edit.undoing edits) := by
  refine (undoable.apart_undoing applied small small').arrange_eq ?_ (fun undo member => ?_)
    ((Edit.perm_arrange undoable.apart).symm.map _)
  · rw [List.map_map]
    exact Edit.files_arrange edits
  · obtain ⟨edit, listed, rfl⟩ := List.mem_map.mp member
    exact Nat.lt_add_of_pos_right
      (undoable.solid edit (Edit.mem_of_mem_arrange listed)).size_pos

/-- The edits that undo others are accepted. -/
theorem not_refuses_undoing :
    ¬edited.Refuses (Edit.arrange (edits.map (Edit.undoing edits))) := by
  have arranged := undoable.arrange_undoing applied small small'
  have fits : ∀ undo ∈ Edit.arrange (edits.map (Edit.undoing edits)), ∃ image,
      edited.file? undo.file = some image ∧ undo.conflict? image.content = none := by
    intro undo member
    obtain ⟨edit, member', rfl⟩ := List.mem_map.mp (Edit.mem_of_mem_arrange member)
    obtain ⟨image, held, reversed⟩ := undoable.exists_reversed applied small small' member'
    exact ⟨image, held, Edit.conflict?_of_replace? reversed⟩
  rintro (⟨undo, member, absent⟩ | ⟨undo, member, file, held, conflict, found⟩ |
    ⟨first, second, inOrder, same, overlap⟩)
  · obtain ⟨image, held, -⟩ := fits undo member
    rw [absent] at held
    cases held
  · obtain ⟨image, held', none⟩ := fits undo member
    rw [held] at held'
    cases held'
    rw [found] at none
    cases none
  · rw [arranged] at inOrder
    have ends := List.pairwise_iff_forall_sublist.mp
      (undoable.apart_undoing applied small small') inOrder same
    rw [Edit.not_overlaps_of_le ends] at overlap
    cases overlap

end Accepted

end Undoable

/-- **Edits can be undone.** The edits that put back what others replaced, each where its
replacement landed, can be planned on the texts after these. They are accepted, and give the module
again: every text, every span and name, and the names under which declarations are kept; only flags
and the revision differ. -/
theorem Undoable.undone (undoable : module.Undoable edits)
    (applied : (module.applyEdits edits).run = .ok (.ok (edited, paths)))
    (small : ∀ file ∈ module.sourceFiles, file.content.utf8ByteSize < 2 ^ 63)
    (small' : ∀ file ∈ edited.sourceFiles, file.content.utf8ByteSize < 2 ^ 63) :
    ∃ undo restored, edited.reverse? edits = some undo ∧
      (edited.applyEdits undo).run = .ok (.ok (restored, paths)) ∧
      restored.unflagged = module.unflagged := by
  have distinct := undoable.distinct
  have skeleton := skeleton_of_applyEdits applied
  have distinct' := distinct.of_skeleton skeleton
  have arranged := undoable.arrange_undoing applied small small'
  have own (path : String) : Edit.own (Edit.arrange (edits.map (Edit.undoing edits))) path =
      (Edit.own (Edit.arrange edits) path).map (Edit.undoing edits) := by
    rw [arranged, Edit.own_map_undoing]
  obtain ⟨restored, paths', applied'⟩ := exists_applyEdits distinct'
    (undoable.not_refuses_undoing applied small small') fun image inside given _ _ => by
      rw [own] at given ⊢
      -- The file was there before.
      have listed : image.path ∈ edited.sourceFiles.map SourceFile.path :=
        List.mem_map_of_mem inside
      rw [map_path_sourceFiles, skeleton, ← map_path_sourceFiles] at listed
      obtain ⟨file, member, here⟩ := List.mem_map.mp listed
      rw [← here] at given ⊢
      obtain ⟨found, held, -, back⟩ := undoable.exists_returned applied small small' member
        fun none => given (by rw [none, List.map_nil])
      rw [here, file?_path distinct' inside] at held
      cases held
      exact ⟨_, back⟩
  have same : paths' = paths := by
    rw [(applyEdits_eq_ok.mp applied').1, (applyEdits_eq_ok.mp applied).1, arranged, List.map_map]
    rfl
  subst same
  refine ⟨_, restored, mapM_eq_some_map fun edit member => ?_, applied',
    unflagged_eq_of_skeleton distinct ((skeleton_of_applyEdits applied').trans skeleton)
      fun file member => ?_⟩
  · obtain ⟨image, held, reversed⟩ := undoable.exists_reversed applied small small' member
    exact Option.bind_eq_some_iff.mpr ⟨image, held, reversed⟩
  · by_cases none : Edit.own (Edit.arrange edits) file.path = []
    · obtain ⟨image, held, keeps, -⟩ := file?_of_applyEdits distinct applied member
      obtain ⟨inside, here⟩ := mem_of_file? held
      obtain ⟨final, held', keeps', -⟩ := file?_of_applyEdits distinct' applied' inside
      rw [here] at held' keeps'
      rw [keeps none] at keeps'
      exact ⟨final, held', by rw [keeps' (by rw [own, none, List.map_nil])]⟩
    · obtain ⟨image, held, -, back⟩ := undoable.exists_returned applied small small' member none
      obtain ⟨inside, here⟩ := mem_of_file? held
      obtain ⟨final, held', -, turns⟩ := file?_of_applyEdits distinct' applied' inside
      rw [here] at held' turns
      rw [own] at turns
      obtain ⟨moved, made, rfl⟩ := turns fun given => none (List.map_eq_nil_iff.mp given)
      cases back.symm.trans made
      exact ⟨_, held', rfl⟩

/-- A longer name in both files, the later file first, and a longer value. -/
def maximumEdits : List Edit :=
  [⟨"q.go", ⟨23, 28⟩, "Maximum", "Limit", sha256 "Limit"⟩,
    ⟨"p.go", ⟨23, 24⟩, "100", "1", sha256 "1"⟩,
    ⟨"p.go", ⟨15, 20⟩, "Maximum", "Limit", sha256 "Limit"⟩]

/-- The names and the value are put back. -/
theorem undone_maximum :
    ∃ module edited paths undo restored, Module.ofSources "m" limitSources = .ok module ∧
      module.Undoable maximumEdits ∧
      (module.applyEdits maximumEdits).run = .ok (.ok (edited, paths)) ∧
      edited.reverse? maximumEdits = some undo ∧
      (edited.applyEdits undo).run = .ok (.ok (restored, paths)) ∧
      restored.unflagged = module.unflagged := by
  have evaluated : checkOk (Module.ofSources "m" limitSources) (fun module =>
      decide ((module.sourceFiles.map SourceFile.path).Nodup) &&
      decide (∀ file ∈ module.sourceFiles, file.content.utf8ByteSize < 2 ^ 63 ∧
        (∀ span ∈ file.spans, (span.start ≤ span.stop ∧ span.stop ≤ file.content.utf8ByteSize) ∧
          Edit.Clear (Edit.own maximumEdits file.path) span.start ∧
          Edit.Clear (Edit.own maximumEdits file.path) span.stop) ∧
        (∀ entry ∈ file.names, file.text entry.2 = entry.1) ∧
        file.NamesStayApart (Edit.own maximumEdits file.path)) &&
      decide (∀ edit ∈ maximumEdits, ((module.file? edit.file).bind fun file =>
        edit.span.slice? file.content) = some edit.replaced) &&
      checkOk (module.applyPlanned maximumEdits).run fun ending =>
        checkOk ending fun result =>
          decide (∀ file ∈ result.1.sourceFiles, file.content.utf8ByteSize < 2 ^ 63)) = true := by
    decide +kernel
  obtain ⟨module, loaded, checked⟩ := exists_of_checkOk evaluated
  obtain ⟨checked, after⟩ := Bool.and_eq_true_iff.mp checked
  obtain ⟨checked, planned⟩ := Bool.and_eq_true_iff.mp checked
  obtain ⟨distinct, checked⟩ := Bool.and_eq_true_iff.mp checked
  have distinct : (module.sourceFiles.map SourceFile.path).Nodup := of_decide_eq_true distinct
  have files := of_decide_eq_true checked
  have hashed : ∀ edit ∈ maximumEdits, edit.expected = sha256 edit.replaced :=
    List.forall_mem_cons.mpr ⟨rfl, List.forall_mem_cons.mpr ⟨rfl,
      List.forall_mem_singleton.mpr rfl⟩⟩
  have planned := planned_of_slices hashed (of_decide_eq_true planned)
  obtain ⟨ending, ran, ended⟩ := exists_of_checkOk after
  obtain ⟨⟨edited, paths⟩, rfl, small⟩ := exists_of_checkOk ended
  rw [← applyEdits_eq_applyPlanned planned] at ran
  have undoable : module.Undoable maximumEdits := {
    distinct
    keyed := fun file member => SourceFile.keyed_of_parse (scanned_of_ofSources loaded file member)
    upright := fun file member span shown => ((files file member).2.1 span shown).1
    addressed := fun file member => (files file member).2.2.1
    planned
    solid := by decide
    apart := by decide
    clear := fun file member span shown => ((files file member).2.1 span shown).2
    named := fun file member => (files file member).2.2.2 }
  obtain ⟨undo, restored, reversed, applied, same⟩ :=
    undoable.undone ran (fun file member => (files file member).1) (of_decide_eq_true small)
  exact ⟨module, edited, paths, undo, restored, loaded, undoable, ran, reversed, applied, same⟩

end Module

end GoRefactor
