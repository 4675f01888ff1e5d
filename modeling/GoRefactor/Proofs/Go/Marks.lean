import GoRefactor.Proofs.Go.Compose
import GoRefactor.Proofs.Go.Parser.Fixed

/-!
# Marks of a text

What is known of a text without looking at its characters: the offsets at which spans of
declarations may start and stop, and the names that stand at spans. A file keeps to the marks of
its text if it passes the test for them. Whatever moves offsets and exchanges names so that marks
go to marks leaves a file that keeps to the marks of the new text.
-/

namespace GoRefactor

/-- Offsets and names that are marked in a text. -/
structure Marks where
  /-- Spans may start and stop at the offset. -/
  Placed : Nat → Prop
  /-- The name stands at the span. -/
  Named : String → Span → Prop

namespace Marks

variable {marks marks' : Marks}

/-- The span lies between marked offsets. -/
def Spans (marks : Marks) (span : Span) : Prop :=
  marks.Placed span.start ∧ marks.Placed span.stop ∧ span.start ≤ span.stop

open Classical in
/-- Change nothing, and fail at spans and names that are not marked. -/
noncomputable def guard (marks : Marks) : SpanVisitor (Except Fault) where
  span span := if marks.Spans span then .ok span else .error ⟨span.start, span.stop⟩
  name name span := if marks.Named name span then .ok name else .error ⟨span.start, span.stop⟩

/-- A span passes exactly if it is between marks, and stays as it is. -/
theorem guard_span_iff {span image : Span} :
    marks.guard.span span = .ok image ↔ marks.Spans span ∧ span = image := by
  by_cases spans : marks.Spans span <;> simp [guard, spans]

/-- A name passes exactly if a mark has it, and stays as it is. -/
theorem guard_name_iff {name image : String} {span : Span} :
    marks.guard.name name span = .ok image ↔ marks.Named name span ∧ name = image := by
  by_cases named : marks.Named name span <;> simp [guard, named]

/-- A name passes with its span exactly if both pass, and both stay as they are. -/
theorem guard_named_iff {name : String} {span : Span} {image : String × Span} :
    marks.guard.named name span = .ok image ↔
      marks.Named name span ∧ marks.Spans span ∧ (name, span) = image := by
  obtain ⟨name', span'⟩ := image
  rw [SpanVisitor.named_eq_ok_iff, guard_name_iff, guard_span_iff, Prod.mk.injEq]
  exact ⟨fun ⟨⟨named, same⟩, spans, same'⟩ => ⟨named, spans, same, same'⟩,
    fun ⟨named, spans, same, same'⟩ => ⟨⟨named, same⟩, spans, same'⟩⟩

/-- The guard gives every span and name that it passes back as it was. -/
theorem isTest_guard (marks : Marks) : marks.guard.IsTest :=
  ⟨fun passed => (guard_span_iff.mp passed).2.symm, fun passed => (guard_name_iff.mp passed).2.symm⟩

end Marks

namespace SpanVisitor

/-- Move both ends of every span, and exchange names. -/
def moving (move : Nat → Nat) (rename : String → Span → String) : SpanVisitor Id where
  span span := ⟨move span.start, move span.stop⟩
  name name span := rename name span

/-- A list is visited member by member. -/
theorem mem_mapM_id {α : Type} {visit : α → Id α} {values : List α} {image : α}
    (member : image ∈ (values.mapM visit).run) : ∃ value ∈ values, (visit value).run = image := by
  rw [List.idRun_mapM] at member
  exact List.mem_map.mp member

/-- A map is visited value by value. -/
theorem values_nameMap_id {α : Type} (visit : α → Id α) (map : NameMap α) :
    (nameMap visit map).run.values = map.values.map fun value => (visit value).run := by
  change (map.withValues (map.values.mapM visit).run).values = _
  rw [List.idRun_mapM, NameMap.values_withValues (List.length_map _).symm]

/-- What is put under its new name was visited. -/
theorem mem_values_nameMap_rekey {α : Type} {visit : α → Id α} {name : α → String}
    {map : NameMap α} {image : α}
    (member : image ∈ ((nameMap visit map).run.rekey name).values) :
    ∃ value ∈ map.values, (visit value).run = image := by
  have filed := NameMap.mem_of_mem_values_fileBy member
  rw [values_nameMap_id] at filed
  exact List.mem_map.mp filed

/-- A walk over a declaration at top level exchanges what the declaration stores. -/
theorem exchanges_topDecl : ∀ decl : TopDecl,
    Exchanges (fun decl _ _ visitor => visitor.topDecl decl) (fun _ _ => True) decl
  | .importing decl => (tours_importDecl decl).map TopDecl.importing (fun _ _ _ _ _ _ _ => rfl)
    fun _ _ _ => trivial
  | .type decl => (tours_typeDecl decl).map TopDecl.type (fun _ _ _ _ _ _ _ => rfl)
    fun _ _ _ => trivial
  | .function decl => (tours_funcDecl decl).map TopDecl.function (fun _ _ _ _ _ _ _ => rfl)
    fun _ _ _ => trivial
  | .var decl => (tours_valueDecl decl).map TopDecl.var (fun _ _ _ _ _ _ _ => rfl)
    fun _ _ _ => trivial
  | .const decl => (tours_valueDecl decl).map TopDecl.const (fun _ _ _ _ _ _ _ => rfl)
    fun _ _ _ => trivial

end SpanVisitor

namespace SourceFile

/-- The declarations of a file are visited one by one. -/
theorem decls_visit (visitor : SpanVisitor Id) (file : SourceFile) :
    SourceFile.decls (visitor.file file) = file.decls.map visitor.topDecl := by
  change (SpanVisitor.nameMap visitor.typeDecl file.types).run.values.map TopDecl.type ++
    ((SpanVisitor.nameMap visitor.funcDecl file.functions).run.values ++
      (file.methods.mapM visitor.funcDecl).run).map TopDecl.function ++
    ((SpanVisitor.nameMap visitor.valueDecl file.vars).run.values ++
      (SpanVisitor.nameMap visitor.valueDecl file.consts).run.values ++
      (file.blanks.mapM visitor.valueDecl).run).map TopDecl.var = _
  simp only [SpanVisitor.values_nameMap_id, List.idRun_mapM, decls, List.map_append, List.map_map]
  rfl

/-- Under new names a file has no other declarations. -/
theorem mem_decls_rekey {file : SourceFile} {decl : TopDecl} (member : decl ∈ file.rekey.decls) :
    decl ∈ file.decls := by
  have filed {α : Type} {name : α → String} {map : NameMap α} {value : α}
      (held : value ∈ (map.rekey name).values) : value ∈ map.values :=
    NameMap.mem_of_mem_values_fileBy held
  simp only [decls, List.mem_append, List.mem_map] at member ⊢
  rcases member with (⟨type, held, rfl⟩ | ⟨function, keyed | listed, rfl⟩) |
    ⟨value, (var | const) | blank, rfl⟩
  · exact Or.inl (Or.inl ⟨type, filed held, rfl⟩)
  · exact Or.inl (Or.inr ⟨function, Or.inl (filed keyed), rfl⟩)
  · exact Or.inl (Or.inr ⟨function, Or.inr listed, rfl⟩)
  · exact Or.inr ⟨value, Or.inl (Or.inl (filed var)), rfl⟩
  · exact Or.inr ⟨value, Or.inl (Or.inr (filed const)), rfl⟩
  · exact Or.inr ⟨value, Or.inr blank, rfl⟩

/-- Names and places stay together where declarations are put under their new names. -/
theorem Paired.visit {file : SourceFile} (paired : file.Paired) (visitor : SpanVisitor Id) :
    (SourceFile.rekey (visitor.file file)).Paired :=
  ⟨(paired.walk visitor).imports, fun decl member =>
    (paired.walk visitor).decls decl (mem_decls_rekey member)⟩

end SourceFile

namespace SourceFile.FixedBy

variable {file : SourceFile} {first : SpanVisitor (Except Fault)}

/-- A visitor that leaves all declarations of a file alone leaves the file alone. -/
theorem visited (fixed : file.FixedBy first) : first.file file = .ok file := by
  have lists {α : Type} {visit : α → Except Fault α} {values : List α}
      (same : ∀ value ∈ values, visit value = .ok value) : values.mapM visit = .ok values :=
    mapM_eq_ok_iff.mpr (List.forall₂_same.mpr same)
  have maps {α : Type} {visit : α → Except Fault α} {map : NameMap α}
      (same : ∀ value ∈ map.values, visit value = .ok value) :
      SpanVisitor.nameMap visit map = .ok map := by
    rw [SpanVisitor.nameMap, lists same, bind_ok, NameMap.withValues_values]
    rfl
  rw [SpanVisitor.file, fixed.package, lists fixed.imports, maps fun _ => fixed.typeDecl,
    maps fun _ member => fixed.funcDecl (List.mem_append_left _ member),
    lists fun _ member => fixed.funcDecl (List.mem_append_right _ member),
    maps fun _ member => fixed.valueDecl (List.mem_append_left _ (List.mem_append_left _ member)),
    maps fun _ member => fixed.valueDecl (List.mem_append_left _ (List.mem_append_right _ member)),
    lists fun _ member => fixed.valueDecl (List.mem_append_right _ member)]
  rfl

/-- Behind a test that leaves a file alone, the file is visited as without it. -/
theorem file_andThen (fixed : file.FixedBy first) (second : SpanVisitor (Except Fault)) :
    (first.andThen second).file file = second.file file :=
  (SpanVisitor.tours_file file).andThen fixed.visited

end SourceFile.FixedBy

namespace Marks

/-- A visitor that moves whatever is marked moves a file that keeps to the marks. -/
theorem file_eq {marks : Marks} {move : Nat → Nat} {rename : String → Span → String}
    {visitor : SpanVisitor (Except Fault)} {file : SourceFile} (fixed : file.FixedBy marks.guard)
    (spans : ∀ span, marks.Spans span →
      visitor.span span = .ok ⟨move span.start, move span.stop⟩)
    (names : ∀ name span, marks.Named name span → marks.Spans span →
      visitor.name name span = .ok (rename name span)) :
    visitor.file file = .ok ((SpanVisitor.moving move rename).file file) := by
  have same : marks.guard.andThen visitor =
      marks.guard.andThen (SpanVisitor.moving move rename).sure := by
    refine marks.isTest_guard.andThen_congr (fun span passed => ?_) fun name span known passed => ?_
    · exact spans span (guard_span_iff.mp passed).1
    · exact names name span (guard_name_iff.mp known).1 (guard_span_iff.mp passed).1
  rw [← fixed.file_andThen visitor, same, fixed.file_andThen]
  exact (SpanVisitor.tours_file file).sure _

/-- Offsets move and names change so that marks go to marks, and marked offsets stay in order. -/
structure Carries (marks marks' : Marks) (move : Nat → Nat) (rename : String → Span → String) :
    Prop where
  /-- Marked offsets go to marked offsets. -/
  placed : ∀ offset, marks.Placed offset → marks'.Placed (move offset)
  /-- They stay in order. -/
  mono : ∀ offset offset', marks.Placed offset → marks.Placed offset' → offset ≤ offset' →
    move offset ≤ move offset'
  /-- Names go to names. -/
  named : ∀ name span, marks.Named name span → marks.Spans span →
    marks'.Named (rename name span) ⟨move span.start, move span.stop⟩

namespace Carries

variable {marks marks' : Marks} {move : Nat → Nat} {rename : String → Span → String}
  (carries : marks.Carries marks' move rename)

include carries

/-- A span between two marks is carried to a span between two marks. -/
theorem spans {span : Span} (spans : marks.Spans span) :
    marks'.Spans ⟨move span.start, move span.stop⟩ :=
  ⟨carries.placed _ spans.1, carries.placed _ spans.2.1,
    carries.mono _ _ spans.1 spans.2.1 spans.2.2⟩

/-- Behind the test of the marks, what is moved passes the test of the marks it goes to. -/
theorem guarded :
    marks.guard.andThen ((SpanVisitor.moving move rename).sure.andThen marks'.guard) =
      marks.guard.andThen (SpanVisitor.moving move rename).sure := by
  refine marks.isTest_guard.andThen_congr (fun span passed => ?_) fun name span known passed => ?_
  · exact guard_span_iff.mpr ⟨carries.spans (guard_span_iff.mp passed).1, rfl⟩
  · exact guard_name_iff.mpr
      ⟨carries.named name span (guard_name_iff.mp known).1 (guard_span_iff.mp passed).1, rfl⟩

/-- What passes the test passes the other one where it is moved to. -/
theorem walk {α : Type} {walk : α → SpanWalk α} {good : List Offer → α → Prop} {given : α}
    (exchanges : Exchanges walk good given) (passed : walk given _ marks.guard = .ok given) :
    walk (walk given Id (SpanVisitor.moving move rename)) _ marks'.guard =
      .ok (walk given Id (SpanVisitor.moving move rename)) := by
  have moved := exchanges.sure (SpanVisitor.moving move rename)
  rw [← exchanges.andThen moved, ← exchanges.andThen passed, carries.guarded,
    exchanges.andThen passed, moved]

/-- A declaration that passes the test passes the other one where it is moved to. -/
theorem topDecl {decl : TopDecl} (passed : marks.guard.topDecl decl = .ok decl) :
    marks'.guard.topDecl ((SpanVisitor.moving move rename).topDecl decl) =
      .ok ((SpanVisitor.moving move rename).topDecl decl) :=
  carries.walk (SpanVisitor.exchanges_topDecl decl) passed

/-- **A file that keeps to the marks of one text, moved, keeps to those of the other.** -/
theorem fixedBy {file : SourceFile} (fixed : file.FixedBy marks.guard) :
    ((SpanVisitor.moving move rename).file file).rekey.FixedBy marks'.guard := by
  refine ⟨?_, fun decl member => ?_, fun decl member => ?_⟩
  · obtain ⟨named, spans, -⟩ := guard_named_iff.mp fixed.package
    exact guard_named_iff.mpr ⟨carries.named _ _ named spans, carries.spans spans, rfl⟩
  · obtain ⟨before, held, rfl⟩ := SpanVisitor.mem_mapM_id member
    exact carries.walk (SpanVisitor.tours_importDecl before) (fixed.imports before held)
  · have visited := SourceFile.mem_decls_rekey member
    rw [SourceFile.decls_visit] at visited
    obtain ⟨before, held, rfl⟩ := List.mem_map.mp visited
    exact carries.topDecl (fixed.decls before held)

end Carries

end Marks

end GoRefactor
