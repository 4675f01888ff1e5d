import GoRefactor.Proofs.Go.Called
import GoRefactor.Proofs.Symbol.Build

/-!
# Declarations on their way to symbols

Whatever a file declares is a part of it that every visitor of the file meets. So what a visitor
has checked of the file holds of the declarations that are listed from it: their names stand where
they should, and their extents are spans.
-/

namespace GoRefactor

/-- Fields stand in front of their types, methods of an interface in front of their signatures. -/
def TypeShape.InOrder : TypeShape → Prop
  | .struct fields => ∀ field ∈ fields, field.embedded = false →
      field.nameSpan.start ≤ field.typeSpan.stop
  | .interface methods _ => ∀ method ∈ methods, method.nameSpan.start ≤ method.signatureSpan.stop
  | .other _ => True

/-- What is formed is in order. -/
theorem TypeShape.Formed.inOrder {shape : TypeShape} (formed : shape.Formed) : shape.InOrder := by
  cases shape with
  | struct fields => exact fun field member => (formed field member).order
  | interface methods embeds => exact formed
  | other underlying => trivial

namespace SpanVisitor

variable {visitor : SpanVisitor (Except Fault)}

/-- The visitor gets through spans only whose ends are in order. -/
def Upright (visitor : SpanVisitor (Except Fault)) : Prop :=
  ∀ {span image : Span}, visitor.span span = .ok image → span.start ≤ span.stop

/-- The span of a name that was seen is in order. -/
theorem Upright.of_sees (upright : visitor.Upright) {mention : Mention}
    (sees : visitor.Sees mention) : mention.2.start ≤ mention.2.stop := by
  obtain ⟨⟨name, span⟩, visited⟩ := sees
  exact upright (named_eq_ok_iff.mp visited).2

/-- A visitor that gets through parameters has seen their names. -/
theorem sees_paramName {params images : List Param} (visited : visitor.params params = .ok images) :
    ∀ param ∈ params, ∀ name nameSpan, param.name = some name → param.nameSpan = some nameSpan →
      visitor.Sees (name, nameSpan) := by
  induction params generalizing images with
  | nil => exact fun _ member => nomatch member
  | cons head rest ih =>
    obtain ⟨_, one, visited⟩ := bind_eq_ok.mp visited
    obtain ⟨_, others, -⟩ := bind_eq_ok.mp visited
    refine List.forall_mem_cons.mpr ⟨fun name nameSpan named stands => ?_, ih others⟩
    obtain ⟨given, givenSpan, typeSpan, typeNode⟩ := head
    simp only at named stands
    subst named stands
    obtain ⟨_, seen, -⟩ := bind_eq_ok.mp one
    obtain ⟨image, seen, -⟩ := bind_eq_ok.mp seen
    exact ⟨image, seen⟩

/-- A visitor that gets through a function has seen the names of its receiver, parameters and
results. -/
theorem sees_allParams {decl image : FuncDecl} (visited : visitor.funcDecl decl = .ok image) :
    ∀ param ∈ decl.allParams, ∀ name nameSpan, param.name = some name →
      param.nameSpan = some nameSpan → visitor.Sees (name, nameSpan) := by
  obtain ⟨_, -, visited⟩ := bind_eq_ok.mp visited
  obtain ⟨_, -, visited⟩ := bind_eq_ok.mp visited
  obtain ⟨_, received, visited⟩ := bind_eq_ok.mp visited
  obtain ⟨_, params, visited⟩ := bind_eq_ok.mp visited
  obtain ⟨_, results, -⟩ := bind_eq_ok.mp visited
  unfold FuncDecl.allParams
  refine List.forall_mem_append.mpr ⟨List.forall_mem_append.mpr ⟨?_, sees_paramName params⟩,
    sees_paramName results⟩
  cases given : decl.receiver with
  | none => exact fun _ member => nomatch member
  | some receiver =>
    rw [given] at received
    obtain ⟨image, one, -⟩ := map_eq_ok.mp received
    have alone : visitor.params [receiver] = .ok [image] := by
      rw [SpanVisitor.params, one]
      rfl
    exact sees_paramName alone

/-- A visitor that gets through a type has seen the names of its fields and methods. -/
theorem sees_members {decl image : TypeDecl} (visited : visitor.typeDecl decl = .ok image) :
    (∀ field ∈ decl.fields, visitor.Sees (field.name, field.nameSpan)) ∧
      ∀ method ∈ decl.interfaceMethods, visitor.Sees (method.name, method.nameSpan) := by
  obtain ⟨_, -, visited⟩ := bind_eq_ok.mp visited
  obtain ⟨_, -, visited⟩ := bind_eq_ok.mp visited
  obtain ⟨_, visited, -⟩ := bind_eq_ok.mp visited
  unfold TypeDecl.fields TypeDecl.interfaceMethods
  cases shape : decl.shape with
  | struct fields =>
    rw [shape] at visited
    obtain ⟨images, each, -⟩ := bind_eq_ok.mp visited
    refine ⟨fun field member => ?_, fun _ member => nomatch member⟩
    obtain ⟨_, -, one⟩ := exists_mem_of_forall₂ (mapM_eq_ok_iff.mp each).flip member
    obtain ⟨seen, named, -⟩ := bind_eq_ok.mp one
    exact ⟨seen, named⟩
  | interface methods embeds =>
    rw [shape] at visited
    obtain ⟨images, each, -⟩ := bind_eq_ok.mp visited
    refine ⟨fun _ member => (nomatch member), fun method member => ?_⟩
    obtain ⟨_, -, one⟩ := exists_mem_of_forall₂ (mapM_eq_ok_iff.mp each).flip member
    obtain ⟨seen, named, -⟩ := bind_eq_ok.mp one
    exact ⟨seen, named⟩
  | other underlying => exact ⟨fun _ member => (nomatch member), fun _ member => (nomatch member)⟩

end SpanVisitor

namespace Draft

/-- The name of the declaration was seen, an import apart, and its extent is a span. -/
structure SeenBy (file : SourceFile) (visitor : SpanVisitor (Except Fault)) (draft : Draft) :
    Prop where
  /-- The name was seen, or it is that of an import. -/
  name : visitor.Sees (draft.name, draft.nameSpan) ∨ ∃ decl ∈ file.imports, draft = ofImport decl
  /-- The extent is a span. -/
  extent : ∃ span, draft.extent = .ok span

variable {file : SourceFile} {visitor : SpanVisitor (Except Fault)} {package : Package}

/-- A function and its parameters. -/
theorem seenBy_of_mem_ofFunc (fixed : file.FixedBy visitor) (upright : visitor.Upright)
    {decl : FuncDecl} (held : decl ∈ file.functions.values ++ file.methods) :
    ∀ draft ∈ ofFunc package file decl, draft.SeenBy file visitor := by
  have visited := fixed.funcDecl held
  refine List.forall_mem_cons.mpr ⟨⟨Or.inl ?_, _, rfl⟩, fun draft member => ?_⟩
  · exact ⟨_, SpanVisitor.named_of_funcDecl visited⟩
  · obtain ⟨param, listed, made⟩ := List.mem_filterMap.mp member
    unfold ofParam? at made
    split at made
    · rename_i name nameSpan named stands
      have sees := SpanVisitor.sees_allParams visited param listed name nameSpan named stands
      split at made
      · cases made
      · cases made
        refine ⟨Or.inl sees, _, Span.between_of_le ?_⟩
        exact Nat.le_trans (upright.of_sees sees) (Nat.le_max_right _ _)
    · cases made

/-- A type and its members are seen by a visitor that keeps the file. -/
theorem seenBy_of_mem_ofType (fixed : file.FixedBy visitor) (upright : visitor.Upright)
    {decl : TypeDecl} (held : decl ∈ file.types.values) (inOrder : decl.shape.InOrder) :
    ∀ draft ∈ ofType package file decl, draft.SeenBy file visitor := by
  have visited := fixed.typeDecl held
  obtain ⟨fields, methods⟩ := SpanVisitor.sees_members visited
  unfold ofType
  refine List.forall_mem_append.mpr ⟨List.forall_mem_append.mpr ⟨List.forall_mem_cons.mpr
    ⟨⟨Or.inl ⟨_, SpanVisitor.named_of_typeDecl visited⟩, _, rfl⟩, ?_⟩, ?_⟩, ?_⟩
  · intro draft member
    obtain ⟨field, listed, rfl⟩ := List.mem_map.mp member
    obtain ⟨listed, proper⟩ := List.mem_filter.mp listed
    refine ⟨Or.inl (fields field listed), _, Span.between_of_le ?_⟩
    unfold TypeDecl.fields at listed
    split at listed
    · rename_i shape
      rw [shape] at inOrder
      exact inOrder field listed (by simpa using proper)
    · cases listed
  · intro draft member
    obtain ⟨method, listed, rfl⟩ := List.mem_map.mp member
    refine ⟨Or.inl (methods method listed), _, Span.between_of_le ?_⟩
    unfold TypeDecl.interfaceMethods at listed
    split at listed
    · rename_i shape
      rw [shape] at inOrder
      exact inOrder method listed
    · cases listed
  · intro draft member
    obtain ⟨method, listed, inside⟩ := List.mem_flatMap.mp member
    have methodHeld : method ∈ file.functions.values ++ file.methods :=
      List.mem_append_right _ (List.mem_filter.mp listed).1
    exact seenBy_of_mem_ofFunc fixed upright methodHeld draft inside

/-- The path of an import is a span. -/
theorem extent_ofImport (fixed : file.FixedBy visitor) (upright : visitor.Upright) {decl : Import}
    (held : decl ∈ file.imports) : ∃ span, (ofImport decl).extent = .ok span := by
  obtain ⟨pathSpan, visited, -⟩ := bind_eq_ok.mp (fixed.imports decl held)
  exact ⟨_, Span.between_of_le (Nat.le_trans (Nat.min_le_right _ _) (upright visited))⟩

/-- **Everything that a file declares has been seen.** -/
theorem seenBy_of_mem_ofFile (fixed : file.FixedBy visitor) (upright : visitor.Upright)
    (inOrder : ∀ decl ∈ file.types.values, decl.shape.InOrder) :
    ∀ draft ∈ ofFile package file, draft.SeenBy file visitor := by
  intro draft member
  simp only [ofFile, List.mem_append, List.mem_map, List.mem_flatMap, List.mem_filter, inTextOrder,
    mem_sortBy, or_assoc] at member
  rcases member with ⟨decl, ⟨held, -⟩, rfl⟩ | ⟨decl, held, inside⟩ | ⟨decl, ⟨held, -⟩, inside⟩ |
    ⟨decl, held, inside⟩ | ⟨decl, held, rfl⟩ | ⟨decl, held, rfl⟩
  · exact ⟨Or.inr ⟨decl, held, rfl⟩, extent_ofImport fixed upright held⟩
  · exact seenBy_of_mem_ofType fixed upright held (inOrder decl held) draft inside
  · exact seenBy_of_mem_ofFunc fixed upright (List.mem_append_right _ held) draft inside
  · exact seenBy_of_mem_ofFunc fixed upright (List.mem_append_left _ held) draft inside
  · refine ⟨Or.inl ⟨_, SpanVisitor.named_of_valueDecl (fixed.valueDecl ?_)⟩, _, rfl⟩
    exact List.mem_append_left _ (List.mem_append_left _ held)
  · refine ⟨Or.inl ⟨_, SpanVisitor.named_of_valueDecl (fixed.valueDecl ?_)⟩, _, rfl⟩
    exact List.mem_append_left _ (List.mem_append_right _ held)

/-- Everything that a package declares in one of its files has been seen. -/
theorem seenBy_of_mem_ofPackageFiles {options : IndexOptions} {entry : SourceFile × List Draft}
    (listed : entry ∈ ofPackageFiles options package) (fixed : entry.1.FixedBy visitor)
    (upright : visitor.Upright)
    (inOrder : ∀ decl ∈ entry.1.types.values, decl.shape.InOrder) :
    ∀ draft ∈ entry.2, draft.SeenBy entry.1 visitor := by
  unfold ofPackageFiles at listed
  split at listed
  · cases listed
  · rcases List.mem_cons.mp listed with rfl | listed
    · exact List.forall_mem_singleton.mpr ⟨Or.inl ⟨_, fixed.package⟩, _, rfl⟩
    · obtain ⟨file, -, rfl⟩ := List.mem_map.mp listed
      exact seenBy_of_mem_ofFile fixed upright inOrder

end Draft

end GoRefactor
