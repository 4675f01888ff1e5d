import GoRefactor.Proofs.Edit.Apply
import GoRefactor.Proofs.Go.Compose
import GoRefactor.Proofs.Go.Parser.Fixed
import GoRefactor.Proofs.NameMap

/-!
# Files before and after edits

What edits make of a file, said without the walk: every declaration is visited, and those that are
kept by name are put under their new names. Edits whose visitor undoes that of others undo the
others, as far as declarations that had different names still have different ones in between.
-/

namespace GoRefactor

namespace SourceFile

/-- Declarations that are kept by name are kept under their own. -/
structure Keyed (file : SourceFile) : Prop where
  types : file.types.Keyed TypeDecl.name
  functions : file.functions.Keyed FuncDecl.name
  vars : file.vars.Keyed ValueDecl.name
  consts : file.consts.Keyed ValueDecl.name

/-- Adding a declaration puts it under its name. -/
theorem Keyed.add {file : SourceFile} (keyed : file.Keyed) (decl : TopDecl) :
    (file.add decl).Keyed := by
  obtain ⟨types, functions, vars, consts⟩ := keyed
  cases decl with
  | importing => exact ⟨types, functions, vars, consts⟩
  | type decl => exact ⟨NameMap.keyed_insert types decl, functions, vars, consts⟩
  | function decl =>
    rw [SourceFile.add]
    split
    · exact ⟨types, functions, vars, consts⟩
    · exact ⟨types, NameMap.keyed_insert functions decl, vars, consts⟩
  | var decl =>
    rw [SourceFile.add]
    split
    · exact ⟨types, functions, vars, consts⟩
    · exact ⟨types, functions, NameMap.keyed_insert vars decl, consts⟩
  | const decl =>
    rw [SourceFile.add]
    split
    · exact ⟨types, functions, vars, consts⟩
    · exact ⟨types, functions, vars, NameMap.keyed_insert consts decl⟩

/-- Additions keep declarations under their names. -/
theorem Keyed.foldl_add {file : SourceFile} (keyed : file.Keyed) (decls : List TopDecl) :
    (decls.foldl SourceFile.add file).Keyed := by
  induction decls generalizing file with
  | nil => exact keyed
  | cons decl rest ih => exact ih (keyed.add decl)

/-- Nothing is kept under a wrong name in a file without declarations. -/
theorem keyed_blank (path content name : String) (span : Span) : Keyed { blank path content with
    packageName := name
    packageSpan := span } := by
  refine ⟨?_, ?_, ?_, ?_⟩ <;> exact fun _ member => nomatch member

/-- What is scanned is kept under its name. -/
theorem keyed_of_parse {path content : String} {file : SourceFile}
    (parsed : SourceFile.parse path content = .ok file) : file.Keyed := by
  unfold SourceFile.parse at parsed
  split at parsed
  · cases parsed
  · split at parsed
    · cases parsed
    · split at parsed
      · cases parsed
      · cases parsed
        exact (keyed_blank _ _ _ _).foldl_add _

/-- The map that is made from visited values, put under their new names. -/
def MapVisited {α : Type} (visit : α → Except Fault α) (name : α → String)
    (map image : NameMap α) : Prop :=
  ∃ values, List.Forall₂ (fun value visited => visit value = .ok visited) map.values values ∧
    image = NameMap.fileBy name values

/-- What a visitor makes of the declarations of a file. -/
structure VisitedTo (visitor : SpanVisitor (Except Fault)) (file image : SourceFile) : Prop where
  package : visitor.named file.packageName file.packageSpan =
    .ok (image.packageName, image.packageSpan)
  imports : List.Forall₂ (fun decl visited => visitor.importDecl decl = .ok visited)
    file.imports image.imports
  types : MapVisited visitor.typeDecl TypeDecl.name file.types image.types
  functions : MapVisited visitor.funcDecl FuncDecl.name file.functions image.functions
  methods : List.Forall₂ (fun decl visited => visitor.funcDecl decl = .ok visited)
    file.methods image.methods
  vars : MapVisited visitor.valueDecl ValueDecl.name file.vars image.vars
  consts : MapVisited visitor.valueDecl ValueDecl.name file.consts image.consts
  blanks : List.Forall₂ (fun decl visited => visitor.valueDecl decl = .ok visited)
    file.blanks image.blanks

/-- Members of a list that are visited back are the former ones. -/
theorem forall₂_back {α : Type} {visit back : α → Except Fault α} {values images : List α}
    (matched : List.Forall₂ (fun value seen => visit value = .ok seen) values images)
    (returns : ∀ value ∈ values, ∀ seen, visit value = .ok seen → back seen = .ok value) :
    List.Forall₂ (fun seen value => back seen = .ok value) images values := by
  have both := (List.forall₂_and_left _ _).mpr ⟨fun value member => member, matched⟩
  exact (both.imp fun value seen given => returns value given.1 seen given.2).flip

section Maps

variable {α : Type} {visit : α → Except Fault α} {name : α → String} {map image : NameMap α}

/-- A map is visited and put under new names exactly when its values are visited. -/
theorem mapVisited_iff :
    (∃ moved, SpanVisitor.nameMap visit map = .ok moved ∧ image = moved.rekey name) ↔
      MapVisited visit name map image := by
  unfold SpanVisitor.nameMap MapVisited
  constructor
  · rintro ⟨moved, visited, rfl⟩
    obtain ⟨values, each, given⟩ := bind_eq_ok.mp visited
    cases given
    have matched := mapM_eq_ok_iff.mp each
    refine ⟨values, matched, ?_⟩
    rw [NameMap.rekey_eq_fileBy, NameMap.values_withValues matched.length_eq]
  · rintro ⟨values, matched, rfl⟩
    refine ⟨map.withValues values, bind_eq_ok.mpr ⟨values, mapM_eq_ok_iff.mpr matched, rfl⟩, ?_⟩
    rw [NameMap.rekey_eq_fileBy, NameMap.values_withValues matched.length_eq]

/-- Every value of the new map was visited. -/
theorem MapVisited.origin (visited : MapVisited visit name map image) {value : α}
    (member : value ∈ image.values) : ∃ before ∈ map.values, visit before = .ok value := by
  obtain ⟨values, matched, rfl⟩ := visited
  exact exists_mem_of_forall₂ matched (NameMap.mem_of_mem_values_fileBy member)

end Maps

/-- What a visited file declares is kept under its name. -/
theorem VisitedTo.keyed {visitor : SpanVisitor (Except Fault)} {file image : SourceFile}
    (visited : file.VisitedTo visitor image) : image.Keyed := by
  have filed {α : Type} {visit : α → Except Fault α} {name : α → String} {map image : NameMap α}
      (visited : MapVisited visit name map image) : image.Keyed name := by
    obtain ⟨values, -, rfl⟩ := visited
    exact NameMap.keyed_fileBy values
  exact ⟨filed visited.types, filed visited.functions, filed visited.vars, filed visited.consts⟩

end SourceFile

/-- The edits of a file give what their visitor makes of it, around the spliced text. -/
theorem Edit.applyToFile_eq_ok {edits : List Edit} {file image : SourceFile} :
    applyToFile edits file = .ok image ↔
      file.VisitedTo (remap edits) image ∧ image.path = file.path ∧
        image.content = spliceAll edits file.content ∧ image.isTest = file.isTest ∧
        image.modified = file.modified := by
  constructor
  · intro applied
    refine ⟨?_, applyToFile_keeps applied⟩
    unfold applyToFile SpanVisitor.file at applied
    obtain ⟨moved, walked, given⟩ := bind_eq_ok.mp applied
    cases given
    obtain ⟨⟨packageName, packageSpan⟩, package, walked⟩ := bind_eq_ok.mp walked
    obtain ⟨imports, imported, walked⟩ := bind_eq_ok.mp walked
    obtain ⟨types, typed, walked⟩ := bind_eq_ok.mp walked
    obtain ⟨functions, called, walked⟩ := bind_eq_ok.mp walked
    obtain ⟨methods, attached, walked⟩ := bind_eq_ok.mp walked
    obtain ⟨vars, varied, walked⟩ := bind_eq_ok.mp walked
    obtain ⟨consts, constant, walked⟩ := bind_eq_ok.mp walked
    obtain ⟨blanks, unnamed, walked⟩ := bind_eq_ok.mp walked
    cases walked
    exact ⟨package, mapM_eq_ok_iff.mp imported, SourceFile.mapVisited_iff.mp ⟨types, typed, rfl⟩,
      SourceFile.mapVisited_iff.mp ⟨functions, called, rfl⟩, mapM_eq_ok_iff.mp attached,
      SourceFile.mapVisited_iff.mp ⟨vars, varied, rfl⟩,
      SourceFile.mapVisited_iff.mp ⟨consts, constant, rfl⟩, mapM_eq_ok_iff.mp unnamed⟩
  · rintro ⟨visited, path, content, isTest, modified⟩
    obtain ⟨types, typed, sameTypes⟩ := SourceFile.mapVisited_iff.mpr visited.types
    obtain ⟨functions, called, sameFunctions⟩ := SourceFile.mapVisited_iff.mpr visited.functions
    obtain ⟨vars, varied, sameVars⟩ := SourceFile.mapVisited_iff.mpr visited.vars
    obtain ⟨consts, constant, sameConsts⟩ := SourceFile.mapVisited_iff.mpr visited.consts
    unfold applyToFile SpanVisitor.file
    simp only [visited.package, mapM_eq_ok_iff.mpr visited.imports, typed, called,
      mapM_eq_ok_iff.mpr visited.methods, varied, constant, mapM_eq_ok_iff.mpr visited.blanks,
      bind_ok]
    cases image
    simp only at path content isTest modified sameTypes sameFunctions sameVars sameConsts
    subst path content isTest modified sameTypes sameFunctions sameVars sameConsts
    rfl

namespace SpanVisitor

variable {visitor : SpanVisitor (Except Fault)}

/-- A type is visited with its name. -/
theorem named_of_typeDecl {decl decl' : TypeDecl} (visited : visitor.typeDecl decl = .ok decl') :
    visitor.named decl.name decl.nameSpan = .ok (decl'.name, decl'.nameSpan) := by
  obtain ⟨⟨name, nameSpan⟩, named, visited⟩ := bind_eq_ok.mp visited
  obtain ⟨extent, -, visited⟩ := bind_eq_ok.mp visited
  obtain ⟨shape, -, visited⟩ := bind_eq_ok.mp visited
  cases visited
  exact named

/-- A function is visited with its name. -/
theorem named_of_funcDecl {decl decl' : FuncDecl} (visited : visitor.funcDecl decl = .ok decl') :
    visitor.named decl.name decl.nameSpan = .ok (decl'.name, decl'.nameSpan) := by
  obtain ⟨⟨name, nameSpan⟩, named, visited⟩ := bind_eq_ok.mp visited
  obtain ⟨extent, -, visited⟩ := bind_eq_ok.mp visited
  obtain ⟨receiver, -, visited⟩ := bind_eq_ok.mp visited
  obtain ⟨params, -, visited⟩ := bind_eq_ok.mp visited
  obtain ⟨results, -, visited⟩ := bind_eq_ok.mp visited
  obtain ⟨signatureSpan, -, visited⟩ := bind_eq_ok.mp visited
  obtain ⟨body, -, visited⟩ := bind_eq_ok.mp visited
  cases visited
  exact named

/-- A variable or constant is visited with its name. -/
theorem named_of_valueDecl {decl decl' : ValueDecl}
    (visited : visitor.valueDecl decl = .ok decl') :
    visitor.named decl.name decl.nameSpan = .ok (decl'.name, decl'.nameSpan) := by
  obtain ⟨⟨name, nameSpan⟩, named, visited⟩ := bind_eq_ok.mp visited
  obtain ⟨extent, -, visited⟩ := bind_eq_ok.mp visited
  obtain ⟨typeSpan, -, visited⟩ := bind_eq_ok.mp visited
  obtain ⟨typeNode, -, visited⟩ := bind_eq_ok.mp visited
  obtain ⟨value, -, visited⟩ := bind_eq_ok.mp visited
  cases visited
  exact named

end SpanVisitor

namespace SourceFile

variable {file image : SourceFile} {first second : SpanVisitor (Except Fault)}

/-- The values of a map have different names after a visit. -/
def StayApart {α : Type} (visit : α → Except Fault α) (name : α → String) (map : NameMap α) :
    Prop :=
  ∀ images, List.Forall₂ (fun value seen => visit value = .ok seen) map.values images →
    (images.map name).Nodup

/-- A map is visited back if its values are and had different names in between. -/
theorem MapVisited.back {α : Type} {visit back : α → Except Fault α} {name : α → String}
    {map image : NameMap α} (visited : MapVisited visit name map image) (keyed : map.Keyed name)
    (returns : ∀ value ∈ map.values, ∀ seen, visit value = .ok seen → back seen = .ok value)
    (apart : StayApart visit name map) : MapVisited back name image map := by
  obtain ⟨images, matched, rfl⟩ := visited
  obtain ⟨values, turned, same⟩ := NameMap.visit_back keyed matched returns (apart images matched)
  exact ⟨values, turned, same.symm⟩

/-- Declarations of a file that are kept by name have different names after a visit. -/
structure KeptApart (file : SourceFile) (visitor : SpanVisitor (Except Fault)) : Prop where
  types : StayApart visitor.typeDecl TypeDecl.name file.types
  functions : StayApart visitor.funcDecl FuncDecl.name file.functions
  vars : StayApart visitor.valueDecl ValueDecl.name file.vars
  consts : StayApart visitor.valueDecl ValueDecl.name file.consts

/-- **There and back.** A visitor that keeps the declarations apart, and which a second one undoes,
is undone for the whole file. -/
theorem VisitedTo.back (visited : file.VisitedTo first image)
    (fixed : file.FixedBy (first.andThen second)) (keyed : file.Keyed)
    (apart : file.KeptApart first) : image.VisitedTo second file where
  package := by rw [← SpanVisitor.named_andThen visited.package, fixed.package]
  imports := forall₂_back visited.imports fun decl member _ seen => by
    rw [← (SpanVisitor.tours_importDecl decl).andThen seen, fixed.imports decl member]
  types := visited.types.back keyed.types
    (fun decl member _ seen => by
      rw [← (SpanVisitor.tours_typeDecl decl).andThen seen, fixed.typeDecl member])
    apart.types
  functions := visited.functions.back keyed.functions
    (fun decl member _ seen => by
      rw [← (SpanVisitor.tours_funcDecl decl).andThen seen,
        fixed.funcDecl (List.mem_append_left _ member)])
    apart.functions
  methods := forall₂_back visited.methods fun decl member _ seen => by
    rw [← (SpanVisitor.tours_funcDecl decl).andThen seen,
      fixed.funcDecl (List.mem_append_right _ member)]
  vars := visited.vars.back keyed.vars
    (fun decl member _ seen => by
      rw [← (SpanVisitor.tours_valueDecl decl).andThen seen,
        fixed.valueDecl (List.mem_append_left _ (List.mem_append_left _ member))])
    apart.vars
  consts := visited.consts.back keyed.consts
    (fun decl member _ seen => by
      rw [← (SpanVisitor.tours_valueDecl decl).andThen seen,
        fixed.valueDecl (List.mem_append_left _ (List.mem_append_right _ member))])
    apart.consts
  blanks := forall₂_back visited.blanks fun decl member _ seen => by
    rw [← (SpanVisitor.tours_valueDecl decl).andThen seen,
      fixed.valueDecl (List.mem_append_right _ member)]

end SourceFile

end GoRefactor
