import GoRefactor.Proofs.Module.Sources
import GoRefactor.Proofs.Symbol.Comparison
import GoRefactor.Proofs.Symbol.Drafts

/-!
# Names and where they are declared

In a module whose files were read from their tokens, whatever a walk finds under a name stands at
that name: a declaration of a package, a field or method, promoted or not, an import, a parameter.
An embedded field has the name of its type, so what is found under its name is the type.
-/

namespace GoRefactor

namespace Module

/-- Every file was read from its tokens. -/
def AllRead (module : Module) : Prop :=
  ∀ file ∈ module.sourceFiles, ∃ stream, file.ReadFrom stream

/-- Some file of the module with the path has the name at the span. -/
def Calls (module : Module) (name path : String) (span : Span) : Prop :=
  ∃ file ∈ module.sourceFiles, file.path = path ∧ file.Calls name span

end Module

/-- The file declares it under the name. -/
def Declaration.DeclaredIn (file : SourceFile) (name : String) : Declaration → Prop
  | .type decl => decl ∈ file.types.values ∧ decl.name = name
  | .func decl => decl ∈ file.functions.values ∧ decl.name = name
  | .value decl => decl ∈ file.vars.values ++ file.consts.values ∧ decl.name = name

namespace ModuleScope

variable {module : Module} {options : IndexOptions}

/-- What a package declares under a name is declared under it in a file of the module. -/
theorem declaredIn_of_lookup {path name : String} {site : Site}
    (found : (ofModule options module).lookup path name = some site) :
    site.file ∈ module.sourceFiles ∧ site.decl.DeclaredIn site.file name := by
  obtain ⟨decls, held, found⟩ := Option.bind_eq_some_iff.mp found
  obtain ⟨package, listed, same⟩ := List.mem_map.mp (NameMap.mem_of_get?_ofList held)
  cases same
  obtain ⟨file, inside, sited⟩ := List.mem_flatMap.mp (NameMap.mem_of_get?_ofList found)
  have owned : file ∈ module.sourceFiles :=
    List.mem_flatMap.mpr ⟨package, listed, (List.mem_filter.mp inside).1⟩
  simp only [PackageScope.fileSites, List.mem_append, List.mem_map] at sited
  rcases sited with ((⟨decl, held, same⟩ | ⟨decl, held, same⟩) | ⟨decl, held, same⟩) |
    ⟨decl, held, same⟩ <;> obtain ⟨rfl, rfl⟩ := Prod.mk.inj same
  · exact ⟨owned, held, rfl⟩
  · exact ⟨owned, held, rfl⟩
  · exact ⟨owned, List.mem_append_left _ held, rfl⟩
  · exact ⟨owned, List.mem_append_right _ held, rfl⟩

/-- A type that is found under a name has the name. -/
theorem name_of_typeDecl? {path name : String} {site : Site}
    (found : (ofModule options module).lookup path name = some site) {decl : TypeDecl}
    (typed : site.typeDecl? = some decl) : decl.name = name := by
  obtain ⟨-, declared⟩ := declaredIn_of_lookup found
  unfold Site.typeDecl? at typed
  split at typed
  · rename_i same
    cases typed
    rw [same] at declared
    exact declared.2
  · cases typed

/-- A declared type that a type expression denotes has the name that the expression ends in. -/
theorem baseTypeName_of_typeOf {package : String} {file : SourceFile} {path typeName : String} :
    (node : Node) →
      (ofModule options module).typeOf package file node = some (.named path typeName) →
      node.baseTypeName = some typeName
  | .ident name span, denoted => by
    rw [typeOf] at denoted
    obtain ⟨path, -, denoted⟩ := List.exists_of_findSome?_eq_some denoted
    obtain ⟨decl, found, same⟩ := Option.map_eq_some_iff.mp denoted
    obtain ⟨site, found, typed⟩ := Option.bind_eq_some_iff.mp found
    cases same
    rw [name_of_typeDecl? found typed]
    rfl
  | .selector base name span, denoted => by
    cases base with
    | ident qualifier qualifierSpan =>
      rw [typeOf] at denoted
      split at denoted
      · obtain ⟨decl, found, same⟩ := Option.map_eq_some_iff.mp denoted
        obtain ⟨site, found, typed⟩ := Option.bind_eq_some_iff.mp found
        cases same
        rw [name_of_typeDecl? found typed]
        rfl
      · cases denoted
    | _ => cases denoted
  | .unary .deref operand, denoted => by
    rw [typeOf] at denoted
    exact baseTypeName_of_typeOf operand denoted
  | .index base indices, denoted => by
    rw [typeOf] at denoted
    exact baseTypeName_of_typeOf base denoted
  | .typeExpr form parts, denoted => by
    cases form with
    | slice | array | variadic | chan =>
      simp only [typeOf] at denoted
      obtain ⟨element, -, same⟩ := Option.map_eq_some_iff.mp denoted
      cases same
    | map =>
      simp only [typeOf] at denoted
      split at denoted <;> cases denoted
    | func | struct | interface => cases denoted
  | .unary .ref _, denoted | .unary .range _, denoted | .unary .other _, denoted
  | .call .., denoted | .composite .., denoted | .keyValue .., denoted | .binary .., denoted
  | .typeAssert .., denoted | .literal .., denoted | .funcLit .., denoted | .block .., denoted
  | .define .., denoted | .assign .., denoted | .branch .., denoted | .list .., denoted => by
    cases denoted

variable (read : module.AllRead)
include read

/-- What is declared under a name in a package stands at the name. -/
theorem calls_of_lookup {path name : String} {site : Site}
    (found : (ofModule options module).lookup path name = some site) :
    module.Calls name site.file.path site.nameSpan := by
  obtain ⟨held, declared⟩ := declaredIn_of_lookup found
  obtain ⟨stream, stands⟩ := read site.file held
  refine ⟨site.file, held, rfl, ?_⟩
  unfold Site.nameSpan
  cases given : site.decl with
  | type decl =>
    rw [given] at declared
    obtain ⟨inside, rfl⟩ := declared
    exact stands.calls ⟨_, SpanVisitor.named_of_typeDecl (stands.guarded.typeDecl inside)⟩
  | func decl =>
    rw [given] at declared
    obtain ⟨inside, rfl⟩ := declared
    exact stands.calls ⟨_, SpanVisitor.named_of_funcDecl
      (stands.guarded.funcDecl (List.mem_append_left _ inside))⟩
  | value decl =>
    rw [given] at declared
    obtain ⟨inside, rfl⟩ := declared
    exact stands.calls ⟨_, SpanVisitor.named_of_valueDecl
      (stands.guarded.valueDecl (List.mem_append_left _ inside))⟩

/-- What the fields of a struct settle under a name stands at the name. -/
theorem calls_of_searchFields {package name : String} {file : SourceFile} {stream : TokenStream}
    (held : file ∈ module.sourceFiles) (stands : file.ReadFrom stream) {fields : List Field}
    (formed : ∀ field ∈ fields, field.Formed)
    (seen : ∀ field ∈ fields, stream.guard.Sees (field.name, field.nameSpan))
    {embedded : List GoType} {member : Member}
    (settled : (ofModule options module).searchFields package file name embedded fields =
      .settled (some member)) : module.Calls name member.file member.nameSpan := by
  induction fields generalizing embedded with
  | nil => cases settled
  | cons field rest ih =>
    obtain ⟨formedHere, formedRest⟩ := List.forall_mem_cons.mp formed
    obtain ⟨seenHere, seenRest⟩ := List.forall_mem_cons.mp seen
    rw [searchFields] at settled
    cases embeds : field.embedded with
    | true =>
      simp only [embeds, if_true] at settled
      split at settled
      · -- The name of an embedded field is that of its type.
        rename_i named
        obtain ⟨⟨path, typeName⟩, denoted, settled⟩ :=
          Option.bind_eq_some_iff.mp (FieldSearch.settled.inj settled)
        obtain ⟨site, found, rfl⟩ := Option.map_eq_some_iff.mp settled
        obtain ⟨type, typed, same⟩ := Option.bind_eq_some_iff.mp denoted
        cases type with
        | named path' typeName' =>
          cases same
          have base := formedHere.embedded embeds
          rw [baseTypeName_of_typeOf _ typed, Option.getD_some] at base
          rw [← eq_of_beq named, base]
          exact calls_of_lookup read found
        | _ => cases same
      · exact ih formedRest seenRest settled
    | false =>
      simp only [embeds, Bool.false_eq_true, if_false] at settled
      split at settled
      · rename_i named
        cases settled
        rw [← eq_of_beq named]
        exact ⟨file, held, rfl, stands.calls seenHere⟩
      · exact ih formedRest seenRest settled

/-- What the shape of a type settles under a name stands at the name. -/
theorem calls_of_searchShape {path typeName package name : String} {site : Site} {decl : TypeDecl}
    (found : (ofModule options module).lookup path typeName = some site)
    (typed : site.decl = .type decl) {member : Member}
    (settled : (ofModule options module).searchShape package site.file name decl.shape =
      .settled (some member)) : module.Calls name member.file member.nameSpan := by
  obtain ⟨held, declared⟩ := declaredIn_of_lookup found
  rw [typed] at declared
  obtain ⟨stream, stands⟩ := read site.file held
  have formed := stands.formed.types decl declared.1
  obtain ⟨fieldsSeen, methodsSeen⟩ :=
    SpanVisitor.sees_members (stands.guarded.typeDecl declared.1)
  unfold TypeDecl.fields at fieldsSeen
  unfold TypeDecl.interfaceMethods at methodsSeen
  cases shape : decl.shape with
  | struct fields =>
    rw [shape] at formed settled fieldsSeen
    exact calls_of_searchFields read held stands formed fieldsSeen settled
  | interface methods embeds =>
    rw [shape] at settled methodsSeen
    rw [searchShape] at settled
    split at settled
    · rename_i method listed
      cases settled
      have named : method.name = name := by simpa using List.find?_some listed
      rw [← named]
      exact ⟨site.file, held, rfl,
        stands.calls (methodsSeen method (List.mem_of_find?_eq_some listed))⟩
    · cases settled
  | other underlying =>
    rw [shape] at settled
    cases settled

/-- **What a type has under a name stands at the name**, also when it is promoted. -/
theorem calls_of_memberWithin {fuel : Nat} {path typeName name : String} {member : Member}
    (found : (ofModule options module).memberWithin fuel path typeName name = some member) :
    module.Calls name member.file member.nameSpan := by
  induction fuel generalizing path typeName with
  | zero => cases found
  | succ fuel ih =>
    rw [memberWithin] at found
    split at found
    · cases found
    · rename_i decls listed
      split at found
      · cases found
      · rename_i site named
        have looked : (ofModule options module).lookup path typeName = some site := by
          unfold lookup
          rw [listed]
          exact named
        split at found
        · rename_i decl typed
          split at found
          · -- A method that is declared for the type.
            rename_i file method picked
            cases found
            obtain ⟨package, inside, same⟩ := List.mem_map.mp (NameMap.mem_of_get?_ofList listed)
            cases same
            have called := List.find?_some picked
            obtain ⟨owner, owned, held⟩ := List.mem_flatMap.mp (List.mem_of_find?_eq_some picked)
            obtain ⟨given, member, same⟩ := List.mem_map.mp held
            obtain ⟨rfl, rfl⟩ := Prod.mk.inj same
            have owns : owner ∈ module.sourceFiles :=
              List.mem_flatMap.mpr ⟨package, inside, (List.mem_filter.mp owned).1⟩
            obtain ⟨stream, stands⟩ := read owner owns
            rw [← eq_of_beq (Bool.and_eq_true_iff.mp called).2]
            exact ⟨owner, owns, rfl, stands.calls ⟨_, SpanVisitor.named_of_funcDecl
              (stands.guarded.funcDecl (List.mem_append_right _ member))⟩⟩
          · split at found
            · rename_i settled
              exact calls_of_searchShape read looked typed (found ▸ settled)
            · obtain ⟨⟨inner, innerName⟩, -, found⟩ := List.exists_of_findSome?_eq_some found
              exact ih found
        · cases found

/-- **Whatever a walk finds under a name stands at the name.** -/
theorem calls_of_declares {resolver : Resolver}
    (made : resolver.scope = ofModule options module)
    (held : resolver.file ∈ module.sourceFiles) {name file : String} {nameSpan : Span}
    (declares : resolver.Declares name file nameSpan) : module.Calls name file nameSpan := by
  cases declares with
  | site found => exact calls_of_lookup read (made ▸ found)
  | member found => exact calls_of_memberWithin read (made ▸ found)
  | @imported _ decl found binds =>
    obtain ⟨stream, stands⟩ := read resolver.file held
    have named : decl.localName = name := by simpa using List.find?_some found
    exact ⟨resolver.file, held, rfl,
      named ▸ stands.calls_import (List.mem_of_find?_eq_some found)⟩
  | @param decl param _ _ inside listed named spans =>
    obtain ⟨stream, stands⟩ := read resolver.file held
    exact ⟨resolver.file, held, rfl, stands.calls (SpanVisitor.sees_allParams
      (stands.guarded.funcDecl inside) param listed name nameSpan named spans)⟩

end ModuleScope

end GoRefactor
