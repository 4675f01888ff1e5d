import GoRefactor.Proofs.Symbol.Reached
import GoRefactor.Proofs.Symbol.Sites

/-!
# Members of imported packages

An import without an alias goes by the last segment of its path, whatever name the package clause of
the package has. So a use `n.Y` of a package that is called `n` is settled on the package only if
some import goes by `n` and has the package's path; otherwise it is settled as a pair whose first
name stands for nothing, on the qualified names that the pair ends.
-/

namespace GoRefactor

namespace Resolver

open Walking

variable {resolver : Resolver}

/-- Nothing that the file sees has the name, its imports and local names apart: it is not
predeclared, and neither the file's package nor one that is imported with a dot declares it. -/
def Unknown (resolver : Resolver) (name : String) : Prop :=
  isPredeclared name = false ∧
    ∀ path ∈ resolver.package :: (resolver.file.imports.filter Import.isDot).map (·.path),
      resolver.scope.lookup path name = none

namespace Unknown

variable {name : String}

/-- Nothing is declared under an unknown name. -/
theorem declared (unknown : resolver.Unknown name) : resolver.declared name = none := by
  obtain ⟨-, none⟩ := unknown
  obtain ⟨own, others⟩ := List.forall_mem_cons.mp none
  unfold Resolver.declared ModuleScope.lookupInFile ModuleScope.lookupDot
  rw [own, Option.none_or]
  split
  · exact List.findSome?_eq_none_iff.mpr (List.forall_mem_map.mp others)
  · rfl

/-- An unknown name that is not bound has no type. -/
theorem baseType (unknown : resolver.Unknown name) (span : Span) {scopes : Scopes}
    (unbound : scopes.find? name = none) :
    resolver.baseType scopes (.ident name span) = none := by
  have value : resolver.scope.exprType (resolver.place scopes) (.ident name span) = none := by
    rw [ModuleScope.exprType, inferenceSteps, ModuleScope.exprTypeWithin]
    simp only [place, unbound]
    exact Option.bind_eq_none_iff.mpr fun _ given =>
      absurd (unknown.declared.symm.trans given) (Option.some_ne_none _).symm
  have type : resolver.typeOf (.ident name span) = none := by
    unfold typeOf ModuleScope.typeOf
    refine List.findSome?_eq_none_iff.mpr fun path member => ?_
    rw [unknown.2 path member]
    rfl
  unfold Resolver.baseType
  rw [value, Option.none_or]
  dsimp only
  rw [unbound]
  exact type

end Unknown

/-- Uses that are noted of an import. -/
def importUses (resolver : Resolver) (name : String) (span : Span) : List Use :=
  match resolver.file.importNamed name with
  | some decl => resolver.symbols.usesAt resolver.file.path decl.nameSpan span .imported
  | none => []

/-- Uses that are noted of a member of a package. -/
def memberUses (resolver : Resolver) (path name : String) (span : Span) (kind : ReferenceKind) :
    List Use :=
  match resolver.scope.lookup path name with
  | some site => resolver.symbols.usesAt site.file.path site.nameSpan span kind
  | none => [.unresolved]

/-- An import is noted at its use. -/
theorem emits_noteImport (name : String) (span : Span) (scopes : Scopes) :
    Emits (fun _ => True) (resolver.noteImport name span) scopes () scopes
      (resolver.importUses name span) := by
  unfold noteImport importUses
  cases resolver.file.importNamed name with
  | none => exact .pure () scopes
  | some decl => exact resolver.emits_noteOrigin resolver.symbols _ _ _ _ scopes

/-- A member of a package is noted at its use, and is settled. -/
theorem emits_member (path name : String) (span : Span) (kind : ReferenceKind) (scopes : Scopes) :
    Emits (fun _ => True)
      (match resolver.scope.lookup path name with
      | some site => do
        resolver.noteSite site span kind
        return true
      | none => do
        Walking.note .unresolved
        return true)
      scopes true scopes (resolver.memberUses path name span kind) := by
  unfold memberUses
  cases resolver.scope.lookup path name with
  | none => exact (Emits.note trivial scopes).bind (.pure true scopes)
  | some site =>
    dsimp only
    rw [← List.append_nil (SymbolTable.usesAt _ _ _ _ _)]
    exact (resolver.emits_noteOrigin resolver.symbols _ _ _ _ scopes).bind (.pure true scopes)

/-- What is noted of a member whose base has no type: what the fields and methods with the name
settle. -/
theorem emits_typedMember {base : Node} {scopes : Scopes}
    (untyped : resolver.baseType scopes base = none)
    (name : String) (span : Span) (kind : ReferenceKind) :
    Emits (fun _ => True) (resolver.typedMember base name span kind) scopes () scopes
      ((resolver.symbols.membersNamed name).uses name span kind) := by
  unfold typedMember
  refine .get (fun _ => rfl) ?_
  dsimp only
  rw [untyped]
  exact emits_noteCandidates name span kind _ scopes

section Selector

variable {mode : VisitMode} {qualifier name : String} {qualifierSpan span : Span} {scopes : Scopes}
  (unbound : scopes.find? qualifier = none)
include unbound

/-- What an unbound name before a dot leads to: what its first stage notes, and, if that settles
nothing, what the base and the last stages note. -/
theorem usesAt_of_stages {settled : Bool} {first : List Use} (others : List Use)
    (stage : Emits (fun _ => True)
      (resolver.unboundMember qualifier qualifierSpan name span mode.role.memberKind) scopes settled
      scopes first)
    (rest : settled = false → Emits (fun _ => True)
      (do
        resolver.visit .read (.ident qualifier qualifierSpan)
        resolver.typedMember (.ident qualifier qualifierSpan) name span mode.role.memberKind)
      scopes () scopes others) :
    resolver.usesAt ⟨mode, .selector (.ident qualifier qualifierSpan) name span, scopes⟩ =
      first ++ if settled then [] else others := by
  have member : Emits (fun _ => True)
      (resolver.qualifiedMember (.ident qualifier qualifierSpan) name span mode.role.memberKind)
      scopes settled scopes first := by
    rw [qualifiedMember_ident]
    refine .get (fun _ => rfl) ?_
    dsimp only
    rw [unbound]
    exact stage
  have whole : Emits (fun _ => True)
      (resolver.visit mode (.selector (.ident qualifier qualifierSpan) name span)) scopes () scopes
      (first ++ if settled then [] else others) := by
    rw [visit]
    refine member.bind ?_
    cases settled with
    | true => exact .pure () scopes
    | false => exact rest rfl
  exact (eq_of_emits whole).2

/-- What settles an unbound name before a dot at once is all that its visit notes. -/
theorem usesAt_of_settled {uses : List Use}
    (settled : Emits (fun _ => True)
      (resolver.unboundMember qualifier qualifierSpan name span mode.role.memberKind) scopes true
      scopes uses) :
    resolver.usesAt ⟨mode, .selector (.ident qualifier qualifierSpan) name span, scopes⟩ =
      uses := by
  exact (usesAt_of_stages unbound [] settled nofun).trans (List.append_nil uses)

/-- Where the name of an import of a package stands before a dot, the import and the member of the
package are noted. -/
theorem usesAt_package {path : String}
    (imported : resolver.scope.qualifier resolver.file qualifier = .package path) :
    resolver.usesAt ⟨mode, .selector (.ident qualifier qualifierSpan) name span, scopes⟩ =
      resolver.importUses qualifier qualifierSpan ++
        resolver.memberUses path name span mode.role.memberKind := by
  refine usesAt_of_settled unbound ?_
  unfold unboundMember
  rw [imported]
  exact (emits_noteImport qualifier qualifierSpan scopes).bind
    (emits_member path name span _ scopes)

/-- Where the name of an import from elsewhere stands before a dot, the import is noted and the
member is unresolved. -/
theorem usesAt_external
    (imported : resolver.scope.qualifier resolver.file qualifier = .external) :
    resolver.usesAt ⟨mode, .selector (.ident qualifier qualifierSpan) name span, scopes⟩ =
      resolver.importUses qualifier qualifierSpan ++ [.unresolved] := by
  refine usesAt_of_settled unbound ?_
  unfold unboundMember
  rw [imported]
  exact (emits_noteImport qualifier qualifierSpan scopes).bind
    ((Emits.note trivial scopes).bind (.pure true scopes))

/-- **What a pair finds whose first name stands for nothing.** It is found among the qualified names
that the pair ends, or, where there are none, among the fields and methods with the second name. -/
theorem finds_unknown_iff (unknown : resolver.Unknown qualifier)
    (foreign : resolver.scope.qualifier resolver.file qualifier = .notImport) {id : Nat} :
    (∃ kind, .found id span kind ∈
        resolver.usesAt ⟨mode, .selector (.ident qualifier qualifierSpan) name span, scopes⟩) ↔
      resolver.qualifiedSuffix qualifier name = .resolved id ∨
        resolver.qualifiedSuffix qualifier name = .unresolved ∧
          resolver.symbols.membersNamed name = .resolved id := by
  have nameless : ((resolver.declared qualifier).isSome || isPredeclared qualifier) = false := by
    rw [unknown.declared, unknown.1]
    rfl
  have found_mem_uses (resolution : Resolution) (kind : ReferenceKind) :
      (∃ kind', Use.found id span kind' ∈ resolution.uses name span kind) ↔
        resolution = .resolved id := by
    cases resolution <;> simp [Resolution.uses, eq_comm]
  have pair : Emits (fun _ => True)
      (resolver.unboundMember qualifier qualifierSpan name span mode.role.memberKind) scopes
      (resolver.qualifiedSuffix qualifier name != .unresolved) scopes
      (if resolver.qualifiedSuffix qualifier name = .unresolved then []
        else (resolver.qualifiedSuffix qualifier name).uses name span mode.role.memberKind) :=
    emits_unboundMember resolver.symbols name qualifierSpan span foreign nameless _ scopes
  by_cases opened : resolver.qualifiedSuffix qualifier name = .unresolved
  · obtain ⟨passed, emits, nowhere⟩ :=
      emits_visit_of_nameless resolver.symbols qualifierSpan nameless unbound
    rw [if_pos opened, opened] at pair
    rw [usesAt_of_stages unbound _ pair fun _ =>
      emits.bind (emits_typedMember (unknown.baseType qualifierSpan unbound) name span _)]
    have elsewhere (kind : ReferenceKind) : .found id span kind ∉ passed :=
      fun member => Option.some_ne_none _ (nowhere _ member)
    simp only [opened, bne_self_eq_false, Bool.false_eq_true, if_false, List.nil_append,
      List.mem_append, elsewhere, false_or, found_mem_uses, reduceCtorEq, true_and]
  · rw [if_neg opened, bne_iff_ne.mpr opened] at pair
    rw [usesAt_of_settled unbound pair, found_mem_uses]
    exact ⟨Or.inl, fun either => either.resolve_right fun none => opened none.1⟩

end Selector

/-- The one import that goes by a name, of a package of the module, makes the name stand for the
package. -/
theorem qualifier_of_import {module : Module} {options : IndexOptions}
    (sees : resolver.scope = .ofModule options module)
    (keyed : module.packages.Keyed Package.path) {package : Package}
    (listed : package ∈ module.packageList) {decl : Import}
    (imported : decl ∈ resolver.file.imports)
    (plain : decl.aliasName = none) (aimed : decl.path = package.path)
    (alone : ∀ other ∈ resolver.file.imports, other.localName = decl.localName → other = decl) :
    resolver.scope.qualifier resolver.file decl.localName = .package package.path := by
  have named : resolver.file.importNamed decl.localName = some decl := by
    obtain ⟨other, found⟩ : ∃ other, resolver.file.importNamed decl.localName = some other :=
      Option.isSome_iff_exists.mp
        (List.find?_isSome.mpr ⟨decl, imported, beq_self_eq_true decl.localName⟩)
    have same : other.localName = decl.localName := by simpa using List.find?_some found
    rw [found, alone other (List.mem_of_find?_eq_some found) same]
  have known : resolver.scope.packages.contains decl.path = true := by
    rw [sees, aimed]
    exact List.any_eq_true.mpr ⟨_, NameMap.get?_eq_some_iff.mp
      (ModuleScope.get?_packages keyed listed), beq_self_eq_true _⟩
  unfold ModuleScope.qualifier
  rw [named]
  dsimp only
  rw [Import.isDot, Import.isBlank, plain, known, aimed]
  rfl

end Resolver

/-- **Members of imported packages.** A file imports a package of the module without an alias, and
uses a member of the package behind the name of its package clause. Where this name is the last
segment of the import path, and no other import goes by it, the index refers from there to the
declaration. In general, and if nothing else has the name, it does so exactly if an import that goes
by the name has the path of the package, or if no import goes by it and the declaration is the only
one whose qualified name the pair ends. -/
theorem imported_member_reference {path : String} {sources : List (String × String)}
    {module : Module} {options : IndexOptions} {index : Index}
    (loaded : Module.ofSources path sources = .ok module) (full : options.includePrivate = true)
    (built : (module.index options).run = .ok (.ok index)) {resolver : Resolver}
    (walked : resolver ∈ module.resolvers options index.symbols) {package : Package}
    (listed : package ∈ module.packageList) (foreign : package.path ≠ resolver.package)
    {decl : Import} (imported : decl ∈ resolver.file.imports) (plain : decl.aliasName = none)
    (aimed : decl.path = package.path) {file : SourceFile} (held : file ∈ package.files)
    (proper : file.isTest = false) {name : String} (declares : file.declares name = true)
    {visit : Visit} (arrives : visit ∈ resolver.fileVisits) {qualifierSpan span : Span}
    (member : visit.node = .selector (.ident package.name qualifierSpan) name span)
    (unbound : visit.scopes.find? package.name = none) :
    ∃ site target, resolver.scope.lookup package.path name = some site ∧
      index.symbols.atOrigin site.file.path site.nameSpan = some target ∧
      (lastSegment package.path = package.name →
        (∀ other ∈ resolver.file.imports, other.localName = package.name → other = decl) →
        index.RefersAt resolver.file.path span target.id) ∧
      (resolver.Unknown package.name → target.kind.isMember = false →
        (index.RefersAt resolver.file.path span target.id ↔
          resolver.scope.qualifier resolver.file package.name = .package package.path ∨
          resolver.scope.qualifier resolver.file package.name = .notImport ∧
            resolver.qualifiedSuffix package.name name = .resolved target.id)) := by
  obtain ⟨mode, node, scopes⟩ := visit
  subst member
  obtain ⟨distinct, drawn, -⟩ := Module.index_spec built
  obtain ⟨filed, numbered, -, -⟩ := Module.symbols_spec drawn
  obtain ⟨sees, owner, owned, sameOwner, inside⟩ := Module.package_of_mem_resolvers walked
  obtain ⟨fileHeld, -, tabled⟩ := Module.file_of_mem_resolvers walked
  have keyed := (Module.addressed_of_ofSources loaded).keyed
  have scanned := Module.scanned_of_ofSources loaded
  have retained : options.retainsFile file = true := by
    rw [IndexOptions.retainsFile, proper, Bool.not_false, Bool.or_true]
  have named : file.Keyed :=
    SourceFile.keyed_of_parse (scanned file (List.mem_flatMap.mpr ⟨package, listed, held⟩))
  obtain ⟨site, found⟩ := ModuleScope.exists_lookup keyed listed held retained named declares
  obtain ⟨target, known, origin, standing⟩ := SymbolTable.exists_atOrigin full drawn found
  -- What has the path of the target's file belongs to the package.
  have home {other : Package} (listed' : other ∈ module.packageList) {file : SourceFile}
      (held : file ∈ other.files) (same : file.path = target.file) : other.path = package.path := by
    obtain ⟨owner, listed'', path, held', -⟩ := ModuleScope.owner_of_lookup found
    rw [← path, Module.package_of_path distinct listed' listed'' held held' (same.trans standing)]
  have away : target.file ≠ resolver.file.path := fun same =>
    foreign ((home owned inside same.symm).symm.trans sameOwner.symm)
  have apart : target.declaredAt resolver.file.path span = false := by
    rw [Symbol.declaredAt, beq_eq_false_iff_ne.mpr away, Bool.false_and]
  have refers : index.RefersAt resolver.file.path span target.id ↔
      ∃ kind, .found target.id span kind ∈ resolver.usesAt
        ⟨mode, .selector (.ident package.name qualifierSpan) name span, scopes⟩ :=
    (Module.refersAt_iff built walked (SourceFile.tidy_of_parse (scanned _ fileHeld)) arrives
      (by simp [Node.passes]) known).trans (and_iff_right apart)
  -- Whatever is noted of the target's number is noted of the target.
  have placed {file : String} {nameSpan span' : Span} {kind kind' : ReferenceKind}
      (noted : .found target.id span kind ∈ resolver.symbols.usesAt file nameSpan span' kind') :
      target.file = file := by
    rw [tabled] at noted
    obtain ⟨symbol, there, same⟩ := Option.map_eq_some_iff.mp (Option.mem_toList.mp noted)
    obtain ⟨member, standing', -⟩ := SymbolTable.mem_of_atOrigin filed there
    have number : symbol.id = target.id := (Use.found.inj same).1
    rw [← SymbolTable.eq_of_id_eq numbered member known number]
    exact standing'
  have unlinked (kind : ReferenceKind) : .found target.id span kind ∉
      resolver.importUses package.name qualifierSpan := by
    unfold Resolver.importUses
    split
    · exact fun noted => away (placed noted)
    · exact List.not_mem_nil
  have settled (package' : String)
      (imported : resolver.scope.qualifier resolver.file package.name = .package package') :
      index.RefersAt resolver.file.path span target.id ↔ package' = package.path := by
    rw [refers, Resolver.usesAt_package unbound imported]
    simp only [List.mem_append, unlinked, false_or]
    unfold Resolver.memberUses
    constructor
    · rintro ⟨kind, noted⟩
      split at noted
      · rename_i site' found'
        rw [sees] at found'
        obtain ⟨owner, listed', path, held', -⟩ := ModuleScope.owner_of_lookup found'
        exact path.symm.trans (home listed' held' (placed noted).symm)
      · cases List.mem_singleton.mp noted
    · rintro rfl
      rw [sees, found]
      dsimp only
      rw [SymbolTable.usesAt, tabled, origin]
      exact ⟨_, List.mem_singleton_self _⟩
  refine ⟨site, target, sees ▸ found, origin, fun last alone => ?_, fun unknown proper => ?_⟩
  · have goesBy : decl.localName = package.name := by
      rw [Import.localName, plain, Option.getD_none, aimed, last]
    rw [← goesBy] at alone
    refine (settled _ ?_).mpr rfl
    rw [← goesBy]
    exact Resolver.qualifier_of_import sees keyed listed imported plain aimed alone
  · cases kindOf : resolver.scope.qualifier resolver.file package.name with
    | package path => simp [settled path kindOf]
    | external =>
      rw [refers, Resolver.usesAt_external unbound kindOf]
      simp [unlinked]
    | notImport =>
      rw [refers, Resolver.finds_unknown_iff unbound unknown kindOf]
      have unclaimed : resolver.symbols.membersNamed name ≠ .resolved target.id := by
        intro claimed
        obtain ⟨symbol, member, number⟩ :=
          List.mem_map.mp (Resolution.mem_of_ofCandidates claimed)
        rw [tabled] at member
        obtain ⟨named, kind⟩ := List.mem_filter.mp member
        have same := SymbolTable.eq_of_id_eq numbered (SymbolTable.mem_of_named filed named).1 known
          number
        rw [same, proper] at kind
        cases kind
      simp [unclaimed]

/-- A package in the directory `foo` and a file that uses it by the name of its package clause. -/
def clauseSources (name : String) : List (String × String) :=
  [("a.go", "package m\n\nimport \"m/foo\"\n\nvar X = " ++ name ++ ".Y\n"),
    ("foo/f.go", "package " ++ name ++ "\n\nvar Y = 1\n")]

/-- The visit is one of a member of a name. -/
def Visit.isMember (visit : Visit) (qualifier name : String) : Bool :=
  match visit.node with
  | .selector (.ident base _) member _ => base == qualifier && member == name
  | _ => false

/-- The node of a visit of a member. -/
theorem Visit.node_of_isMember {visit : Visit} {qualifier name : String}
    (member : visit.isMember qualifier name = true) :
    ∃ qualifierSpan span,
      visit.node = .selector (.ident qualifier qualifierSpan) name span := by
  unfold isMember at member
  split at member
  · rename_i base qualifierSpan name' span same
    obtain ⟨base, named⟩ := Bool.and_eq_true_iff.mp member
    cases eq_of_beq base
    cases eq_of_beq named
    exact ⟨qualifierSpan, span, same⟩
  · cases member

/-- The file uses a member of a package that it imports, by the name of the package's clause, and
nothing else has the name. -/
def Resolver.usesPackage (resolver : Resolver) (package : Package) (name : String) : Bool :=
  package.path != resolver.package &&
    (resolver.file.imports.any fun decl =>
      decl.aliasName == none && decl.path == package.path) &&
    (package.files.any fun file => !file.isTest && file.declares name) &&
    (resolver.fileVisits.any fun visit =>
      visit.isMember package.name name && (visit.scopes.find? package.name).isNone) &&
    !isPredeclared package.name &&
    (resolver.package :: (resolver.file.imports.filter Import.isDot).map (·.path)).all fun path =>
      (resolver.scope.lookup path package.name).isNone

/-- Whether the index of the module refers from the use of `Y` to its declaration. -/
def ImportedUseRefers (name : String) (refers : Bool) : Prop :=
  ∃ module index resolver package visit qualifierSpan span site target,
    Module.ofSources "m" (clauseSources name) = .ok module ∧
    (module.index (.withPrivate true)).run = .ok (.ok index) ∧
    resolver ∈ module.resolvers (.withPrivate true) index.symbols ∧
    package ∈ module.packageList ∧ visit ∈ resolver.fileVisits ∧
    visit.node = .selector (.ident package.name qualifierSpan) "Y" span ∧
    resolver.scope.lookup package.path "Y" = some site ∧
    index.symbols.atOrigin site.file.path site.nameSpan = some target ∧
    (index.RefersAt resolver.file.path span target.id ↔ refers = true)

/-- The index refers to a member of an imported package that is called like its directory, and not
to the same member if the package is called otherwise. -/
theorem imported_member_by_clause_name :
    ImportedUseRefers "foo" true ∧ ImportedUseRefers "bar" false := by
  have settled {name : String} {refers : Bool}
      (evaluated : checkOk (Module.ofSources "m" (clauseSources name)) (fun module =>
        checkOk (module.index (.withPrivate true)).run fun ending =>
          checkOk ending fun index =>
            (index.symbols.toList.all fun symbol => !symbol.kind.isMember) &&
              (module.resolvers (.withPrivate true) index.symbols).any fun resolver =>
                module.packageList.any fun package => resolver.usesPackage package "Y" &&
                  resolver.scope.qualifier resolver.file package.name ==
                    (if refers then .package package.path else .notImport) &&
                  (refers || resolver.qualifiedSuffix package.name "Y" == .unresolved)) = true) :
      ImportedUseRefers name refers := by
    obtain ⟨module, loaded, checked⟩ := exists_of_checkOk evaluated
    obtain ⟨ending, built, ended⟩ := exists_of_checkOk checked
    obtain ⟨index, rfl, known⟩ := exists_of_checkOk ended
    obtain ⟨plainly, used⟩ := Bool.and_eq_true_iff.mp known
    obtain ⟨resolver, walked, used⟩ := List.any_eq_true.mp used
    obtain ⟨package, listed, used⟩ := List.any_eq_true.mp used
    simp only [Resolver.usesPackage, Bool.and_eq_true, bne_iff_ne, List.any_eq_true, beq_iff_eq,
      Bool.not_eq_true', List.all_eq_true, Option.isNone_iff_eq_none, Bool.or_eq_true] at used
    obtain ⟨⟨⟨⟨⟨⟨⟨foreign, decl, imported, plain, aimed⟩, file, held, proper, declares⟩, visit,
      arrives, member, unbound⟩, proper'⟩, none⟩, kindOf⟩, suffix⟩ := used
    obtain ⟨qualifierSpan, span, member⟩ := Visit.node_of_isMember member
    obtain ⟨site, target, found, origin, -, exactly⟩ := imported_member_reference loaded rfl built
      walked listed foreign imported plain aimed held proper declares arrives member unbound
    refine ⟨module, index, resolver, package, visit, qualifierSpan, span, site, target,
      loaded, built, walked, listed, arrives, member, found, origin, ?_⟩
    obtain ⟨-, drawn, -⟩ := Module.index_spec built
    have inside := (SymbolTable.mem_of_atOrigin (Module.symbols_spec drawn).1 origin).1
    rw [exactly ⟨proper', none⟩ (by simpa using List.all_eq_true.mp plainly target inside), kindOf]
    cases refers with
    | true => simp
    | false => simp [suffix.resolve_left Bool.false_ne_true]
  exact ⟨settled (by decide +kernel), settled (by decide +kernel)⟩

end GoRefactor
