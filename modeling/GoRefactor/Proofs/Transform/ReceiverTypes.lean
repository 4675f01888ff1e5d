import GoRefactor.Proofs.Symbol.Clauses
import GoRefactor.Proofs.Transform.EditedNames

/-!
# Receivers and the types they name

A method of a package names its type by itself: the receiver stands for a type of the package, no
import, no member of another one. A rename then edits the receiver exactly if it edits the type.
-/

namespace GoRefactor

/-- The method belongs to a type of its package, which the receiver names without a qualifier. -/
structure FuncDecl.AtHome (package : Package) (file : SourceFile) (method : FuncDecl)
    (name : String) : Prop where
  named : (method.receiver.bind fun receiver => receiver.typeNode.typeReference) = some (none, name)
  proper : name ≠ "_"
  unimported : file.importNamed name = none
  declared : ∃ other ∈ package.files, ∃ decl ∈ other.types.values, decl.name = name

namespace Resolver

/-- The walk over a type that is named without a qualifier visits the name. -/
theorem exists_visit_of_typeReference (resolver : Resolver) : ∀ {node : Node} {name : String},
    node.typeReference = some (none, name) → ∃ span, node.mention? = some (name, span) ∧
      ∀ scopes, ⟨.type, .ident name span, scopes⟩ ∈ resolver.visits .type node scopes
  | .ident name span, _, named => by
    cases named
    exact ⟨span, rfl, fun scopes => by rw [visits]; exact List.mem_singleton_self _⟩
  | .unary .deref operand, name, named => by
    rw [Node.typeReference] at named
    obtain ⟨span, mention, visited⟩ := exists_visit_of_typeReference resolver named
    refine ⟨span, by rw [Node.mention?]; exact mention, fun scopes => ?_⟩
    rw [visits]
    exact List.mem_cons_of_mem _ (visited scopes)
  | .index base indices, name, named => by
    rw [Node.typeReference] at named
    obtain ⟨span, mention, visited⟩ := exists_visit_of_typeReference resolver named
    refine ⟨span, by rw [Node.mention?]; exact mention, fun scopes => ?_⟩
    rw [visits]
    exact List.mem_cons_of_mem _ (List.mem_append_left _ (visited scopes))
  | .selector base member span, name, named => by
    cases base with
    | ident => cases named
    | _ => cases named
  | .unary .ref _, _, named | .unary .range _, _, named | .unary .other _, _, named
  | .call _ _, _, named | .composite _ _, _, named | .keyValue _ _, _, named
  | .binary _ _, _, named | .typeAssert _ _, _, named | .typeExpr _ _, _, named
  | .literal _, _, named | .funcLit _ _ _, _, named | .block _ _, _, named
  | .define _ _ _, _, named | .assign _ _, _, named | .branch _ _ _, _, named
  | .list _, _, named => by cases named

/-- The walk over a file visits the type of a receiver at top level. -/
theorem exists_visit_of_receiver (resolver : Resolver) {method : FuncDecl}
    (held : method ∈ resolver.file.methods) {name : String}
    (named : (method.receiver.bind fun receiver =>
      receiver.typeNode.typeReference) = some (none, name)) :
    ∃ span, method.receiverNaming? resolver.file.path =
        some ⟨name, resolver.file.path, some span, false⟩ ∧
      ⟨.type, .ident name span, []⟩ ∈ resolver.fileVisits := by
  obtain ⟨receiver, given, named⟩ := Option.bind_eq_some_iff.mp named
  obtain ⟨span, mention, visited⟩ := exists_visit_of_typeReference resolver named
  refine ⟨span, ?_, ?_⟩
  · rw [FuncDecl.receiverNaming?, given, Option.bind_some, mention]
    rfl
  · refine List.mem_append_left _ (List.mem_append_right _ (List.mem_flatMap.mpr
      ⟨method, List.mem_append_right _ held, List.mem_append_left _ ?_⟩))
    rw [given, Option.map_some, Option.toList_some, visitsAll]
    exact List.mem_append_left _ (visited [])

end Resolver

namespace RenameOptions

variable {options : RenameOptions} {module : Module} {index : Index} {targets : List Symbol}
  {plan : RenamePlan} {path : String} {sources : List (String × String)}
  (loaded : Module.ofSources path sources = .ok module)
  (plans : options.Planned module index targets plan)

include loaded plans

omit loaded in
/-- Of symbols of one declaration all are renamed, or none. -/
theorem mem_targets_of_describes {declared : Declared} {target other : Symbol}
    (describes : target.Describes declared) (describes' : other.Describes declared)
    (known : target ∈ index.symbols.toList) (member : other ∈ targets) : target ∈ targets := by
  obtain ⟨-, name, renamable, owned, placed⟩ :=
    (mem_located_iff plans.built plans.located).mp member
  refine (mem_located_iff plans.built plans.located).mpr ⟨known, ?_, ?_, ?_, ?_⟩
  · exact (Option.some.inj (describes.name.symm.trans describes'.name)).trans name
  · rw [describes.kind, ← describes'.kind, renamable]
  · unfold ownedBy at owned ⊢
    rw [describes.parentType, describes.container, ← describes'.parentType, ← describes'.container]
    exact owned
  · rw [describes.package, ← describes'.package]
    exact placed

/-- Where a walk passes, an edit is due to a reference. -/
theorem exists_refersAt {file : SourceFile} (inside : file ∈ module.sourceFiles) {span : Span}
    (passed : span ∈ file.passes) (edited : (file.path, span) ∈ spans index targets) :
    ∃ target ∈ targets, index.RefersAt file.path span target.id := by
  obtain ⟨target, member, same | ⟨reference, referred, number, same⟩⟩ :=
    (mem_spans plans.built).mp edited
  · obtain ⟨path, here⟩ := Prod.mk.inj same
    obtain ⟨known, -, renamable⟩ := locate_spec plans.built plans.located member
    have scanned := Module.scanned_of_ofSources loaded
    obtain ⟨package, listed, other, held, item, declared, proper, describes⟩ :=
      Module.exists_item (fun file inside => SourceFile.keyed_of_parse (scanned file inside))
        plans.built known renamable
    have inside' : other ∈ module.sourceFiles := List.mem_flatMap.mpr ⟨package, listed, held⟩
    cases List.inj_on_of_nodup_map (Module.index_spec plans.built).1 inside inside'
      (path.trans describes.file)
    have alone := SourceFile.standing_alone (scanned file inside)
      (SourceFile.standing_of_mem_items declared proper)
      (describes.nameSpan.trans (congrArg some here.symm))
    exact absurd passed alone.1
  · obtain ⟨path, here⟩ := Prod.mk.inj same
    exact ⟨target, member, reference, referred, path, here, number⟩

/-- Where the index refers to a symbol, it refers to no other one. -/
theorem eq_of_refersAt {path : String} {span : Span} {target other : Symbol}
    (known : target ∈ index.symbols.toList) (known' : other ∈ index.symbols.toList)
    (refers : index.RefersAt path span target.id) (refers' : index.RefersAt path span other.id) :
    target = other := by
  obtain ⟨-, drawn, -⟩ := Module.index_spec plans.built
  obtain ⟨-, numbered, -, -⟩ := Module.symbols_spec drawn
  have settled := Module.settled_of_tidy (fun file inside => SourceFile.tidy_of_parse
    (Module.scanned_of_ofSources loaded file inside)) plans.built
  obtain ⟨reference, referred, file, here, number⟩ := refers
  obtain ⟨reference', referred', file', here', number'⟩ := refers'
  have same : reference.place = reference'.place :=
    Prod.ext (file.trans file'.symm) (here.trans here'.symm)
  have symbols := congrArg Reference.symbol
    (settled.agree reference referred reference' referred' same)
  exact SymbolTable.eq_of_id_eq numbered known known'
    (number.symm.trans (symbols.trans number'))

/-- A name that a walk passes is apart from what is declared. -/
theorem declaredAt_eq_false {target : Symbol} (known : target ∈ index.symbols.toList)
    (renamable : target.kind.isRenamable = true) {file : SourceFile}
    (inside : file ∈ module.sourceFiles) {span : Span} (passed : span ∈ file.passes) :
    target.declaredAt file.path span = false := by
  have scanned := Module.scanned_of_ofSources loaded
  have distinct := (Module.index_spec plans.built).1
  by_cases path : target.file = file.path
  · obtain ⟨other, inside', path', stands⟩ := Module.nameAt_symbol plans.built known renamable
    cases List.inj_on_of_nodup_map distinct inside' inside (path'.trans path)
    obtain ⟨lexemes, laidOut⟩ := SourceFile.laidOut_of_parse (scanned file inside)
    obtain ⟨text, -, here⟩ := stands lexemes laidOut
    obtain ⟨text', -, there⟩ := laidOut.nameAt_pass passed
    obtain ⟨package, listed, file', held, item, declared, proper, describes⟩ :=
      Module.exists_item (fun file inside => SourceFile.keyed_of_parse (scanned file inside))
        plans.built known renamable
    cases List.inj_on_of_nodup_map distinct inside (List.mem_flatMap.mpr ⟨package, listed, held⟩)
      (path.symm.trans describes.file)
    have unpassed := (SourceFile.standing_alone (scanned file inside)
      (SourceFile.standing_of_mem_items declared proper) describes.nameSpan).1
    rw [Symbol.declaredAt, Span.overlaps, Bool.and_eq_false_iff, Bool.and_eq_false_iff]
    rcases here.apart there with same | ends | starts
    · exact absurd (same ▸ passed) unpassed
    · exact Or.inr (Or.inr (decide_eq_false (by omega)))
    · exact Or.inr (Or.inl (decide_eq_false (by omega)))
  · rw [Symbol.declaredAt, beq_eq_false_iff_ne.mpr path, Bool.false_and]

/-- **A receiver is edited with its type.** -/
theorem receiver_edits_iff {package : Package} (listed : package ∈ module.packageList)
    {file other : SourceFile} (held : file ∈ package.files) {method : FuncDecl}
    (inside : method ∈ file.methods) {name : String} (home : method.AtHome package file name)
    (held' : other ∈ package.files) {decl : TypeDecl} (declared : decl ∈ other.types.values)
    (named : decl.name = name)
    (alone : ∀ naming ∈ package.topNamings, naming.name = name → naming = decl.naming other.path) :
    ∃ receiver, method.receiverNaming? file.path = some receiver ∧ receiver.name = name ∧
      (plan.Edits receiver ↔ plan.Edits (decl.naming other.path)) := by
  have scanned := Module.scanned_of_ofSources loaded
  have addressed := Module.addressed_of_ofSources loaded
  obtain ⟨distinct, drawn, -⟩ := Module.index_spec plans.built
  obtain ⟨filed, -⟩ := Module.symbols_spec drawn
  have owned {file : SourceFile} (held : file ∈ package.files) : file ∈ module.sourceFiles :=
    List.mem_flatMap.mpr ⟨package, listed, held⟩
  have keyed := SourceFile.keyed_of_parse (scanned other (owned held'))
  let resolver : Resolver :=
    ⟨ModuleScope.ofModule .full module, index.symbols, package.path, file⟩
  have walked : resolver ∈ module.resolvers .full index.symbols :=
    List.mem_map.mpr ⟨(package, file), List.mem_filter.mpr
      ⟨List.mem_flatMap.mpr ⟨package, listed, List.mem_map_of_mem held⟩, rfl⟩, rfl⟩
  obtain ⟨span, receiver, arrives⟩ := resolver.exists_visit_of_receiver inside home.named
  refine ⟨_, receiver, rfl, ?_⟩
  -- What the package declares under the name is the type.
  have listing : decl.naming other.path ∈ other.topNamings :=
    List.mem_append_left _ (List.mem_append_left _
      (List.mem_append_left _ (List.mem_map_of_mem declared)))
  have declares : other.declares name = true :=
    named ▸ SourceFile.declares_of_topNaming keyed listing
  have retained : IndexOptions.full.retainsFile other = true := rfl
  obtain ⟨site, found⟩ :=
    ModuleScope.exists_lookup addressed.keyed listed held' retained keyed declares
  obtain ⟨target, known, origin, -⟩ := SymbolTable.exists_atOrigin rfl drawn found
  obtain ⟨owner, listed', path, held'', -⟩ := ModuleScope.owner_of_lookup found
  cases Option.some.inj ((addressed.package?_eq_some listed).symm.trans
    ((congrArg module.package? path.symm).trans (addressed.package?_eq_some listed')))
  obtain ⟨naming, among, called, sited⟩ :=
    (ModuleScope.declaredIn_of_lookup found).2.exists_naming
  have same := alone naming (List.mem_flatMap.mpr ⟨site.file, held'', among⟩) called
  have place : (site.file.path, some site.nameSpan) = (other.path, some decl.nameSpan) := by
    rw [← sited, same]
    rfl
  obtain ⟨sitePath, siteSpan⟩ := Prod.mk.inj place
  rw [sitePath, Option.some.inj siteSpan] at origin
  obtain ⟨renamable, describes⟩ := Module.describes_of_atOrigin scanned addressed.keyed plans.built
    listed held' (SourceFile.mem_items_of_type declared) rfl rfl origin
  -- The index refers from the receiver to the type.
  have passed : span ∈ file.passes :=
    resolver.covers_file.inside _ arrives (List.mem_singleton_self _)
  have refers : index.RefersAt file.path span target.id := by
    refine (Module.refersAt_iff plans.built walked
      (SourceFile.tidy_of_parse (scanned _ (owned held)))
      arrives (List.mem_singleton_self _) known).mpr
      ⟨declaredAt_eq_false loaded plans known renamable (owned held) passed, ?_⟩
    have seen : resolver.declared name = some site := Option.or_eq_some_iff.mpr (Or.inl found)
    have from' : resolver.symbols.atOrigin site.file.path site.nameSpan = some target := by
      rw [sitePath, Option.some.inj siteSpan]
      exact origin
    exact (Resolver.finds_unbound_iff home.proper rfl seen from').mpr ⟨home.unimported, rfl⟩
  constructor
  · intro edited
    obtain ⟨target', member, refers'⟩ := exists_refersAt loaded plans (owned held) passed
      ((plans.edits_iff ⟨name, file.path, some span, false⟩ rfl).mp edited)
    cases eq_of_refersAt loaded plans known (locate_spec plans.built plans.located member).1 refers
      refers'
    refine (plans.edits_iff (decl.naming other.path) rfl).mpr ((mem_spans plans.built).mpr
      ⟨target, member, Or.inl (Prod.ext describes.file.symm ?_)⟩)
    exact Option.some.inj describes.nameSpan
  · intro edited
    obtain ⟨target', member, describes', -⟩ := exists_target_of_naming loaded plans listed held'
      ⟨SourceFile.type_mem_standing declared, rfl, rfl, rfl⟩ edited
    have located := mem_targets_of_describes plans describes describes' known member
    obtain ⟨reference, referred, path, here, number⟩ := refers
    exact (plans.edits_iff ⟨name, file.path, some span, false⟩ rfl).mpr ((mem_spans plans.built).mpr
      ⟨target, located, Or.inr ⟨reference, referred, number, Prod.ext path here⟩⟩)

end RenameOptions

end GoRefactor
