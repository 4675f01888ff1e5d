import GoRefactor.Proofs.Transform.Namings
import GoRefactor.Proofs.Transform.Renamed

/-!
# Which declared names a rename edits

A plan edits the name of a declaration exactly if it is one of those to rename, and then no sibling
has the new name. An embedded field is none of them: its name is edited with that of its type.
-/

namespace GoRefactor

/-- The plan edits the place where the name is declared. -/
def RenamePlan.Edits (plan : RenamePlan) (naming : Naming) : Prop :=
  ∃ edit ∈ plan.edits, edit.file = naming.file ∧ naming.span = some edit.span

instance (plan : RenamePlan) (naming : Naming) : Decidable (plan.Edits naming) :=
  inferInstanceAs (Decidable (∃ edit ∈ plan.edits, _))

namespace RenameOptions

variable {options : RenameOptions} {module : Module} {index : Index} {targets : List Symbol}
  {plan : RenamePlan}

namespace Planned

variable (plans : options.Planned module index targets plan)

include plans

/-- Edited are the places of renamed declarations and of references to them. -/
theorem edits_iff (naming : Naming) {span : Span} (stands : naming.span = some span) :
    plan.Edits naming ↔ (naming.file, span) ∈ spans index targets := by
  rw [← plans.places, List.mem_map]
  constructor
  · rintro ⟨edit, member, path, here⟩
    cases here.symm.trans stands
    exact ⟨edit, member, Prod.ext path rfl⟩
  · rintro ⟨edit, member, same⟩
    obtain ⟨path, here⟩ := Prod.mk.inj same
    exact ⟨edit, member, path, stands.trans (congrArg some here.symm)⟩

/-- **Edited names become the new one**, and all others stay. -/
theorem after_eq (laid : module.LaidOut) (naming : Naming) :
    naming.after plan.edits = if plan.Edits naming then options.new else naming.name := by
  unfold Naming.after Edit.replacementAt
  cases stands : naming.span with
  | none =>
    refine (if_neg ?_).symm
    rintro ⟨edit, -, -, here⟩
    rw [stands] at here
    cases here
  | some span =>
    rw [Option.bind_some]
    cases found : (Edit.own plan.edits naming.file).find? fun edit =>
        !edit.span.isEmpty && edit.span == span with
    | none =>
      refine (if_neg ?_).symm
      rintro ⟨edit, member, path, here⟩
      rw [stands] at here
      cases here
      have listed : edit ∈ Edit.own plan.edits naming.file :=
        List.mem_filter.mpr ⟨member, beq_iff_eq.mpr path⟩
      have empty := List.find?_eq_none.mp found edit listed
      have filled := plans.filled laid member
      simp only [Span.isEmpty, beq_self_eq_true, Bool.and_true, beq_iff_eq,
        Bool.not_eq_true, Bool.not_eq_false'] at empty
      omega
    | some edit =>
      obtain ⟨member, here⟩ := List.mem_filter.mp (List.mem_of_find?_eq_some found)
      have same : edit.span = span := by
        have passed := List.find?_some found
        simp only [Bool.and_eq_true, beq_iff_eq] at passed
        exact passed.2
      rw [if_pos ⟨edit, member, eq_of_beq here, stands.trans (congrArg some same.symm)⟩]
      exact (plans.names member).1

end Planned

/-- A rename that is planned found no sibling with the new name. -/
theorem siblingNamed_eq_none (planned : (options.plan module).run = .ok (.ok plan))
    (plans : options.Planned module index targets plan) {target : Symbol}
    (member : target ∈ targets) : siblingNamed module index target options.new = none := by
  unfold RenameOptions.plan at planned
  rw [plans.valid] at planned
  simp only at planned
  split at planned
  · cases planned
  · obtain ⟨index', built, planned⟩ := Attempt.run_bind_eq_ok.mp planned
    cases plans.built.symm.trans built
    obtain ⟨targets', located, planned⟩ := Attempt.run_bind_eq_ok.mp planned
    cases plans.located.symm.trans located
    obtain ⟨_, checked, -⟩ := Attempt.run_bind_eq_ok.mp planned
    unfold checkSiblings at checked
    split at checked
    · cases checked
    · rename_i none
      exact List.findSome?_eq_none_iff.mp none target member

section Loaded

variable {path : String} {sources : List (String × String)}
  (loaded : Module.ofSources path sources = .ok module)
  (plans : options.Planned module index targets plan)

include loaded plans

/-- **What is declared where a plan edits is to be renamed.** No reference stands at a declared
name, embedded fields apart. -/
theorem exists_target {package : Package} (listed : package ∈ module.packageList)
    {file : SourceFile} (held : file ∈ package.files) {item : Item}
    (declared : item ∈ file.standing)
    {span : Span} (stands : item.nameSpan? = some span)
    (edited : (file.path, span) ∈ spans index targets) :
    ∃ target ∈ targets, target.Describes ⟨package, file, item⟩ := by
  have distinct := (Module.index_spec plans.built).1
  have inside : file ∈ module.sourceFiles := List.mem_flatMap.mpr ⟨package, listed, held⟩
  obtain ⟨unpassed, alone⟩ :=
    SourceFile.standing_alone (Module.scanned_of_ofSources loaded file inside) declared stands
  obtain ⟨target, member, same | ⟨reference, referred, -, same⟩⟩ :=
    (mem_spans plans.built).mp edited
  · obtain ⟨path, here⟩ := Prod.mk.inj same
    obtain ⟨known, -, renamable⟩ := locate_spec plans.built plans.located member
    have keyed : ∀ file ∈ module.sourceFiles, file.Keyed := fun file inside =>
      SourceFile.keyed_of_parse (Module.scanned_of_ofSources loaded file inside)
    obtain ⟨package', listed', file', held', item', declared', proper, describes⟩ :=
      Module.exists_item keyed plans.built known renamable
    have samePath : file.path = file'.path := path.trans describes.file
    cases Module.package_of_path distinct listed listed' held held' samePath
    have inside' : file' ∈ module.sourceFiles := List.mem_flatMap.mpr ⟨package, listed, held'⟩
    cases List.inj_on_of_nodup_map distinct inside inside' samePath
    have there : item'.nameSpan? = some span := describes.nameSpan.trans (congrArg some here.symm)
    cases alone item' (SourceFile.standing_of_mem_items declared' proper) there
    exact ⟨target, member, describes⟩
  · obtain ⟨path, rfl⟩ := Prod.mk.inj same
    obtain ⟨file', inside', path', passed⟩ := Module.passed_of_reference plans.built referred
    cases List.inj_on_of_nodup_map distinct inside inside' (path.symm.trans path'.symm)
    exact absurd passed unpassed

/-- A declared name that is edited is that of a declaration to rename. -/
theorem exists_target_of_naming {package : Package} (listed : package ∈ module.packageList)
    {file : SourceFile} (held : file ∈ package.files) {item : Item} {naming : Naming}
    (of : naming.Of file item) (edited : plan.Edits naming) :
    ∃ target ∈ targets, target.Describes ⟨package, file, item⟩ ∧ naming.name = options.old := by
  obtain ⟨edit, -, -, stands⟩ := id edited
  have place := (plans.edits_iff naming stands).mp edited
  rw [of.file] at place
  obtain ⟨target, member, describes⟩ :=
    exists_target loaded plans listed held of.standing (of.span.trans stands) place
  have called := (locate_spec plans.built plans.located member).2.1
  exact ⟨target, member, describes,
    (Option.some.inj (of.name.symm.trans describes.name)).trans called⟩

/-- The name of a field that is edited is the old one. -/
theorem name_of_field {file : SourceFile} (inside : file ∈ module.sourceFiles) {decl : TypeDecl}
    (held : decl ∈ file.types.values) {field : Field} (among : field ∈ decl.fields)
    (edited : plan.Edits ⟨field.name, file.path, some field.nameSpan, field.embedded⟩) :
    field.name = options.old := by
  obtain ⟨edit, member, path, here⟩ := edited
  obtain ⟨other, found, covers, -⟩ := plans.replaces member
  rw [path, Module.file?_path (Module.index_spec plans.built).1 inside] at found
  cases found
  rw [← Option.some.inj here] at covers
  obtain ⟨stream, read⟩ := (Module.scanned_of_ofSources loaded file inside).readFrom
  have text := read.text_eq ((SpanVisitor.sees_members (read.guarded.typeDecl held)).1 field among)
  rw [SourceFile.text, covers, Option.getD_some] at text
  exact text.symm

/-- What a file declares under the new name has a symbol. -/
theorem exists_rival {package : Package} (listed : package ∈ module.packageList)
    {file : SourceFile} (held : file ∈ package.files) {item : Item} (declared : item ∈ file.items)
    (named : item.name? = some options.new) :
    ∃ symbol ∈ index.symbols.toList, symbol.Describes ⟨package, file, item⟩ ∧
      symbol.name = options.new := by
  obtain ⟨symbol, known, describes⟩ := Module.exists_describes (fun file inside =>
    SourceFile.keyed_of_parse (Module.scanned_of_ofSources loaded file inside)) plans.built listed
    held declared
  exact ⟨symbol, known, describes, Option.some.inj (describes.name.symm.trans named)⟩

variable (planned : (options.plan module).run = .ok (.ok plan)) {package : Package}
  (listed : package ∈ module.packageList) {file file' : SourceFile} (held : file' ∈ package.files)
  {item rival : Item} {target : Symbol} (member : target ∈ targets)
  (describes : target.Describes ⟨package, file, item⟩)

include planned listed describes member

/-- **No package declares the new name** where something at its top level is renamed. -/
theorem declares_eq_false (outer : item.kind.isMember = false) (proper : item.kind ≠ .parameter) :
    package.declares options.new = false := by
  have found : module.package? target.package = some package := by
    rw [describes.package]
    exact (Module.addressed_of_ofSources loaded).package?_eq_some listed
  have none := siblingNamed_eq_none planned plans member
  unfold siblingNamed at none
  rw [found, describes.kind] at none
  simp only at none
  split at none
  · rename_i field
    rw [field] at outer
    cases outer
  · rename_i method
    rw [method] at outer
    cases outer
  · rename_i parameter
    exact absurd parameter proper
  · split at none
    · split at none <;> cases none
    · rename_i free
      simpa using free

include held

/-- **No member has the new name** where another member of the type is renamed. -/
theorem name?_ne_of_member (inner : item.kind.isMember = true) {typeName : String}
    (parent : item.parentType = some typeName) (declared : rival ∈ file'.items)
    (parent' : rival.parentType = some typeName) : rival.name? ≠ some options.new := by
  intro named
  obtain ⟨symbol, known, describes', called⟩ := exists_rival loaded plans listed held declared named
  have none := siblingNamed_eq_none planned plans member
  have filed := (Module.symbols_spec (Module.index_spec plans.built).2.1).1
  have kept : symbol ∈ index.symbols.membersOf (target.parentType.getD "") := by
    rw [SymbolTable.membersOf_eq_filter filed, List.mem_filter, describes.parentType, parent,
      describes'.parentType, parent']
    exact ⟨known, beq_self_eq_true _⟩
  have kind : item.kind = .field ∨ item.kind = .method := by
    generalize item.kind = kind at inner
    cases kind with
    | field => exact Or.inl rfl
    | method => exact Or.inr rfl
    | _ => cases inner
  have searched : ((index.symbols.membersOf (target.parentType.getD "")).find? fun symbol =>
      symbol.package == target.package && symbol.name == options.new) = Option.none := by
    unfold siblingNamed at none
    rw [describes.kind] at none
    rcases kind with field | method
    · rw [field] at none
      exact Option.map_eq_none_iff.mp none
    · rw [method] at none
      exact Option.map_eq_none_iff.mp none
  have missed := List.find?_eq_none.mp searched symbol kept
  rw [describes.package, describes'.package, called, beq_self_eq_true, beq_self_eq_true] at missed
  exact missed rfl

/-- **No parameter has the new name** where another one of the function is renamed. -/
theorem name?_ne_of_param (proper : item.kind = .parameter) (declared : rival ∈ file'.items)
    (proper' : rival.kind = .parameter) (owner : rival.container = item.container) :
    rival.name? ≠ some options.new := by
  intro named
  obtain ⟨symbol, known, describes', called⟩ := exists_rival loaded plans listed held declared named
  have none := siblingNamed_eq_none planned plans member
  have filed := (Module.symbols_spec (Module.index_spec plans.built).2.1).1
  have kept : symbol ∈ index.symbols.named options.new := by
    rw [SymbolTable.named_eq_filter filed, List.mem_filter, called]
    exact ⟨known, beq_self_eq_true _⟩
  unfold siblingNamed at none
  rw [describes.kind, proper] at none
  have missed := List.find?_eq_none.mp (Option.map_eq_none_iff.mp none) symbol kept
  rw [describes.package, describes'.package, describes.container, describes'.container, owner,
    describes'.kind, proper', beq_self_eq_true, beq_self_eq_true, beq_self_eq_true] at missed
  exact missed rfl

end Loaded

/-! ## Names side by side -/

/-- A name that can be declared is not blank. -/
theorem ne_blank_of_nameFlaw? {name : String} (valid : nameFlaw? name = none) : name ≠ "_" := by
  rintro rfl
  exact absurd valid (by decide)

section Unrivalled

variable {path : String} {sources : List (String × String)}
  (loaded : Module.ofSources path sources = .ok module)
  (plans : options.Planned module index targets plan)
  (planned : (options.plan module).run = .ok (.ok plan)) {package : Package}
  (listed : package ∈ module.packageList)

include loaded plans planned listed

/-- **At top level** an edited name is the old one, and nothing is declared under the new one. -/
theorem top_unrivalled {moved : Naming} (among : moved ∈ package.topNamings)
    (edited : plan.Edits moved) :
    moved.name = options.old ∧ ∀ rival ∈ package.topNamings, rival.name ≠ options.new := by
  have scanned {file : SourceFile} (held : file ∈ package.files) : file.Scanned :=
    Module.scanned_of_ofSources loaded file (List.mem_flatMap.mpr ⟨package, listed, held⟩)
  obtain ⟨file, held, inside⟩ := List.mem_flatMap.mp among
  obtain ⟨item, of, -, outer, proper⟩ :=
    SourceFile.exists_item_of_top (SourceFile.receiver_of_parse (scanned held)) inside
  obtain ⟨target, member, describes, old⟩ :=
    exists_target_of_naming loaded plans listed held of edited
  refine ⟨old, fun rival among' named => ?_⟩
  have free := declares_eq_false loaded plans planned listed member describes outer proper
  obtain ⟨file', held', inside'⟩ := List.mem_flatMap.mp among'
  have declares := SourceFile.declares_of_topNaming (SourceFile.keyed_of_parse (scanned held'))
    inside'
  rw [named] at declares
  have some : package.declares options.new = true := List.any_eq_true.mpr ⟨file', held', declares⟩
  rw [free] at some
  cases some

/-- **In a function** an edited parameter has the old name, and none has the new one. -/
theorem param_unrivalled {file : SourceFile} (held : file ∈ package.files) {decl : FuncDecl}
    (declared : decl ∈ file.allFunctions) {moved : Naming}
    (among : moved ∈ decl.paramNamings file.path) (edited : plan.Edits moved) :
    moved.name = options.old ∧ ∀ rival ∈ decl.paramNamings file.path, rival.name ≠ options.new := by
  obtain ⟨param, -, of⟩ := SourceFile.exists_item_of_param declared among
  obtain ⟨target, member, describes, old⟩ :=
    exists_target_of_naming loaded plans listed held of edited
  refine ⟨old, fun rival among' named => ?_⟩
  obtain ⟨param', inside', of'⟩ := SourceFile.exists_item_of_param declared among'
  obtain ⟨lexemes, laidOut⟩ := SourceFile.laidOut_of_parse
    (Module.scanned_of_ofSources loaded file (List.mem_flatMap.mpr ⟨package, listed, held⟩))
  have paired : param'.name.isSome = param'.nameSpan.isSome :=
    laidOut.paired.param declared inside'
  have placed : rival.span.isSome = true := by
    rw [← of'.span]
    change param'.nameSpan.isSome = true
    rw [← paired, show param'.name = some rival.name from of'.name]
    rfl
  refine name?_ne_of_param loaded plans planned listed held member describes rfl
    (of'.mem_items placed ?_) rfl rfl (of'.name.trans (congrArg some named))
  rw [named]
  exact ne_blank_of_nameFlaw? plans.valid

/-- **Among the members of a type** an edited name is the old one, and the new one is that of an
embedded field or meets one. -/
theorem member_unrivalled {file : SourceFile} (held : file ∈ package.files) {decl : TypeDecl}
    (declared : decl ∈ file.types.values) {moved : Naming}
    (among : moved ∈ package.memberNamings file decl) (edited : plan.Edits moved) :
    moved.name = options.old ∧ ∀ rival ∈ package.memberNamings file decl,
      rival.name = options.new → moved.embedded = true ∨ rival.embedded = true := by
  cases own : moved.embedded with
  | true =>
    refine ⟨?_, fun _ _ _ => Or.inl rfl⟩
    have inside : file ∈ module.sourceFiles := List.mem_flatMap.mpr ⟨package, listed, held⟩
    obtain ⟨field, member, rfl⟩ := SourceFile.exists_field_of_embedded among own
    exact name_of_field loaded plans inside declared member edited
  | false =>
    obtain ⟨home, held', item, of, -, inner, parent⟩ :=
      SourceFile.exists_item_of_member held declared among own
    obtain ⟨target, member, describes, old⟩ :=
      exists_target_of_naming loaded plans listed held' of edited
    refine ⟨old, fun rival among' named => Or.inr (by_contra fun proper => ?_)⟩
    obtain ⟨home', held'', item', of', placed, -, parent'⟩ :=
      SourceFile.exists_item_of_member held declared among' (Bool.eq_false_iff.mpr proper)
    refine name?_ne_of_member loaded plans planned listed held'' member describes inner parent
      (of'.mem_items placed ?_) parent' (of'.name.trans (congrArg some named))
    rw [named]
    exact ne_blank_of_nameFlaw? plans.valid

end Unrivalled

end RenameOptions

end GoRefactor
