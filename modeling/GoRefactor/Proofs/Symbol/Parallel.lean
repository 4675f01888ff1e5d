import GoRefactor.Proofs.Symbol.Comparison

/-!
# Two walks in parallel

Two walks over one file, with two tables of symbols that are comparable, go together. The one place
where they part is a member that ends a qualified name: with more symbols it may be settled at once,
where with fewer the walk goes on to the type of the base. The functions of the walk call each other
as the parts of a node follow each other, so this is proved of all of them together, by recursion on
the node.
-/

namespace GoRefactor

namespace Resolver

open Walking

variable {resolver : Resolver} {left right : SymbolTable} {Agree : List Use → List Use → Prop}
  {s t : Scopes}

/-! ## Steps in parallel -/

/-- What a table has for a declaration is noted at the use. -/
theorem emits_noteOrigin (table : SymbolTable) (file : String) (nameSpan span : Span)
    (kind : ReferenceKind) (scopes : Scopes) :
    Emits (fun _ => True) ((resolver.withTable table).noteOrigin file nameSpan span kind) scopes ()
      scopes (table.usesAt file nameSpan span kind) := by
  unfold noteOrigin SymbolTable.usesAt
  rw [withTable_symbols]
  cases table.atOrigin file nameSpan with
  | none => exact .pure () scopes
  | some symbol => exact .note trivial scopes

/-- Note a use of what a name is bound to, if it has a symbol. -/
def noteBound (bound : Option Nat) (span : Span) (kind : ReferenceKind) : Walking Unit :=
  match bound with
  | some symbol => Walking.note (.found symbol span kind)
  | none => return

/-- What a table has for the declaration that a name is bound to is noted at the use. -/
theorem emits_noteBound (table : SymbolTable) (file : String) (nameSpan span : Span)
    (kind : ReferenceKind) (scopes : Scopes) {bound : Option Nat}
    (same : bound = (table.atOrigin file nameSpan).map (·.id)) :
    Emits (fun _ => True) (noteBound bound span kind) scopes () scopes
      (table.usesAt file nameSpan span kind) := by
  rw [same]
  unfold SymbolTable.usesAt
  cases table.atOrigin file nameSpan with
  | none => exact .pure () scopes
  | some symbol => exact .note trivial scopes

/-- What candidates settle is noted at the use. -/
theorem emits_noteCandidates (name : String) (span : Span) (kind : ReferenceKind)
    (resolution : Resolution) (scopes : Scopes) :
    Emits (fun _ => True) (noteCandidates name span kind resolution) scopes () scopes
      (resolution.uses name span kind) := by
  cases resolution <;> exact .note trivial scopes

/-- The first stage of settling a member, for a base that is a name bound nowhere. -/
def unboundMember (resolver : Resolver) (qualifier : String) (qualifierSpan : Span) (name : String)
    (span : Span) (kind : ReferenceKind) : Walking Bool :=
  match resolver.scope.qualifier resolver.file qualifier with
  | .package path => do
    resolver.noteImport qualifier qualifierSpan
    match resolver.scope.lookup path name with
    | some site => resolver.noteSite site span kind
    | none => Walking.note .unresolved
    return true
  | .external => do
    resolver.noteImport qualifier qualifierSpan
    Walking.note .unresolved
    return true
  | .notImport =>
    if (resolver.declared qualifier).isSome || isPredeclared qualifier then return false
    else
      match resolver.qualifiedSuffix qualifier name with
      | .unresolved => return false
      | resolution => do
        noteCandidates name span kind resolution
        return true

/-- The first stage of settling a member of a bare name looks at the scopes first. -/
theorem qualifiedMember_ident (resolver : Resolver) (qualifier : String) (qualifierSpan : Span)
    (name : String) (span : Span) (kind : ReferenceKind) :
    resolver.qualifiedMember (.ident qualifier qualifierSpan) name span kind = (do
      if ((← get).scopes.find? qualifier).isSome then return false
      else resolver.unboundMember qualifier qualifierSpan name span kind) :=
  rfl

/-- A member of a bare name that is not imported is looked up among the qualified names, unless the
base is declared or predeclared. -/
theorem unboundMember_of_notImport (table : SymbolTable) {qualifier : String} (name : String)
    (qualifierSpan span : Span)
    (foreign : resolver.scope.qualifier resolver.file qualifier = .notImport)
    (kind : ReferenceKind) :
    (resolver.withTable table).unboundMember qualifier qualifierSpan name span kind =
      if ((resolver.declared qualifier).isSome || isPredeclared qualifier) = true then
        Pure.pure false
      else
        match (resolver.withTable table).qualifiedSuffix qualifier name with
        | .unresolved => Pure.pure false
        | resolution => do
          noteCandidates name span kind resolution
          return true := by
  unfold unboundMember
  change (match resolver.scope.qualifier resolver.file qualifier with
    | .package path => _
    | .external => _
    | .notImport => _) = _
  rw [foreign]
  rfl

/-- A pair that ends qualified names is settled on them. -/
theorem emits_unboundMember (table : SymbolTable) {qualifier : String} (name : String)
    (qualifierSpan span : Span)
    (foreign : resolver.scope.qualifier resolver.file qualifier = .notImport)
    (nameless : ((resolver.declared qualifier).isSome || isPredeclared qualifier) = false)
    (kind : ReferenceKind) (scopes : Scopes) :
    let resolution := (resolver.withTable table).qualifiedSuffix qualifier name
    Emits (fun _ => True)
      ((resolver.withTable table).unboundMember qualifier qualifierSpan name span kind) scopes
      (resolution != .unresolved) scopes
      (if resolution = .unresolved then [] else resolution.uses name span kind) := by
  intro resolution
  have step : (resolver.withTable table).unboundMember qualifier qualifierSpan name span kind =
      match resolution with
      | .unresolved => Pure.pure false
      | resolution => do
        noteCandidates name span kind resolution
        return true := by
    rw [unboundMember_of_notImport table name qualifierSpan span foreign, nameless]
    rfl
  rw [step]
  cases resolution with
  | unresolved => exact .pure false scopes
  | _ =>
    rw [if_neg (by simp), ← List.append_nil (Resolution.uses _ _ _ _)]
    exact (emits_noteCandidates name span kind _ scopes).bind (.pure true scopes)

/-- A member of a bare name that is bound, imported and declared nowhere is settled on the qualified
names that the pair ends. -/
theorem emits_qualifiedMember_ident (table : SymbolTable) {qualifier : String} (name : String)
    (qualifierSpan span : Span)
    (foreign : resolver.scope.qualifier resolver.file qualifier = .notImport)
    (nameless : ((resolver.declared qualifier).isSome || isPredeclared qualifier) = false)
    (kind : ReferenceKind) {scopes : Scopes} (unbound : scopes.find? qualifier = none) :
    let resolution := (resolver.withTable table).qualifiedSuffix qualifier name
    Emits (fun _ => True)
      ((resolver.withTable table).qualifiedMember (.ident qualifier qualifierSpan) name span kind)
      scopes (resolution != .unresolved) scopes
      (if resolution = .unresolved then [] else resolution.uses name span kind) := by
  rw [qualifiedMember_ident]
  refine .get (fun _ => rfl) ?_
  dsimp only
  rw [unbound]
  exact emits_unboundMember table name qualifierSpan span foreign nameless kind scopes

/-- A bare name that is bound and declared nowhere leaves nothing at its place. -/
theorem emits_visit_of_nameless (table : SymbolTable) {name : String} (span : Span)
    (nameless : ((resolver.declared name).isSome || isPredeclared name) = false) {scopes : Scopes}
    (unbound : scopes.find? name = none) :
    ∃ out, Emits (fun _ => True) ((resolver.withTable table).visit .read (.ident name span)) scopes
      () scopes out ∧ ∀ use ∈ out, use.span? = none := by
  obtain ⟨undeclared, unknown⟩ := Bool.or_eq_false_iff.mp nameless
  have absent : (resolver.withTable table).declared name = none := Option.not_isSome_iff_eq_none.mp
    fun given => Bool.false_ne_true (undeclared.symm.trans given)
  rw [visit]
  unfold Resolver.name
  split
  · exact ⟨[], .pure () scopes, List.forall_mem_nil _⟩
  · by_cases imported : ((resolver.withTable table).file.importNamed name).isSome = true
    · refine ⟨[], .get (fun _ => rfl) ?_, List.forall_mem_nil _⟩
      dsimp only
      rw [unbound]
      dsimp only
      rw [if_pos imported]
      exact .pure () scopes
    · refine ⟨[.unresolved], .get (fun _ => rfl) ?_, List.forall_mem_singleton.mpr rfl⟩
      dsimp only
      rw [unbound]
      dsimp only
      rw [if_neg imported, absent]
      dsimp only
      rw [unknown]
      exact .note trivial scopes

section Steps

variable (laws : resolver.Comparable left right Agree) (alike : resolver.Alike left right s t)
  {name : String} {span : Span} (mention : (name, span) ∈ resolver.file.mentions)
include laws alike

/-- Uses without candidates are noted together. -/
theorem together_unresolved : Together resolver left right Agree (Walking.note .unresolved)
    (Walking.note .unresolved) s t :=
  ⟨(), s, t, [.unresolved], [.unresolved], .note trivial s, .note trivial t, alike,
    laws.unresolved⟩

include mention

/-- A use of what is declared under a name. -/
theorem together_noteOrigin {file : String} {nameSpan : Span}
    (declares : resolver.Declares name file nameSpan) (kind : ReferenceKind) :
    Together resolver left right Agree
      ((resolver.withTable left).noteOrigin file nameSpan span kind)
      ((resolver.withTable right).noteOrigin file nameSpan span kind) s t :=
  ⟨(), s, t, _, _, emits_noteOrigin left file nameSpan span kind s,
    emits_noteOrigin right file nameSpan span kind t, alike, laws.origin kind mention declares⟩

/-- A use of an import is noted together. -/
theorem together_noteImport
    (imported : resolver.scope.qualifier resolver.file name ≠ .notImport) :
    Together resolver left right Agree ((resolver.withTable left).noteImport name span)
      ((resolver.withTable right).noteImport name span) s t := by
  unfold ModuleScope.qualifier at imported
  unfold noteImport
  rw [withTable_file, withTable_file]
  cases found : resolver.file.importNamed name with
  | none => exact .pure laws alike ()
  | some decl =>
    refine together_noteOrigin laws alike mention (.imported found ?_) .imported
    cases unbound : (decl.isDot || decl.isBlank) with
    | false => rfl
    | true => simp [found, unbound] at imported

/-- A use of a bare name is noted together. -/
theorem together_name (role : Role) :
    Together resolver left right Agree ((resolver.withTable left).name role name span)
      ((resolver.withTable right).name role name span) s t := by
  unfold Resolver.name
  split
  · exact .pure laws alike ()
  · refine .get (fun _ => rfl) (fun _ => rfl) ?_
    dsimp only
    rcases alike.find? name with ⟨absent, absent'⟩ | ⟨first, second, found, found', -, bound⟩
    · rw [absent, absent']
      rw [withTable_file, withTable_file, withTable_declared, withTable_declared]
      by_cases imported : (resolver.file.importNamed name).isSome = true
      · rw [if_pos imported, if_pos imported]
        exact .pure laws alike ()
      · rw [if_neg imported, if_neg imported]
        cases declared : resolver.declared name with
        | some site =>
          obtain ⟨path, found⟩ := ModuleScope.lookup_of_lookupInFile _ declared
          exact together_noteOrigin laws alike mention (.site found) role.nameKind
        | none =>
          dsimp only
          split
          · exact .pure laws alike ()
          · exact together_unresolved laws alike
    · rw [found, found']
      dsimp only
      rcases bound with ⟨absent, absent'⟩ | ⟨file, nameSpan, declares, one, other⟩
      · rw [absent, absent']
        exact .pure laws alike ()
      · have agree := laws.origin role.nameKind mention declares
        exact ⟨(), s, t, _, _, emits_noteBound left file nameSpan span role.nameKind s one,
          emits_noteBound right file nameSpan span role.nameKind t other, alike, agree⟩

/-- A use of a member that the type of the base has, or any field or method. -/
theorem together_typedMember (base : Node) (kind : ReferenceKind) :
    Together resolver left right Agree
      ((resolver.withTable left).typedMember base name span kind)
      ((resolver.withTable right).typedMember base name span kind) s t := by
  unfold typedMember
  refine .get (fun _ => rfl) (fun _ => rfl) ?_
  dsimp only
  have typed : (resolver.withTable left).baseType s base =
      (resolver.withTable right).baseType t base := baseType_congr alike.sameTypes base
  rw [typed]
  simp only [withTable_scope, withTable_symbols]
  split
  · rename_i member found
    obtain ⟨⟨path, typeName⟩, -, found⟩ := Option.bind_eq_some_iff.mp found
    exact together_noteOrigin laws alike mention (.member found) kind
  · exact ⟨(), s, t, _, _, emits_noteCandidates _ _ _ _ s, emits_noteCandidates _ _ _ _ t, alike,
      laws.member kind mention⟩

/-- A use of a field in the key of a struct literal. -/
theorem together_fieldKey (path typeName : String) :
    Together resolver left right Agree
      ((resolver.withTable left).fieldKey path typeName name span)
      ((resolver.withTable right).fieldKey path typeName name span) s t := by
  unfold fieldKey
  simp only [withTable_scope]
  cases found : resolver.scope.member path typeName name with
  | some member =>
    exact .bind laws (together_noteOrigin laws alike mention (.member found) .write)
      fun _ _ _ alike => .pure laws alike _
  | none =>
    exact .bind laws (together_unresolved laws alike) fun _ _ _ alike => .pure laws alike _

/-- A pair that ends a qualified name in the second table only. -/
def Late (resolver : Resolver) (left right : SymbolTable) (qualifier name : String) : Prop :=
  resolver.scope.qualifier resolver.file qualifier = .notImport ∧
    ((resolver.declared qualifier).isSome || isPredeclared qualifier) = false ∧
    (resolver.withTable left).qualifiedSuffix qualifier name = .unresolved ∧
    (resolver.withTable right).qualifiedSuffix qualifier name ≠ .unresolved

/-- A member of a name that is bound nowhere is settled the same way with both tables, unless it
is late. -/
theorem together_unboundMember {qualifier : String} {qualifierSpan : Span}
    (mention' : (qualifier, qualifierSpan) ∈ resolver.file.mentions) (kind : ReferenceKind) :
    Together resolver left right Agree
        ((resolver.withTable left).unboundMember qualifier qualifierSpan name span kind)
        ((resolver.withTable right).unboundMember qualifier qualifierSpan name span kind) s t ∨
      resolver.Late left right qualifier name := by
  cases kindOf : resolver.scope.qualifier resolver.file qualifier with
  | package path =>
    left
    have imported := together_noteImport laws alike mention' (by rw [kindOf]; exact nofun)
    have step (table : SymbolTable) :
        (resolver.withTable table).unboundMember qualifier qualifierSpan name span kind = (do
          (resolver.withTable table).noteImport qualifier qualifierSpan
          match resolver.scope.lookup path name with
          | some site => (resolver.withTable table).noteSite site span kind
          | none => Walking.note .unresolved
          return true) := by
      unfold unboundMember
      simp only [withTable, kindOf]
    rw [step, step]
    refine imported.bind laws fun _ s t alike => ?_
    cases found : resolver.scope.lookup path name with
    | some site =>
      exact .bind laws (together_noteOrigin laws alike mention (.site found) kind)
        fun _ _ _ alike => .pure laws alike true
    | none =>
      exact .bind laws (together_unresolved laws alike) fun _ _ _ alike => .pure laws alike true
  | external =>
    left
    have imported := together_noteImport laws alike mention' (by rw [kindOf]; exact nofun)
    have step (table : SymbolTable) :
        (resolver.withTable table).unboundMember qualifier qualifierSpan name span kind = (do
          (resolver.withTable table).noteImport qualifier qualifierSpan
          Walking.note .unresolved
          return true) := by
      unfold unboundMember
      simp only [withTable, kindOf]
    rw [step, step]
    exact imported.bind laws fun _ _ _ alike =>
      .bind laws (together_unresolved laws alike) fun _ _ _ alike => .pure laws alike true
  | notImport =>
    cases named : ((resolver.declared qualifier).isSome || isPredeclared qualifier) with
    | true =>
      left
      have step (table : SymbolTable) :
          (resolver.withTable table).unboundMember qualifier qualifierSpan name span kind =
            Pure.pure false := by
        rw [unboundMember_of_notImport table name qualifierSpan span kindOf, named]
        rfl
      rw [step, step]
      exact .pure laws alike false
    | false =>
      have first := emits_unboundMember left name qualifierSpan span kindOf named kind s
      have second := emits_unboundMember right name qualifierSpan span kindOf named kind t
      by_cases opened : (resolver.withTable left).qualifiedSuffix qualifier name = .unresolved
      · by_cases opened' : (resolver.withTable right).qualifiedSuffix qualifier name = .unresolved
        · left
          simp only [opened] at first
          simp only [opened'] at second
          exact ⟨false, s, t, [], [], first, second, alike, laws.nil⟩
        · exact Or.inr ⟨kindOf, named, opened, opened'⟩
      · left
        have settled : (resolver.withTable right).qualifiedSuffix qualifier name ≠ .unresolved :=
          fun opened' => opened (laws.settled opened')
        dsimp only at first second
        rw [if_neg opened, bne_iff_ne.mpr opened] at first
        rw [if_neg settled, bne_iff_ne.mpr settled] at second
        exact ⟨true, s, t, _, _, first, second, alike, laws.qualified kind mention opened⟩

/-- The first stage of settling a member goes the same way with both tables, unless the member is
late and its base bound nowhere. -/
theorem together_qualifiedMember (base : Node) (kind : ReferenceKind)
    (mentions : base.mentions ⊆ resolver.file.mentions) :
    Together resolver left right Agree
        ((resolver.withTable left).qualifiedMember base name span kind)
        ((resolver.withTable right).qualifiedMember base name span kind) s t ∨
      ∃ qualifier qualifierSpan, base = .ident qualifier qualifierSpan ∧
        s.find? qualifier = none ∧ t.find? qualifier = none ∧
        resolver.Late left right qualifier name := by
  cases base with
  | ident qualifier qualifierSpan =>
    have mention' : (qualifier, qualifierSpan) ∈ resolver.file.mentions := by
      rw [Node.mentions] at mentions
      exact mentions List.mem_cons_self
    rw [qualifiedMember_ident, qualifiedMember_ident]
    rcases alike.find? qualifier with ⟨absent, absent'⟩ | ⟨first, second, found, found', -, -⟩
    · rcases together_unboundMember laws alike mention mention' kind with together | late
      · refine Or.inl (.get (fun _ => rfl) (fun _ => rfl) ?_)
        dsimp only
        rw [absent, absent']
        exact together
      · exact Or.inr ⟨qualifier, qualifierSpan, rfl, absent, absent', late⟩
    · refine Or.inl (.get (fun _ => rfl) (fun _ => rfl) ?_)
      dsimp only
      rw [found, found']
      exact .pure laws alike false
  | _ => exact Or.inl (.pure laws alike false)

/-- Two visits of a member of a base go together if those of the base do. -/
theorem together_member {mode : VisitMode} (base : Node)
    (mentions : base.mentions ⊆ resolver.file.mentions)
    (visited : ∀ s t, resolver.Alike left right s t →
      Together resolver left right Agree ((resolver.withTable left).visit .read base)
        ((resolver.withTable right).visit .read base) s t) :
    Together resolver left right Agree
      ((resolver.withTable left).visit mode (.selector base name span))
      ((resolver.withTable right).visit mode (.selector base name span)) s t := by
  rw [visit, visit]
  rcases together_qualifiedMember laws alike mention base mode.role.memberKind mentions with
    together | ⟨qualifier, qualifierSpan, rfl, absent, absent', late⟩
  · refine together.bind laws fun settled s t alike => ?_
    cases settled with
    | true => exact .pure laws alike ()
    | false =>
      exact (visited s t alike).bind laws fun _ s t alike =>
        together_typedMember laws alike mention base mode.role.memberKind
  · obtain ⟨foreign, nameless, opened, settled⟩ := late
    have step (table : SymbolTable) {scopes : Scopes} (unbound : scopes.find? qualifier = none) :=
      emits_qualifiedMember_ident table name qualifierSpan span foreign nameless
        mode.role.memberKind unbound
    have first := step left absent
    have second := step right absent'
    dsimp only at first second
    rw [if_pos opened, opened] at first
    rw [if_neg settled, bne_iff_ne.mpr settled] at second
    obtain ⟨out, passed, nowhere⟩ :=
      emits_visit_of_nameless left qualifierSpan nameless absent
    obtain ⟨more, emits, lands⟩ :=
      (resolver.withTable left).touches_typedMember s (.ident qualifier qualifierSpan) name span
        mode.role.memberKind
    refine ⟨(), s, t, [] ++ (out ++ more), _ ++ [],
      first.bind (passed.bind ⟨emits.run, fun _ _ => trivial⟩), second.bind (.pure () t), alike, ?_⟩
    rw [List.append_nil, List.nil_append]
    refine laws.late _ mention opened settled _ (List.forall_mem_append.mpr ⟨?_, ?_⟩)
    · intro use member place stands
      rw [nowhere use member] at stands
      cases stands
    · intro use member place stands
      exact List.mem_singleton.mp (lands.mem_spans use member place stands)

end Steps

/-! ## Nodes in parallel -/

section Nodes

variable (laws : resolver.Comparable left right Agree)
include laws

/-- Binding the same local names keeps two scopes alike. -/
theorem together_bindNames (types : List (Option GoType)) (names : List Binding) {s t : Scopes}
    (alike : resolver.Alike left right s t) :
    Together resolver left right Agree (bindNames types names) (bindNames types names) s t := by
  induction names generalizing types s t with
  | nil => exact .pure laws alike ()
  | cons binding rest ih =>
    exact .bind laws (.bindName laws alike _ _) fun _ _ _ alike => ih types.tail alike

/-- Parameters of a function literal are bound. -/
theorem together_bindParams (params : List Param) {s t : Scopes}
    (alike : resolver.Alike left right s t) :
    Together resolver left right Agree ((resolver.withTable left).bindParams params)
      ((resolver.withTable right).bindParams params) s t := by
  induction params generalizing s t with
  | nil => exact .pure laws alike ()
  | cons param rest ih =>
    unfold bindParams
    cases param.name with
    | none => exact ih alike
    | some name => exact .bind laws (.bindName laws alike _ _) fun _ _ _ alike => ih alike

mutual

/-- Two visits of a node go together. -/
theorem together_visit (mode : VisitMode) : (node : Node) →
    node.mentions ⊆ resolver.file.mentions → ∀ s t, resolver.Alike left right s t →
    Together resolver left right Agree ((resolver.withTable left).visit mode node)
      ((resolver.withTable right).visit mode node) s t
  | .ident name span, within, s, t, alike => by
    rw [visit, visit]
    rw [Node.mentions] at within
    exact together_name laws alike (within List.mem_cons_self) mode.role
  | .selector base name span, within, s, t, alike => by
    rw [Node.mentions, List.append_subset] at within
    exact together_member laws alike (within.2 List.mem_cons_self) base within.1
      (together_visit .read base within.1)
  | .call func args, within, s, t, alike => by
    rw [Node.mentions, List.append_subset] at within
    rw [visit, visit]
    refine .get (fun _ => rfl) (fun _ => rfl) ?_
    have same : (resolver.withTable left).takesType s func =
        (resolver.withTable right).takesType t func := takesType_congr alike.sameTypes func
    dsimp only
    rw [same]
    cases (resolver.withTable right).takesType t func with
    | true => exact together_visitFirst .type .read args within.2 s t alike
    | false =>
      exact .bind laws (together_visit (.use .call) func within.1 s t alike) fun _ =>
        together_visitAll .read args within.2
  | .composite none elems, within, s, t, alike => by
    rw [Node.mentions, List.append_subset] at within
    rw [visit, visit]
    exact together_visitAll _ elems within.2 s t alike
  | .composite (some type) elems, within, s, t, alike => by
    rw [Node.mentions, Node.mentionsOption, List.append_subset] at within
    rw [visit, visit]
    exact .bind laws (together_visit .type type within.1 s t alike) fun _ =>
      together_visitAll _ elems within.2
  | .keyValue key value, within, s, t, alike => by
    rw [Node.mentions, List.append_subset] at within
    have inTurn (mode mode' : VisitMode) := Together.bind laws
      (together_visit mode key within.1 s t alike) fun _ => together_visit mode' value within.2
    cases mode with
    | entry type =>
      rw [visit, visit]
      cases found : fieldOfKey? type key with
      | none => exact inTurn _ _
      | some field =>
        obtain ⟨path, typeName, name, span⟩ := field
        cases eq_ident_of_fieldOfKey? found
        rw [Node.mentions] at within
        exact .bind laws
          (together_fieldKey laws alike (within.1 List.mem_cons_self) path typeName)
          fun valueType => together_visit (.element valueType) value within.2
    | _ =>
      rw [visit, visit]
      · exact inTurn .read .read
      · rintro _ ⟨⟩
      · rintro _ ⟨⟩
  | .unary op operand, within, s, t, alike => by
    rw [Node.mentions] at within
    rw [visit, visit]
    exact together_visit _ operand within s t alike
  | .binary first second, within, s, t, alike => by
    rw [Node.mentions, List.append_subset] at within
    rw [visit, visit]
    exact .bind laws (together_visit .read first within.1 s t alike) fun _ =>
      together_visit .read second within.2
  | .index base indices, within, s, t, alike => by
    rw [Node.mentions, List.append_subset] at within
    rw [visit, visit]
    exact .bind laws (together_visit _ base within.1 s t alike) fun _ =>
      together_visitAll _ indices within.2
  | .typeAssert base type, within, s, t, alike => by
    rw [Node.mentions, List.append_subset] at within
    rw [visit, visit]
    exact .bind laws (together_visit .read base within.1 s t alike) fun _ =>
      together_visitOption .type type within.2
  | .typeExpr form parts, within, s, t, alike => by
    rw [Node.mentions] at within
    rw [visit, visit]
    exact together_visitFirst _ .type parts within s t alike
  | .literal _, _, s, t, alike => by
    rw [visit, visit]
    exact .pure laws alike ()
  | .funcLit params results body, within, s, t, alike => by
    rw [Node.mentions, List.append_subset, List.append_subset] at within
    rw [visit, visit]
    exact .bind laws (together_visitParams none params within.1 s t alike) fun _ s t alike =>
      .bind laws (together_visitParams none results within.2.1 s t alike) fun _ s t alike =>
        .enclosed (.bind laws (together_bindParams laws params (.cons .nil alike))
          fun _ _ _ alike => .bind laws (together_bindParams laws results alike) fun _ =>
            together_visit .read body within.2.2)
  | .block _ stmts, within, s, t, alike => by
    rw [Node.mentions] at within
    rw [visit, visit]
    exact .enclosed (together_visitAll .read stmts within _ _ (.cons .nil alike))
  | .define names type values, within, s, t, alike => by
    rw [Node.mentions, List.append_subset] at within
    rw [visit, visit]
    refine .bind laws (together_visitOption .type type within.1 s t alike) fun _ s t alike =>
      .bind laws (together_visitAll .read values within.2 s t alike) fun _ s t alike =>
        .get (fun _ => rfl) (fun _ => rfl) ?_
    dsimp only
    rw [definedTypes_congr alike.sameTypes]
    exact together_bindNames laws _ names alike
  | .assign targets values, within, s, t, alike => by
    rw [Node.mentions, List.append_subset] at within
    rw [visit, visit]
    exact .bind laws (together_visitAll _ targets within.1 s t alike) fun _ =>
      together_visitAll .read values within.2
  | .branch header body alt, within, s, t, alike => by
    rw [Node.mentions, List.append_subset, List.append_subset] at within
    rw [visit, visit]
    exact .enclosed (.bind laws (together_visitAll .read header within.1 _ _ (.cons .nil alike))
      fun _ s t alike => .bind laws (together_visit .read body within.2.1 s t alike) fun _ =>
        together_visitOption .read alt within.2.2)
  | .list items, within, s, t, alike => by
    rw [Node.mentions] at within
    rw [visit, visit]
    exact together_visitAll .read items within s t alike

/-- Two visits of nodes in order go together. -/
theorem together_visitAll (mode : VisitMode) : (nodes : List Node) →
    Node.mentionsAll nodes ⊆ resolver.file.mentions → ∀ s t, resolver.Alike left right s t →
    Together resolver left right Agree ((resolver.withTable left).visitAll mode nodes)
      ((resolver.withTable right).visitAll mode nodes) s t
  | [], _, s, t, alike => .pure laws alike ()
  | head :: rest, within, s, t, alike => by
    rw [Node.mentionsAll, List.append_subset] at within
    rw [visitAll, visitAll]
    exact .bind laws (together_visit mode head within.1 s t alike) fun _ =>
      together_visitAll mode rest within.2

/-- The same for nodes of which the first is visited in another mode. -/
theorem together_visitFirst (first others : VisitMode) : (nodes : List Node) →
    Node.mentionsAll nodes ⊆ resolver.file.mentions → ∀ s t, resolver.Alike left right s t →
    Together resolver left right Agree ((resolver.withTable left).visitFirst first others nodes)
      ((resolver.withTable right).visitFirst first others nodes) s t
  | [], _, s, t, alike => .pure laws alike ()
  | head :: rest, within, s, t, alike => by
    rw [Node.mentionsAll, List.append_subset] at within
    rw [visitFirst, visitFirst]
    exact .bind laws (together_visit first head within.1 s t alike) fun _ =>
      together_visitAll others rest within.2

/-- The same for a node that may be left out. -/
theorem together_visitOption (mode : VisitMode) : (node : Option Node) →
    Node.mentionsOption node ⊆ resolver.file.mentions → ∀ s t, resolver.Alike left right s t →
    Together resolver left right Agree ((resolver.withTable left).visitOption mode node)
      ((resolver.withTable right).visitOption mode node) s t
  | none, _, s, t, alike => .pure laws alike ()
  | some node, within, s, t, alike => by
    rw [Node.mentionsOption] at within
    rw [visitOption, visitOption]
    exact together_visit mode node within s t alike

/-- Two visits of the types of parameters go together. -/
theorem together_visitParams (previous : Option Span) : (params : List Param) →
    Node.mentionsParams params ⊆ resolver.file.mentions → ∀ s t, resolver.Alike left right s t →
    Together resolver left right Agree ((resolver.withTable left).visitParams previous params)
      ((resolver.withTable right).visitParams previous params) s t
  | [], _, s, t, alike => .pure laws alike ()
  | ⟨_, _, typeSpan, typeNode⟩ :: rest, within, s, t, alike => by
    rw [Node.mentionsParams, List.append_subset] at within
    rw [visitParams, visitParams]
    split
    · exact together_visitParams (some typeSpan) rest within.2 s t alike
    · exact .bind laws (together_visit .type typeNode within.1 s t alike) fun _ =>
        together_visitParams (some typeSpan) rest within.2

end

end Nodes

/-! ## Declarations in parallel -/

section Declarations

/-- The names bound in the body of a function. -/
theorem alike_funcFrame {decl : FuncDecl}
    (held : decl ∈ resolver.file.functions.values ++ resolver.file.methods) :
    resolver.Alike left right [(resolver.withTable left).funcFrame decl]
      [(resolver.withTable right).funcFrame decl] := by
  refine .cons (List.rel_reverse ?_) .nil
  have same : List.Forall₂ (fun param param' => param = param' ∧ param ∈ decl.allParams)
      decl.allParams decl.allParams := List.forall₂_same.mpr fun param listed => ⟨rfl, listed⟩
  refine List.rel_filterMap ?_ same
  rintro param _ ⟨rfl, listed⟩
  dsimp only
  cases named : param.name with
  | none => exact .none
  | some name =>
    cases stands : param.nameSpan with
    | none => exact .none
    | some nameSpan =>
      exact .some ⟨rfl, rfl, Or.inr ⟨_, nameSpan, .param held listed named stands, rfl, rfl⟩⟩

variable (laws : resolver.Comparable left right Agree)
include laws

/-- Two visits of a function or method go together. -/
theorem together_visitFunc {decl : FuncDecl}
    (held : decl ∈ resolver.file.functions.values ++ resolver.file.methods)
    (within : decl.mentions ⊆ resolver.file.mentions) :
    Together resolver left right Agree ((resolver.withTable left).visitFunc decl)
      ((resolver.withTable right).visitFunc decl) [] [] := by
  rw [FuncDecl.mentions, List.append_subset, List.append_subset, List.append_subset] at within
  unfold visitFunc
  refine .bind laws (together_visitAll laws .type _ within.1 _ _ .nil) fun _ s t alike =>
    .bind laws (together_visitParams laws none _ within.2.1 s t alike) fun _ s t alike =>
    .bind laws (together_visitParams laws none _ within.2.2.1 s t alike) fun _ s t alike =>
    .pushing (together_visitOption laws .read _ within.2.2.2 _ _ ?_)
  exact List.rel_append (alike_funcFrame held) alike

/-- Two visits of the methods of an interface go together. -/
theorem together_methods (methods : List InterfaceMethod)
    (within : methods.flatMap InterfaceMethod.mentions ⊆ resolver.file.mentions) (s t : Scopes)
    (alike : resolver.Alike left right s t) :
    Together resolver left right Agree
      (forIn methods () fun method _ => do
        (resolver.withTable left).visitParams none method.params
        (resolver.withTable left).visitParams none method.results
        return .yield ())
      (forIn methods () fun method _ => do
        (resolver.withTable right).visitParams none method.params
        (resolver.withTable right).visitParams none method.results
        return .yield ()) s t := by
  induction methods generalizing s t with
  | nil => exact .pure laws alike ()
  | cons head rest ih =>
    rw [List.flatMap_cons, List.append_subset, InterfaceMethod.mentions,
      List.append_subset] at within
    simp only [List.forIn_cons, bind_assoc, pure_bind]
    exact .bind laws (together_visitParams laws none _ within.1.1 s t alike) fun _ s t alike =>
      .bind laws (together_visitParams laws none _ within.1.2 s t alike) fun _ => ih within.2

/-- Two visits of a declared type go together. -/
theorem together_visitType {decl : TypeDecl}
    (within : decl.shape.mentions ⊆ resolver.file.mentions) :
    Together resolver left right Agree ((resolver.withTable left).visitType decl)
      ((resolver.withTable right).visitType decl) [] [] := by
  unfold visitType
  cases shape : decl.shape with
  | struct fields =>
    rw [shape] at within
    exact together_visitAll laws .type _ within _ _ .nil
  | interface methods embeds =>
    rw [shape, TypeShape.mentions, List.append_subset] at within
    exact .bind laws (together_methods laws methods within.1 [] [] .nil) fun _ =>
      together_visitAll laws .type embeds within.2
  | other underlying =>
    rw [shape] at within
    exact together_visit laws .type underlying within _ _ .nil

/-- Two visits of a variable or constant go together. -/
theorem together_visitValue {decl : ValueDecl}
    (within : decl.mentions ⊆ resolver.file.mentions) :
    Together resolver left right Agree ((resolver.withTable left).visitValue decl)
      ((resolver.withTable right).visitValue decl) [] [] := by
  rw [ValueDecl.mentions, List.append_subset] at within
  exact .bind laws (together_visitOption laws .type _ within.1 _ _ .nil) fun _ =>
    together_visitOption laws .read _ within.2

omit laws

/-- The uses of two walks that go together agree. -/
theorem usesOf_together {first second : Walking Unit}
    (together : Together resolver left right Agree first second [] []) :
    Agree (usesOf first) (usesOf second) := by
  obtain ⟨_, s, t, out, out', emits, emits', -, agree⟩ := together
  have listed {action : Walking Unit} {after : Scopes} {out : List Use}
      (emits : Emits (fun _ => True) action [] () after out) : usesOf action = out := by
    unfold usesOf
    rw [emits.run, List.append_nil, List.reverse_reverse]
  rw [listed emits, listed emits']
  exact agree

include laws

/-- The declarations of a file, walked with both tables, note uses that agree. -/
theorem topUses_together :
    List.Forall₂ (fun first second => first.1 = second.1 ∧ first.2.1 = second.2.1 ∧
      Agree first.2.2 second.2.2)
      (resolver.withTable left).topUses (resolver.withTable right).topUses := by
  have inside {mentions : List Mention} (listed : mentions ∈ resolver.file.declMentions) :
      mentions ⊆ resolver.file.mentions := fun _ member => List.mem_flatten.mpr ⟨_, listed, member⟩
  refine List.rel_append (List.rel_append ?_ ?_) ?_
  · rw [List.forall₂_map_left_iff, List.forall₂_map_right_iff]
    refine List.forall₂_same.mpr fun decl held => ⟨rfl, rfl, usesOf_together
      (together_visitType laws (inside ?_))⟩
    exact List.mem_append_left _ (List.mem_append_left _ (List.mem_map_of_mem held))
  · rw [List.forall₂_map_left_iff, List.forall₂_map_right_iff]
    refine List.forall₂_same.mpr fun decl held => ⟨rfl, rfl, usesOf_together
      (together_visitFunc laws held (inside ?_))⟩
    exact List.mem_append_left _ (List.mem_append_right _ (List.mem_map_of_mem held))
  · rw [List.forall₂_map_left_iff, List.forall₂_map_right_iff]
    refine List.forall₂_same.mpr fun decl held => ⟨rfl, rfl, usesOf_together
      (together_visitValue laws (inside ?_))⟩
    exact List.mem_append_right _ (List.mem_map_of_mem held)

/-- **Two walks over a file, in the order of the text.** Declaration by declaration, in the same
function, the uses agree. -/
theorem inOrder_together :
    List.Forall₂ (fun first second => first.2.1 = second.2.1 ∧ Agree first.2.2 second.2.2)
      (inTextOrder Prod.fst (resolver.withTable left).topUses)
      (inTextOrder Prod.fst (resolver.withTable right).topUses) :=
  (forall₂_inTextOrder (fun _ _ one => one.1) (topUses_together laws)).imp fun _ _ one => one.2

end Declarations

end Resolver

end GoRefactor
