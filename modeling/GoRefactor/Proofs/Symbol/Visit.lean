import GoRefactor.Proofs.Attempt
import GoRefactor.Proofs.Sort
import GoRefactor.Proofs.Symbol.Walk

/-!
# What a visit notes

Every visit of a node is a walk over the names that the node passes. The functions of the walk
call each other as the parts of a node follow each other, so this is proved of all of them
together, by recursion on the node.
-/

namespace GoRefactor

/-- What a use is ambiguous between: at least two of the candidates, each once. -/
theorem Resolution.several_of_ofCandidates {ids candidates : List Nat}
    (several : Resolution.ofCandidates ids = .ambiguous candidates) :
    candidates.Pairwise (· < ·) ∧ 2 ≤ candidates.length ∧ ∀ id ∈ candidates, id ∈ ids := by
  have strict := pairwise_dropRepeats_sortBy ids
  have among (id : Nat) (member : id ∈ dropRepeats (sortBy (fun left right => left ≤ right) ids)) :
      id ∈ ids := by
    rwa [mem_dropRepeats, mem_sortBy] at member
  unfold ofCandidates at several
  match sorted : dropRepeats (sortBy (fun left right => left ≤ right) ids) with
  | [] =>
    rw [sorted] at several
    cases several
  | [symbol] =>
    rw [sorted] at several
    cases several
  | first :: second :: rest =>
    rw [sorted] at several strict among
    cases several
    exact ⟨strict, Nat.le_add_left 2 rest.length, among⟩

namespace Resolver

open Walking

/-- What every noted use is like: an ambiguous one has several candidates, in order, and all of
them have its name. -/
def Genuine (resolver : Resolver) : Use → Prop
  | .ambiguous name _ candidates =>
    candidates.Pairwise (· < ·) ∧ 2 ≤ candidates.length ∧
      ∀ id ∈ candidates, ∃ symbol ∈ resolver.symbols.named name, symbol.id = id
  | _ => True

variable (resolver : Resolver)

section Steps

variable {span : Span} {kind : ReferenceKind} (scopes : Scopes)

/-- What is declared at a span is noted at the use, if it has a symbol. -/
theorem touches_noteOrigin (file : String) (nameSpan : Span) :
    Touches resolver.Genuine (resolver.noteOrigin file nameSpan span kind) scopes () [span] := by
  unfold noteOrigin
  cases resolver.symbols.atOrigin file nameSpan with
  | none => exact .pure () scopes _
  | some symbol => exact .note rfl trivial scopes

/-- An import is noted at its use. -/
theorem touches_noteImport (qualifier : String) :
    Touches resolver.Genuine (resolver.noteImport qualifier span) scopes () [span] := by
  unfold noteImport
  cases resolver.file.importNamed qualifier with
  | none => exact .pure () scopes _
  | some decl => exact resolver.touches_noteOrigin scopes _ _

/-- What symbols with a name settle is noted at its use. -/
theorem touches_noteCandidates (name : String) (eligible : Symbol → Bool) :
    Touches resolver.Genuine
      (noteCandidates name span kind
        (.ofCandidates (((resolver.symbols.named name).filter eligible).map (·.id))))
      scopes () [span] := by
  cases settled : Resolution.ofCandidates
      (((resolver.symbols.named name).filter eligible).map (·.id)) with
  | resolved symbol => exact .note rfl trivial scopes
  | ambiguous candidates =>
    obtain ⟨strict, several, among⟩ := Resolution.several_of_ofCandidates settled
    refine .note rfl ⟨strict, several, fun id member => ?_⟩ scopes
    obtain ⟨symbol, inside, same⟩ := List.mem_map.mp (among id member)
    exact ⟨symbol, (List.mem_filter.mp inside).1, same⟩
  | unresolved => exact .unresolved trivial scopes _

/-- A bare name is noted where it stands. -/
theorem touches_name (role : Role) (name : String) :
    Touches resolver.Genuine (resolver.name role name span) scopes () [span] := by
  unfold Resolver.name
  split
  · exact .pure () scopes _
  · refine .get (fun _ => rfl) ?_
    dsimp only
    split
    · rename_i bound _
      cases bound.symbol with
      | none => exact .pure () scopes _
      | some symbol => exact .note rfl trivial scopes
    · split
      · exact .pure () scopes _
      · cases resolver.declared name with
        | some site => exact resolver.touches_noteOrigin scopes _ _
        | none =>
          dsimp only
          split
          · exact .pure () scopes _
          · exact .unresolved trivial scopes _

/-- A member is noted where it stands. -/
theorem touches_typedMember (base : Node) (name : String) (span : Span) (kind : ReferenceKind) :
    Touches resolver.Genuine (resolver.typedMember base name span kind) scopes () [span] := by
  unfold typedMember
  refine .get (fun _ => rfl) ?_
  dsimp only
  split
  · exact resolver.touches_noteOrigin scopes _ _
  · exact resolver.touches_noteCandidates scopes _ _

/-- The key of a struct literal is noted where it stands. -/
theorem touches_fieldKey (path typeName name : String) (span : Span) :
    ∃ type,
      Touches resolver.Genuine (resolver.fieldKey path typeName name span) scopes type [span] := by
  unfold fieldKey
  cases resolver.scope.member path typeName name with
  | some member =>
    exact ⟨member.type, (resolver.touches_noteOrigin scopes _ _).bind (.pure _ _ [])
      (List.disjoint_nil_right _)⟩
  | none =>
    refine ⟨none, ?_⟩
    change Touches resolver.Genuine _ scopes none ([span] ++ [])
    exact .bind (.unresolved trivial scopes [span]) (.pure none scopes [])
      (List.disjoint_nil_right _)

end Steps

/-- A step may settle a member of a base at once, and then notes uses at their places; if it does
not, it notes nothing. -/
def Settles (fair : Use → Prop) (action : Walking Bool) (scopes : Scopes) (base : Node)
    (span : Span) : Prop :=
  ∃ settled out, Emits fair action scopes settled scopes out ∧ (settled = false → out = []) ∧
    Lands out (base.passes ++ [span]) (base.passes.Disjoint [span])

namespace Settles

variable {fair : Use → Prop} {scopes : Scopes} {base : Node} {span : Span}

/-- A look-up that answers no and notes nothing settles any span. -/
theorem no : Settles fair (pure false) scopes base span :=
  ⟨false, [], .pure false scopes, fun _ => rfl, .nil _ _⟩

/-- What is noted at the member alone settles it. -/
theorem yes {action : Walking Unit} (touches : Touches fair action scopes () [span]) :
    Settles fair (action >>= fun _ => pure true) scopes base span := by
  obtain ⟨out, emits, lands⟩ := touches
  refine ⟨true, out ++ [], emits.bind (.pure true scopes), fun no => (by cases no), ?_⟩
  rw [List.append_nil]
  exact lands.omitting.weaken fun apart => ⟨trivial, apart⟩

/-- What is noted at the qualifier comes before what is noted at the member. -/
theorem both {qualifier : String} {qualifierSpan : Span} {first : Walking Unit}
    {second : Walking Bool} (touches : Touches fair first scopes () [qualifierSpan])
    (settles : ∃ action, Touches fair action scopes () [span] ∧
      second = action >>= fun _ => pure true) :
    Settles fair (first >>= fun _ => second) scopes (.ident qualifier qualifierSpan) span := by
  obtain ⟨out, emits, lands⟩ := touches
  obtain ⟨action, ⟨more, emits', lands'⟩, rfl⟩ := settles
  refine ⟨true, out ++ (more ++ []), emits.bind (emits'.bind (.pure true scopes)),
    fun no => (by cases no), ?_⟩
  rw [List.append_nil]
  exact (lands.append lands').weaken fun apart => ⟨trivial, trivial, apart⟩

/-- What follows the state settles as it does for the scopes. -/
theorem get {following : Walk → Walking Bool}
    (same : ∀ uses, following ⟨scopes, uses⟩ = following ⟨scopes, []⟩)
    (settles : Settles fair (following ⟨scopes, []⟩) scopes base span) :
    Settles fair (MonadState.get >>= following) scopes base span := by
  obtain ⟨settled, out, emits, kept⟩ := settles
  exact ⟨settled, out, .get same emits, kept⟩

end Settles

/-- The first stage settles a member or leaves it to the next one. -/
theorem settles_qualifiedMember (scopes : Scopes) (base : Node) (name : String) (span : Span)
    (kind : ReferenceKind) :
    Settles resolver.Genuine (resolver.qualifiedMember base name span kind) scopes base span := by
  unfold qualifiedMember
  split
  · rename_i qualifier qualifierSpan
    refine .get (fun _ => rfl) ?_
    dsimp only
    split
    · exact .no
    · split
      · refine .both (resolver.touches_noteImport scopes qualifier) ?_
        split
        · exact ⟨_, resolver.touches_noteOrigin scopes _ _, rfl⟩
        · exact ⟨_, .unresolved trivial scopes _, rfl⟩
      · exact .both (resolver.touches_noteImport scopes qualifier)
          ⟨_, .unresolved trivial scopes _, rfl⟩
      · split
        · exact .no
        · split
          · exact .no
          · exact .yes (resolver.touches_noteCandidates scopes name _)
  · exact .no

/-- A key that names a field is an identifier. -/
theorem eq_ident_of_fieldOfKey? {type : Option GoType} {key : Node} {path typeName name : String}
    {span : Span} (found : fieldOfKey? type key = some (path, typeName, name, span)) :
    key = .ident name span := by
  cases key with
  | ident name' span' =>
    obtain ⟨⟨path', typeName'⟩, -, same⟩ := Option.map_eq_some_iff.mp found
    cases same
    rfl
  | _ => cases found

section Names

/-- Local names are bound in the innermost scope. -/
theorem binds_bindNames (types : List (Option GoType)) (names : List Binding) (scopes : Scopes) :
    Binds resolver.Genuine (bindNames types names) scopes := by
  induction names generalizing types scopes with
  | nil => exact .pure scopes
  | cons binding rest ih => exact .bind (.bindName _ _ scopes) (ih types.tail)

/-- Parameters are bound in the innermost scope. -/
theorem binds_bindParams (params : List Param) (scopes : Scopes) :
    Binds resolver.Genuine (resolver.bindParams params) scopes := by
  induction params generalizing scopes with
  | nil => exact .pure scopes
  | cons param rest ih =>
    unfold bindParams
    cases param.name with
    | none => exact ih scopes
    | some name => exact .bind (.bindName _ _ scopes) ih

end Names

section Nodes

variable {resolver}

/-- Nodes that are all visited in one mode. -/
theorem visitFirst_same (mode : VisitMode) (nodes : List Node) :
    resolver.visitFirst mode mode nodes = resolver.visitAll mode nodes := by
  cases nodes with
  | nil => rfl
  | cons head rest => rfl

/-- Parts that keep the scopes, of which those with a name in common are the same. -/
theorem emits_visitAll {mode : VisitMode} {scopes : Scopes} {parts : List Node}
    (each : ∀ part ∈ parts, ∃ out,
      Emits resolver.Genuine (resolver.visit mode part) scopes () scopes out ∧
        Uniform Use.span? out part.passes)
    (kin : parts.Pairwise Node.Kin) :
    ∃ out, Emits resolver.Genuine (resolver.visitAll mode parts) scopes () scopes out ∧
      Uniform Use.span? out (Node.passesAll parts) := by
  let noted (part : Node) : List Use := ((resolver.visit mode part).run ⟨scopes, []⟩).2.uses.reverse
  have emits (part : Node) (member : part ∈ parts) :
      Emits resolver.Genuine (resolver.visit mode part) scopes () scopes (noted part) ∧
        Uniform Use.span? (noted part) part.passes := by
    obtain ⟨out, emits, uniform⟩ := each part member
    have same : noted part = out := by
      simp only [noted, emits.run [], List.append_nil, List.reverse_reverse]
    rw [same]
    exact ⟨emits, uniform⟩
  refine ⟨parts.flatMap noted, ?_, ?_⟩
  · clear each kin
    induction parts with
    | nil => exact .pure () scopes
    | cons head rest ih =>
      exact (emits head List.mem_cons_self).1.bind
        (ih fun part member => emits part (List.mem_cons_of_mem _ member))
  · rw [Node.passesAll_eq_flatMap]
    exact .flatMap (fun part member => (emits part member).2) kin

mutual

/-- A visit is a walk over the names of the node. -/
theorem walks_visit (mode : VisitMode) : (node : Node) → ∀ scopes,
    Walks resolver.Genuine (resolver.visit mode node) scopes node.passes node.plain node.Tidy
  | .ident name span, scopes => by
    rw [visit, Node.passes]
    exact (resolver.touches_name scopes mode.role name).walks _ _
  | .selector base name span, scopes => by
    rw [visit, Node.passes, Node.plain, Node.Tidy]
    obtain ⟨settled, out, emits, nothing, lands⟩ :=
      resolver.settles_qualifiedMember scopes base name span mode.role.memberKind
    cases settled with
    | true =>
      refine ⟨scopes, out ++ [], emits.bind (.pure () scopes), rfl, fun _ => rfl, ?_⟩
      rw [List.append_nil]
      exact lands.weaken And.right
    | false =>
      cases nothing rfl
      have member (scopes : Scopes) :=
        (resolver.touches_typedMember scopes base name span mode.role.memberKind).walks true True
      obtain ⟨after, more, emits', outer, same, lands'⟩ :=
        (walks_visit .read base scopes).bind member
      refine ⟨after, more, emits.bind emits', outer, fun plain => same (by rw [plain]; rfl), ?_⟩
      exact lands'.weaken fun tidy => ⟨tidy.1, trivial, tidy.2⟩
  | .call func args, scopes => by
    rw [visit, Node.passes, Node.plain, Node.Tidy]
    refine .get (fun _ => rfl) ?_
    dsimp only
    split
    · exact (walks_visitFirst .type .read args scopes).omitting.weaken
        (fun both => (Bool.and_eq_true_iff.mp both).2) And.right
    · exact .bind (walks_visit (.use .call) func scopes) (walks_visitAll .read args)
  | .composite none elems, scopes => by
    rw [visit, Node.passes, Node.plain, Node.Tidy]
    exact (walks_visitAll _ elems scopes).weaken (fun plain => plain) (fun tidy => tidy.2.1)
  | .composite (some type) elems, scopes => by
    rw [visit, Node.passes, Node.plain, Node.Tidy]
    exact .bind (walks_visit .type type scopes) (walks_visitAll _ elems)
  | .keyValue key value, scopes => by
    rw [Node.passes, Node.plain, Node.Tidy]
    have inTurn (mode mode' : VisitMode) :=
      Walks.bind (walks_visit mode key scopes) (walks_visit mode' value)
    cases mode with
    | entry type =>
      rw [visit]
      cases found : fieldOfKey? type key with
      | none => exact inTurn _ _
      | some field =>
        obtain ⟨path, typeName, name, span⟩ := field
        obtain ⟨valueType, touches⟩ := resolver.touches_fieldKey scopes path typeName name span
        cases eq_ident_of_fieldOfKey? found
        refine (Walks.behind touches (walks_visit (.element valueType) value scopes)).weaken ?_ ?_
        · exact fun plain => plain
        · exact fun tidy => ⟨tidy.2.1, tidy.2.2⟩
    | _ =>
      rw [visit]
      · exact inTurn .read .read
      · rintro _ ⟨⟩
  | .unary op operand, scopes => by
    rw [visit, Node.passes, Node.plain, Node.Tidy]
    exact walks_visit _ operand scopes
  | .binary left right, scopes => by
    rw [visit, Node.passes, Node.plain, Node.Tidy]
    exact .bind (walks_visit .read left scopes) (walks_visit .read right)
  | .index base indices, scopes => by
    rw [visit, Node.passes, Node.plain, Node.Tidy]
    exact .bind (walks_visit _ base scopes) (walks_visitAll _ indices)
  | .typeAssert base type, scopes => by
    rw [visit, Node.passes, Node.plain, Node.Tidy]
    exact .bind (walks_visit .read base scopes) (walks_visitOption .type type)
  | .typeExpr form parts, scopes => by
    rw [visit, Node.passes, Node.plain, Node.Tidy]
    have inTurn := walks_visitFirst (if form == .array then .read else .type) .type parts scopes
    by_cases array : form = .array
    · rw [if_pos array]
      exact inTurn
    · -- Every part is visited as a type, and in the same scopes.
      rw [if_neg array]
      refine inTurn.because fun tidy => ?_
      obtain ⟨each, kin⟩ := Node.tidyParts_iff.mp tidy
      rw [if_neg (fun same => array (beq_iff_eq.mp same)), visitFirst_same]
      refine ⟨scopes, emits_visitAll (fun part member => ?_) kin⟩
      obtain ⟨after, out, emits, -, same, lands⟩ := walks_each .type parts part member scopes
      rw [same (each part member).2] at emits
      exact ⟨out, emits, lands.uniform (each part member).1⟩
  | .literal _, scopes => by
    rw [visit, Node.passes]
    exact .pure scopes
  | .funcLit params results body, scopes => by
    rw [visit, Node.passes, Node.plain, Node.Tidy]
    have inner (scopes : Scopes) : Walks resolver.Genuine _ scopes body.passes true body.Tidy :=
      .enclosed (.bound (resolver.binds_bindParams params ([] :: scopes)) fun scopes =>
        .bound (resolver.binds_bindParams results scopes) (walks_visit .read body))
    refine (Walks.bind (walks_visitParams none params scopes) fun scopes =>
      Walks.bind (walks_visitParams none results scopes) inner).weaken ?_ ?_
    · intro plain
      rwa [Bool.and_true]
    · rintro ⟨params, results, body, apart, apart'⟩
      exact ⟨params, ⟨results, body, apart'⟩, apart⟩
  | .block _ stmts, scopes => by
    rw [visit, Node.passes, Node.plain, Node.Tidy]
    exact .enclosed (walks_visitAll .read stmts _)
  | .define names type values, scopes => by
    rw [visit, Node.passes, Node.plain, Node.Tidy]
    exact (Walks.bind (walks_visitOption .type type scopes) fun scopes =>
      (walks_visitAll .read values scopes).binding fun scopes =>
        .get (fun _ => rfl) (resolver.binds_bindNames _ names scopes)).weaken (fun no => nomatch no)
          (fun tidy => tidy)
  | .assign targets values, scopes => by
    rw [visit, Node.passes, Node.plain, Node.Tidy]
    exact .bind (walks_visitAll _ targets scopes) (walks_visitAll .read values)
  | .branch header body alt, scopes => by
    rw [visit, Node.passes, Node.plain, Node.Tidy]
    refine .enclosed ((Walks.bind (walks_visitAll .read header _) fun scopes =>
      Walks.bind (walks_visit .read body scopes) (walks_visitOption .read alt)).weaken
        (fun no => no) ?_)
    rintro ⟨header, body, alt, apart, apart'⟩
    exact ⟨header, ⟨body, alt, apart'⟩, apart⟩
  | .list items, scopes => by
    rw [visit, Node.passes, Node.plain, Node.Tidy]
    exact walks_visitAll .read items scopes

/-- A walk over nodes in order passes the spans of each. -/
theorem walks_visitAll (mode : VisitMode) : (nodes : List Node) → ∀ scopes,
    Walks resolver.Genuine (resolver.visitAll mode nodes) scopes (Node.passesAll nodes)
      (Node.plainAll nodes) (Node.TidyAll nodes)
  | [], scopes => .pure scopes
  | head :: rest, scopes => by
    rw [visitAll, Node.passesAll, Node.plainAll, Node.TidyAll]
    exact .bind (walks_visit mode head scopes) (walks_visitAll mode rest)

/-- Each of some nodes is walked by itself. -/
theorem walks_each (mode : VisitMode) : (nodes : List Node) → ∀ node ∈ nodes, ∀ scopes,
    Walks resolver.Genuine (resolver.visit mode node) scopes node.passes node.plain node.Tidy
  | [] => fun _ member => nomatch member
  | head :: rest => List.forall_mem_cons.mpr ⟨walks_visit mode head, walks_each mode rest⟩

/-- The same for nodes of which the first is visited in another mode. -/
theorem walks_visitFirst (first others : VisitMode) : (nodes : List Node) → ∀ scopes,
    Walks resolver.Genuine (resolver.visitFirst first others nodes) scopes (Node.passesAll nodes)
      (Node.plainAll nodes) (Node.TidyAll nodes)
  | [], scopes => .pure scopes
  | head :: rest, scopes => by
    rw [visitFirst, Node.passesAll, Node.plainAll, Node.TidyAll]
    exact .bind (walks_visit first head scopes) (walks_visitAll others rest)

/-- The same for a node that may be left out. -/
theorem walks_visitOption (mode : VisitMode) : (node : Option Node) → ∀ scopes,
    Walks resolver.Genuine (resolver.visitOption mode node) scopes (Node.passesOption node)
      (Node.plainOption node) (Node.TidyOption node)
  | none, scopes => .pure scopes
  | some node, scopes => by
    rw [visitOption, Node.passesOption, Node.plainOption, Node.TidyOption]
    exact walks_visit mode node scopes

/-- A walk over the types of parameters passes the spans of each. -/
theorem walks_visitParams (previous : Option Span) : (params : List Param) → ∀ scopes,
    Walks resolver.Genuine (resolver.visitParams previous params) scopes
      (Node.passesParams previous params) (Node.plainParams params)
      (Node.TidyParams previous params)
  | [], scopes => .pure scopes
  | ⟨_, _, typeSpan, typeNode⟩ :: rest, scopes => by
    rw [visitParams, Node.passesParams, Node.plainParams, Node.TidyParams]
    split
    · refine (walks_visitParams (some typeSpan) rest scopes).weaken ?_ And.right
      exact fun plain => (Bool.and_eq_true_iff.mp plain).2
    · refine (Walks.bind (walks_visit .type typeNode scopes)
        (walks_visitParams (some typeSpan) rest)).weaken (fun plain => plain) ?_
      rintro ⟨⟨tidy, apart⟩, others⟩
      exact ⟨tidy, others, apart⟩

end

end Nodes

section Declarations

variable {resolver}

/-- A walk over the methods of an interface passes the spans of each. -/
theorem walks_methods (methods : List InterfaceMethod) (scopes : Scopes) :
    Walks resolver.Genuine
      (forIn methods () fun method _ => do
        resolver.visitParams none method.params
        resolver.visitParams none method.results
        return .yield ())
      scopes (methods.flatMap InterfaceMethod.passes) false
      ((∀ method ∈ methods, method.Tidy) ∧
        methods.Pairwise fun left right => left.passes.Disjoint right.passes) := by
  induction methods generalizing scopes with
  | nil => exact .pure scopes
  | cons head rest ih =>
    simp only [List.forIn_cons, bind_assoc, pure_bind, List.flatMap_cons, InterfaceMethod.passes,
      List.append_assoc]
    refine (Walks.bind (walks_visitParams none head.params scopes) fun scopes =>
      Walks.bind (walks_visitParams none head.results scopes) ih).weaken
        (fun no => (by cases no)) ?_
    rintro ⟨each, apart⟩
    obtain ⟨⟨params, results, between⟩, others⟩ := List.forall_mem_cons.mp each
    obtain ⟨first, later⟩ := List.pairwise_cons.mp apart
    have beyond : head.passes.Disjoint (rest.flatMap InterfaceMethod.passes) := by
      intro span here there
      obtain ⟨method, member, inside⟩ := List.mem_flatMap.mp there
      exact first method member here inside
    obtain ⟨beyondParams, beyondResults⟩ := List.disjoint_append_left.mp beyond
    exact ⟨params, ⟨results, ⟨others, later⟩, beyondResults⟩,
      List.disjoint_append_right.mpr ⟨between, beyondParams⟩⟩

/-- The uses of a declaration, walked from no scopes, are genuine and land at its spans. -/
theorem usesOf_of_notes {walk : Walking Unit} {spans : List Span} {tidy : Prop}
    (notes : Notes resolver.Genuine walk [] spans tidy) :
    (∀ use ∈ usesOf walk, resolver.Genuine use) ∧ Lands (usesOf walk) spans tidy := by
  obtain ⟨after, out, emits, lands⟩ := notes
  have same : usesOf walk = out := by
    unfold usesOf
    rw [emits.run, List.append_nil, List.reverse_reverse]
  rw [same]
  exact ⟨emits.uses_fair, lands⟩

/-- A declared type is walked. -/
theorem notes_visitType (decl : TypeDecl) :
    Notes resolver.Genuine (resolver.visitType decl) [] decl.shape.passes decl.shape.Tidy := by
  unfold visitType
  cases decl.shape with
  | struct fields =>
    -- The fields are visited as the parts of a struct type are.
    have parts : Walks resolver.Genuine _ [] _ _ _ :=
      walks_visit .type (.typeExpr .struct (fields.map (·.typeNode))) []
    rw [visit, if_neg (by decide), visitFirst_same] at parts
    exact parts.notes
  | interface methods embeds =>
    refine ((walks_methods methods []).bind (walks_visitAll .type embeds)).weaken
      (fun no => no) ?_ |>.notes
    exact fun tidy => ⟨⟨tidy.1, tidy.2.1⟩, tidy.2.2.1, tidy.2.2.2⟩
  | other underlying => exact (walks_visit .type underlying []).notes

/-- A function or method is walked. -/
theorem notes_visitFunc (decl : FuncDecl) :
    Notes resolver.Genuine (resolver.visitFunc decl) [] decl.passes decl.Tidy := by
  refine ((walks_visitAll .type _ []).before fun scopes =>
    (walks_visitParams none decl.params scopes).before fun scopes =>
    (walks_visitParams none decl.results scopes).before fun scopes =>
    .pushing (walks_visitOption .read decl.body _).notes).weaken ?_
  rintro ⟨receiver, params, results, body, apart, apart', apart''⟩
  exact ⟨receiver, ⟨params, ⟨results, body, apart''⟩, apart'⟩, apart⟩

/-- A variable or constant is walked. -/
theorem notes_visitValue (decl : ValueDecl) :
    Notes resolver.Genuine (resolver.visitValue decl) [] decl.passes decl.Tidy :=
  ((walks_visitOption .type decl.typeNode []).bind (walks_visitOption .read decl.value)).notes

/-- The uses of each declaration of a file are genuine and land at the spans that it passes. -/
theorem topUses_spec (resolver : Resolver) :
    (∀ top ∈ resolver.topUses, ∀ use ∈ top.2.2, resolver.Genuine use) ∧
      List.Forall₂ (fun top spans => Lands top.2.2 spans resolver.file.Tidy)
        resolver.topUses resolver.file.declPasses := by
  unfold topUses SourceFile.declPasses
  constructor
  · rw [List.forall_mem_append, List.forall_mem_append]
    refine ⟨⟨?_, ?_⟩, ?_⟩
    · exact List.forall_mem_map.mpr fun decl _ => (usesOf_of_notes (notes_visitType decl)).1
    · exact List.forall_mem_map.mpr fun decl _ => (usesOf_of_notes (notes_visitFunc decl)).1
    · exact List.forall_mem_map.mpr fun decl _ => (usesOf_of_notes (notes_visitValue decl)).1
  · refine List.rel_append (List.rel_append ?_ ?_) ?_
    · rw [List.forall₂_map_left_iff, List.forall₂_map_right_iff, List.forall₂_same]
      exact fun decl member => (usesOf_of_notes (notes_visitType decl)).2.weaken fun tidy =>
        tidy.types decl member
    · rw [List.forall₂_map_left_iff, List.forall₂_map_right_iff, List.forall₂_same]
      exact fun decl member => (usesOf_of_notes (notes_visitFunc decl)).2.weaken fun tidy =>
        tidy.functions decl member
    · rw [List.forall₂_map_left_iff, List.forall₂_map_right_iff, List.forall₂_same]
      exact fun decl member => (usesOf_of_notes (notes_visitValue decl)).2.weaken fun tidy =>
        tidy.values decl member

/-- Every ambiguous use of a file is one. -/
theorem genuine_of_mem_fileUses {entry : String × Use} (member : entry ∈ resolver.fileUses) :
    resolver.Genuine entry.2 := by
  obtain ⟨top, listed, inside⟩ := List.mem_flatMap.mp member
  obtain ⟨use, noted, rfl⟩ := List.mem_map.mp inside
  exact resolver.topUses_spec.1 top ((mem_sortBy _ _ _).mp listed) use noted

/-- Every use of a file stands where the file passes a name. -/
theorem mem_passes_of_mem_fileUses {entry : String × Use} (member : entry ∈ resolver.fileUses)
    {span : Span} (stands : entry.2.span? = some span) : span ∈ resolver.file.passes := by
  obtain ⟨top, listed, inside⟩ := List.mem_flatMap.mp member
  obtain ⟨use, noted, rfl⟩ := List.mem_map.mp inside
  obtain ⟨spans, passed, lands⟩ := exists_mem_of_forall₂ resolver.topUses_spec.2.flip
    ((mem_sortBy _ _ _).mp listed)
  exact List.mem_flatten.mpr ⟨spans, passed, lands.mem_spans use noted span stands⟩

/-- **Uses of a file are uniform.** Where a tidy file passes a name, its walk notes nothing, or one
use as often as it passes the name. -/
theorem uniform_fileUses (tidy : resolver.file.Tidy) :
    Uniform (fun entry => entry.2.span?) resolver.fileUses resolver.file.passes := by
  have inOrder : Uniform (fun entry => entry.2.span?)
      (resolver.topUses.flatMap fun top => top.2.2.map fun use => (top.2.1, use))
      resolver.file.passes := by
    refine .flatten (List.forall₂_map_left_iff.mpr ?_) tidy.apart
    exact resolver.topUses_spec.2.imp fun top spans lands => (lands.uniform tidy).map fun _ => rfl
  exact inOrder.perm (List.Perm.flatMap_right _ (sortBy_perm _ _))

end Declarations

end Resolver

end GoRefactor
