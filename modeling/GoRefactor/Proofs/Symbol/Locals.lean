import GoRefactor.Proofs.Symbol.Reached

/-!
# Names that a walk leaves bound

A walk over a statement leaves the names of its local declarations bound in the innermost scope,
and those of declarations in blocks and branches within it not. What was bound around it stays
bound. So whether a name is bound behind some statements can be read off the statements.
-/

namespace GoRefactor

mutual

/-- Names that a walk over a node leaves bound. -/
def Node.locals : Node → List String
  | .ident _ _ | .literal _ | .block _ _ | .branch _ _ _ => []
  | .selector base _ _ => base.locals
  | .call func args => func.locals ++ Node.localsAll args
  | .composite type elems => Node.localsOption type ++ Node.localsAll elems
  | .keyValue key value => key.locals ++ value.locals
  | .unary _ operand => operand.locals
  | .binary left right => left.locals ++ right.locals
  | .index base indices => base.locals ++ Node.localsAll indices
  | .typeAssert base type => base.locals ++ Node.localsOption type
  | .typeExpr _ parts => Node.localsAll parts
  | .funcLit params results _ => Node.localsParams none params ++ Node.localsParams none results
  | .define names type values =>
    Node.localsOption type ++ (Node.localsAll values ++ names.map (·.name))
  | .assign targets values => Node.localsAll targets ++ Node.localsAll values
  | .list items => Node.localsAll items

/-- The same for nodes in order. -/
def Node.localsAll : List Node → List String
  | [] => []
  | head :: rest => head.locals ++ Node.localsAll rest

/-- The same for a node that may be left out. -/
def Node.localsOption : Option Node → List String
  | none => []
  | some node => node.locals

/-- The same for the types of parameters: neighbours that share a type pass it once. -/
def Node.localsParams (previous : Option Span) : List Param → List String
  | [] => []
  | ⟨_, _, typeSpan, typeNode⟩ :: rest =>
    (if previous == some typeSpan then [] else typeNode.locals) ++
      Node.localsParams (some typeSpan) rest

end

namespace Resolver

open Walking

variable {resolver : Resolver}

/-- In front of a frame, exactly some names are bound, the blank one apart, and none of them to a
symbol. -/
structure Binders (bound : List (String × Local)) (names : List String) : Prop where
  /-- The names that are bound. -/
  mem_iff : ∀ name, name ∈ bound.map Prod.fst ↔ name ∈ names ∧ name ≠ "_"
  /-- They have no symbols. -/
  bare : ∀ entry ∈ bound, entry.2.symbol = none

namespace Binders

variable {bound bound' : List (String × Local)} {names names' : List String}

/-- Nothing is bound for no names. -/
theorem nil : Binders [] [] := ⟨fun name => by simp, List.forall_mem_nil _⟩

/-- Names are bound in front of others. -/
theorem append (first : Binders bound names) (second : Binders bound' names') :
    Binders (bound' ++ bound) (names ++ names') := by
  refine ⟨fun name => ?_, List.forall_mem_append.mpr ⟨second.bare, first.bare⟩⟩
  rw [List.map_append, List.mem_append, first.mem_iff, second.mem_iff, List.mem_append]
  tauto

/-- A name that is bound in front of a frame is found there, without a symbol, and another name is
found as before. -/
theorem lookup_append {bound : List (String × Local)}
    (bare : ∀ entry ∈ bound, entry.2.symbol = none) (frame : List (String × Local))
    (name : String) :
    (name ∈ bound.map Prod.fst ∧
        ∃ found, (bound ++ frame).lookup name = some found ∧ found.symbol = none) ∨
      name ∉ bound.map Prod.fst ∧ (bound ++ frame).lookup name = frame.lookup name := by
  induction bound with
  | nil => exact Or.inr ⟨List.not_mem_nil, rfl⟩
  | cons head rest ih =>
    obtain ⟨key, found⟩ := head
    obtain ⟨here, others⟩ := List.forall_mem_cons.mp bare
    rw [List.cons_append, List.lookup_cons, List.map_cons, List.mem_cons]
    by_cases met : name = key
    · rw [beq_iff_eq.mpr met]
      exact Or.inl ⟨Or.inl met, found, rfl, here⟩
    · rw [beq_eq_false_iff_ne.mpr met]
      rcases ih others with ⟨inside, given⟩ | ⟨outside, same⟩
      · exact Or.inl ⟨Or.inr inside, given⟩
      · exact Or.inr ⟨fun either => either.elim met outside, same⟩

/-- **What is found behind names that are bound**: something without a symbol for each of them, and
for another name what was found before. -/
theorem find? (binders : Binders bound names) (frame : List (String × Local)) (outer : Scopes)
    (name : String) :
    ((name ∈ names ∧ name ≠ "_") ∧
        ∃ found, Scopes.find? ((bound ++ frame) :: outer) name = some found ∧
          found.symbol = none) ∨
      ¬(name ∈ names ∧ name ≠ "_") ∧
        Scopes.find? ((bound ++ frame) :: outer) name = Scopes.find? (frame :: outer) name := by
  unfold Scopes.find?
  rw [List.findSome?_cons, List.findSome?_cons, ← binders.mem_iff]
  rcases lookup_append binders.bare frame name with ⟨inside, found, given, bare⟩ | ⟨outside, same⟩
  · rw [given]
    exact Or.inl ⟨inside, found, rfl, bare⟩
  · rw [same]
    exact Or.inr ⟨outside, rfl⟩

end Binders

/-- From scopes with an innermost frame, a walk leaves exactly some names bound in the frame, and
keeps what was bound. -/
def Leaves (resolver : Resolver) (action : Walking Unit) (frame : List (String × Local))
    (outer : Scopes) (names : List String) : Prop :=
  ∃ bound uses, Emits resolver.Genuine action (frame :: outer) () ((bound ++ frame) :: outer) uses ∧
    Binders bound names

namespace Leaves

variable {action following : Walking Unit} {frame : List (String × Local)} {outer : Scopes}
  {names names' : List String}

/-- A walk over nothing binds no names. -/
theorem pure (frame : List (String × Local)) (outer : Scopes) :
    Leaves resolver (Pure.pure ()) frame outer [] :=
  ⟨[], [], .pure () _, .nil⟩

/-- A step leaves nothing bound. -/
theorem touching {spans : List Span}
    (touches : Touches resolver.Genuine action (frame :: outer) () spans) :
    Leaves resolver action frame outer [] := by
  obtain ⟨uses, emits, -⟩ := touches
  exact ⟨[], uses, emits, .nil⟩

/-- Two walks in a row bind the names of the first one and those of the second. -/
theorem bind (first : Leaves resolver action frame outer names)
    (second : ∀ frame, Leaves resolver following frame outer names') :
    Leaves resolver (action >>= fun _ => following) frame outer (names ++ names') := by
  obtain ⟨bound, uses, emits, binders⟩ := first
  obtain ⟨bound', uses', emits', binders'⟩ := second (bound ++ frame)
  rw [← List.append_assoc] at emits'
  exact ⟨bound' ++ bound, _, emits.bind emits', binders.append binders'⟩

/-- A walk behind a step that binds nothing binds the names that it binds alone. -/
theorem behind {α : Type} {step : Walking α} {value : α} {after : α → Walking Unit}
    {spans : List Span} (first : Touches resolver.Genuine step (frame :: outer) value spans)
    (second : Leaves resolver (after value) frame outer names) :
    Leaves resolver (step >>= after) frame outer names := by
  obtain ⟨uses, emits, -⟩ := first
  obtain ⟨bound, uses', emits', binders⟩ := second
  exact ⟨bound, _, emits.bind emits', binders⟩

/-- What follows the state leaves what it leaves for the scopes. -/
theorem get {after : Walk → Walking Unit}
    (same : ∀ uses, after ⟨frame :: outer, uses⟩ = after ⟨frame :: outer, []⟩)
    (leaves : Leaves resolver (after ⟨frame :: outer, []⟩) frame outer names) :
    Leaves resolver (MonadState.get >>= after) frame outer names := by
  obtain ⟨bound, uses, emits, binders⟩ := leaves
  exact ⟨bound, uses, .get same emits, binders⟩

/-- A walk that restores the scopes leaves nothing bound. -/
theorem restoring {spans : List Span} {tidy : Prop}
    (walks : Walks resolver.Genuine action (frame :: outer) spans true tidy) :
    Leaves resolver action frame outer [] := by
  obtain ⟨after, uses, emits, -, restores, -⟩ := walks
  rw [restores rfl] at emits
  exact ⟨[], uses, emits, .nil⟩

/-- A name is bound, unless it is blank. -/
theorem bindName (name : String) (type : Option GoType) (frame : List (String × Local))
    (outer : Scopes) :
    Leaves resolver (Walking.bindName name ⟨none, type⟩) frame outer [name] := by
  by_cases blank : name = "_"
  · refine ⟨[], [], ⟨fun uses => ?_, List.forall_mem_nil _⟩, fun other => ?_, List.forall_mem_nil _⟩
    · change ((), if (name == "_") = true then _ else _) = _
      rw [if_pos (beq_iff_eq.mpr blank)]
      rfl
    · rw [List.map_nil, List.mem_singleton, blank]
      exact ⟨fun none => absurd none List.not_mem_nil, fun both => absurd both.1 both.2⟩
  · refine ⟨[(name, ⟨none, type⟩)], [], ⟨fun uses => ?_, List.forall_mem_nil _⟩, fun other => ?_,
      List.forall_mem_singleton.mpr rfl⟩
    · change ((), if (name == "_") = true then _ else _) = _
      rw [if_neg (by rwa [beq_iff_eq])]
      rfl
    · rw [List.map_singleton, List.mem_singleton]
      exact ⟨fun same => ⟨same, same ▸ blank⟩, And.left⟩

/-- Names are bound in order. -/
theorem bindNames (types : List (Option GoType)) (names : List Binding)
    (frame : List (String × Local)) (outer : Scopes) :
    Leaves resolver (Resolver.bindNames types names) frame outer (names.map (·.name)) := by
  induction names generalizing types frame with
  | nil => exact .pure frame outer
  | cons binding rest ih => exact .bind (.bindName _ _ frame outer) (ih types.tail)

end Leaves

/-- Only the member of a name can be settled at once. -/
theorem locals_of_settled {base : Node} {name : String} {span : Span} {kind : ReferenceKind}
    {scopes after : Scopes} {uses : List Use}
    (settled : Emits resolver.Genuine (resolver.qualifiedMember base name span kind) scopes true
      after uses) : base.locals = [] := by
  cases base with
  | ident => rfl
  | _ => exact absurd (congrArg Prod.fst (settled.run [])) Bool.false_ne_true

/-- A builtin whose first argument is a type is called by its name. -/
theorem locals_of_takesType {scopes : Scopes} {func : Node}
    (takes : resolver.takesType scopes func = true) : func.locals = [] := by
  cases func with
  | ident => rfl
  | _ => cases takes

mutual

/-- A visit leaves the names of a node bound. -/
theorem leaves_visit (mode : VisitMode) : (node : Node) → ∀ frame outer,
    Leaves resolver (resolver.visit mode node) frame outer node.locals
  | .ident name span, frame, outer => by
    rw [visit, Node.locals]
    exact .touching (resolver.touches_name _ mode.role name)
  | .selector base name span, frame, outer => by
    rw [visit, Node.locals]
    obtain ⟨settled, uses, emits, -, lands⟩ :=
      resolver.settles_qualifiedMember (frame :: outer) base name span mode.role.memberKind
    cases settled with
    | true =>
      rw [locals_of_settled emits]
      exact ⟨[], _, emits.bind (.pure () _), .nil⟩
    | false =>
      have member (frame : List (String × Local)) : Leaves resolver _ frame outer [] := .touching
        (resolver.touches_typedMember _ base name span mode.role.memberKind)
      obtain ⟨bound, uses', emits', binders⟩ := (leaves_visit .read base frame outer).bind member
      rw [List.append_nil] at binders
      exact ⟨bound, _, emits.bind emits', binders⟩
  | .call func args, frame, outer => by
    rw [visit, Node.locals]
    refine .get (fun _ => rfl) ?_
    dsimp only
    split
    · rename_i takes
      rw [locals_of_takesType takes]
      exact leaves_visitFirst .type .read args frame outer
    · exact .bind (leaves_visit (.use .call) func frame outer)
        fun frame => leaves_visitAll .read args frame outer
  | .composite none elems, frame, outer => by
    rw [visit, Node.locals]
    exact leaves_visitAll _ elems frame outer
  | .composite (some type) elems, frame, outer => by
    rw [visit, Node.locals]
    exact .bind (leaves_visit .type type frame outer)
      fun frame => leaves_visitAll _ elems frame outer
  | .keyValue key value, frame, outer => by
    rw [Node.locals]
    have inTurn (mode mode' : VisitMode) :=
      Leaves.bind (leaves_visit mode key frame outer)
        fun frame => leaves_visit mode' value frame outer
    cases mode with
    | entry type =>
      rw [visit]
      cases found : fieldOfKey? type key with
      | none => exact inTurn _ _
      | some field =>
        obtain ⟨path, typeName, name, span⟩ := field
        obtain ⟨valueType, touches⟩ :=
          resolver.touches_fieldKey (frame :: outer) path typeName name span
        cases eq_ident_of_fieldOfKey? found
        exact .behind touches (leaves_visit (.element valueType) value frame outer)
    | _ =>
      rw [visit]
      · exact inTurn .read .read
      · rintro _ ⟨⟩
  | .unary op operand, frame, outer => by
    rw [visit, Node.locals]
    exact leaves_visit _ operand frame outer
  | .binary left right, frame, outer => by
    rw [visit, Node.locals]
    exact .bind (leaves_visit .read left frame outer)
      fun frame => leaves_visit .read right frame outer
  | .index base indices, frame, outer => by
    rw [visit, Node.locals]
    exact .bind (leaves_visit _ base frame outer)
      fun frame => leaves_visitAll _ indices frame outer
  | .typeAssert base type, frame, outer => by
    rw [visit, Node.locals]
    exact .bind (leaves_visit .read base frame outer)
      fun frame => leaves_visitOption .type type frame outer
  | .typeExpr form parts, frame, outer => by
    rw [visit, Node.locals]
    exact leaves_visitFirst _ .type parts frame outer
  | .literal _, frame, outer => by
    rw [visit, Node.locals]
    exact .pure frame outer
  | .funcLit params results body, frame, outer => by
    rw [visit, Node.locals]
    have inner (scopes : Scopes) : Walks resolver.Genuine _ scopes body.passes true body.Tidy :=
      .enclosed (.bound (resolver.binds_bindParams params ([] :: scopes)) fun scopes =>
        .bound (resolver.binds_bindParams results scopes) (walks_visit .read body))
    have types := (leaves_visitParams none params frame outer).bind fun frame =>
      (leaves_visitParams none results frame outer).bind fun frame =>
        .restoring (inner (frame :: outer))
    rwa [List.append_nil] at types
  | .block span stmts, frame, outer => by
    rw [Node.locals]
    exact .restoring (walks_visit mode (.block span stmts) (frame :: outer))
  | .define names type values, frame, outer => by
    rw [visit, Node.locals]
    exact .bind (leaves_visitOption .type type frame outer) fun frame =>
      .bind (leaves_visitAll .read values frame outer) fun frame =>
        .get (fun _ => rfl) (.bindNames _ names frame outer)
  | .assign targets values, frame, outer => by
    rw [visit, Node.locals]
    exact .bind (leaves_visitAll _ targets frame outer)
      fun frame => leaves_visitAll .read values frame outer
  | .branch header body alt, frame, outer => by
    rw [Node.locals]
    exact .restoring (walks_visit mode (.branch header body alt) (frame :: outer))
  | .list items, frame, outer => by
    rw [visit, Node.locals]
    exact leaves_visitAll .read items frame outer

/-- A walk over nodes in order binds the names of each. -/
theorem leaves_visitAll (mode : VisitMode) : (nodes : List Node) → ∀ frame outer,
    Leaves resolver (resolver.visitAll mode nodes) frame outer (Node.localsAll nodes)
  | [], frame, outer => .pure frame outer
  | head :: rest, frame, outer => by
    rw [visitAll, Node.localsAll]
    exact .bind (leaves_visit mode head frame outer)
      fun frame => leaves_visitAll mode rest frame outer

/-- The same for nodes of which the first is visited in another mode. -/
theorem leaves_visitFirst (first others : VisitMode) : (nodes : List Node) → ∀ frame outer,
    Leaves resolver (resolver.visitFirst first others nodes) frame outer (Node.localsAll nodes)
  | [], frame, outer => .pure frame outer
  | head :: rest, frame, outer => by
    rw [visitFirst, Node.localsAll]
    exact .bind (leaves_visit first head frame outer)
      fun frame => leaves_visitAll others rest frame outer

/-- The same for a node that may be left out. -/
theorem leaves_visitOption (mode : VisitMode) : (node : Option Node) → ∀ frame outer,
    Leaves resolver (resolver.visitOption mode node) frame outer (Node.localsOption node)
  | none, frame, outer => .pure frame outer
  | some node, frame, outer => by
    rw [visitOption, Node.localsOption]
    exact leaves_visit mode node frame outer

/-- A walk over the types of parameters binds the names of each. -/
theorem leaves_visitParams (previous : Option Span) : (params : List Param) → ∀ frame outer,
    Leaves resolver (resolver.visitParams previous params) frame outer
      (Node.localsParams previous params)
  | [], frame, outer => .pure frame outer
  | ⟨_, _, typeSpan, typeNode⟩ :: rest, frame, outer => by
    rw [visitParams, Node.localsParams]
    split
    · exact leaves_visitParams (some typeSpan) rest frame outer
    · exact .bind (leaves_visit .type typeNode frame outer)
        fun frame => leaves_visitParams (some typeSpan) rest frame outer

end

end Resolver

end GoRefactor
