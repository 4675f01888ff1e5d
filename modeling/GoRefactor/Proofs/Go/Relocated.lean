import GoRefactor.Proofs.Go.Marks
import GoRefactor.Proofs.Go.Parser.TidyFile

/-!
# Names at other places

A walk that moves different spans to different spans takes the names of a tree along: it passes them
in the same order, each at its new place. So a tidy tree stays tidy, and a tidy file does, whatever
its declarations are called afterwards.
-/

namespace GoRefactor

namespace SpanVisitor

variable (visitor : SpanVisitor Id)

/-- Where a span is moved. -/
def place (span : Span) : Span := (visitor.span span).run

/-! ## What binds names -/

mutual

/-- A node binds names exactly if it did. -/
theorem plain_node : ∀ node : Node, Node.plain (visitor.node node) = node.plain
  | .ident _ _ => rfl
  | .selector base _ _ => plain_node base
  | .call func args => congrArg₂ and (plain_node func) (plain_nodes args)
  | .composite type elems => congrArg₂ and (plain_optionalNode type) (plain_nodes elems)
  | .keyValue key value => congrArg₂ and (plain_node key) (plain_node value)
  | .unary _ operand => plain_node operand
  | .binary left right => congrArg₂ and (plain_node left) (plain_node right)
  | .index base indices => congrArg₂ and (plain_node base) (plain_nodes indices)
  | .typeAssert base type => congrArg₂ and (plain_node base) (plain_optionalNode type)
  | .typeExpr _ parts => plain_nodes parts
  | .literal _ => rfl
  | .funcLit params results _ => congrArg₂ and (plain_params params) (plain_params results)
  | .block _ _ => rfl
  | .define _ _ _ => rfl
  | .assign targets values => congrArg₂ and (plain_nodes targets) (plain_nodes values)
  | .branch _ _ _ => rfl
  | .list items => plain_nodes items

/-- Nodes that are moved are plain as before. -/
theorem plain_nodes : ∀ nodes : List Node,
    Node.plainAll (visitor.nodes nodes) = Node.plainAll nodes
  | [] => rfl
  | head :: rest => congrArg₂ and (plain_node head) (plain_nodes rest)

/-- A node that may be left out is plain as before when it is moved. -/
theorem plain_optionalNode : ∀ given : Option Node,
    Node.plainOption (visitor.optionalNode given) = Node.plainOption given
  | none => rfl
  | some node => plain_node node

/-- The types of parameters that are moved are plain as before. -/
theorem plain_params : ∀ params : List Param,
    Node.plainParams (visitor.params params) = Node.plainParams params
  | [] => rfl
  | ⟨_, _, _, typeNode⟩ :: rest => congrArg₂ and (plain_node typeNode) (plain_params rest)

end

/-! ## What is passed -/

variable {visitor}

/-- What is passed in turn is moved in turn. -/
theorem map_place_append {front back front' back' : List Span}
    (first : front' = front.map visitor.place) (second : back' = back.map visitor.place) :
    front' ++ back' = (front ++ back).map visitor.place := by
  rw [first, second, List.map_append]

/-- Two spans are the same exactly if they are moved to the same one. -/
theorem beq_map_place (inj : visitor.place.Injective) (previous : Option Span) (span : Span) :
    (previous.map visitor.place == some (visitor.place span)) = (previous == some span) := by
  rw [Bool.eq_iff_iff, beq_iff_eq, beq_iff_eq]
  cases previous with
  | none => simp
  | some other => simp [inj.eq_iff]

mutual

/-- **A node passes its names at their new places.** -/
theorem passes_node (inj : visitor.place.Injective) : ∀ node : Node,
    Node.passes (visitor.node node) = node.passes.map visitor.place
  | .ident _ _ => rfl
  | .selector base _ _ => map_place_append (passes_node inj base) rfl
  | .call func args => map_place_append (passes_node inj func) (passes_nodes inj args)
  | .composite type elems =>
    map_place_append (passes_optionalNode inj type) (passes_nodes inj elems)
  | .keyValue key value => map_place_append (passes_node inj key) (passes_node inj value)
  | .unary _ operand => passes_node inj operand
  | .binary left right => map_place_append (passes_node inj left) (passes_node inj right)
  | .index base indices => map_place_append (passes_node inj base) (passes_nodes inj indices)
  | .typeAssert base type => map_place_append (passes_node inj base) (passes_optionalNode inj type)
  | .typeExpr _ parts => passes_nodes inj parts
  | .literal _ => rfl
  | .funcLit params results body =>
    map_place_append (passes_params inj none params)
      (map_place_append (passes_params inj none results) (passes_node inj body))
  | .block _ stmts => passes_nodes inj stmts
  | .define _ type values =>
    map_place_append (passes_optionalNode inj type) (passes_nodes inj values)
  | .assign targets values => map_place_append (passes_nodes inj targets) (passes_nodes inj values)
  | .branch header body alt =>
    map_place_append (passes_nodes inj header)
      (map_place_append (passes_node inj body) (passes_optionalNode inj alt))
  | .list items => passes_nodes inj items

/-- Nodes that are moved pass the moved spans. -/
theorem passes_nodes (inj : visitor.place.Injective) : ∀ nodes : List Node,
    Node.passesAll (visitor.nodes nodes) = (Node.passesAll nodes).map visitor.place
  | [] => rfl
  | head :: rest => map_place_append (passes_node inj head) (passes_nodes inj rest)

/-- A node that may be left out passes the moved spans. -/
theorem passes_optionalNode (inj : visitor.place.Injective) : ∀ given : Option Node,
    Node.passesOption (visitor.optionalNode given) = (Node.passesOption given).map visitor.place
  | none => rfl
  | some node => passes_node inj node

/-- Parameters pass the moved spans, and neighbours share a type as before. -/
theorem passes_params (inj : visitor.place.Injective) : ∀ (previous : Option Span)
    (params : List Param), Node.passesParams (previous.map visitor.place) (visitor.params params) =
      (Node.passesParams previous params).map visitor.place
  | _, [] => rfl
  | previous, ⟨_, _, typeSpan, typeNode⟩ :: rest => by
    have type := passes_node inj typeNode
    refine map_place_append ?_ (passes_params inj (some typeSpan) rest)
    change (if previous.map visitor.place == some (visitor.place typeSpan) then []
      else Node.passes (visitor.node typeNode)) = _
    rw [beq_map_place inj, type]
    split
    · rfl
    · rfl

end

/-! ## What is passed once -/

/-- Names that are apart stay apart. -/
theorem disjoint_of_map_place (inj : visitor.place.Injective) {front back front' back' : List Span}
    (first : front' = front.map visitor.place) (second : back' = back.map visitor.place)
    (apart : front.Disjoint back) : front'.Disjoint back' := by
  rw [first, second]
  exact List.disjoint_map inj apart

/-- Nodes are visited one by one. -/
theorem mem_nodes {nodes : List Node} {image : Node} (member : image ∈ (visitor.nodes nodes).run) :
    ∃ node ∈ nodes, (visitor.node node).run = image := by
  induction nodes with
  | nil => cases member
  | cons head rest ih =>
    have parts : (visitor.nodes (head :: rest)).run =
        (visitor.node head).run :: (visitor.nodes rest).run := rfl
    rw [parts] at member
    rcases List.mem_cons.mp member with rfl | later
    · exact ⟨head, List.mem_cons_self, rfl⟩
    · obtain ⟨node, held, same⟩ := ih later
      exact ⟨node, List.mem_cons_of_mem _ held, same⟩

mutual

/-- **A tidy node stays tidy.** -/
theorem tidy_node (inj : visitor.place.Injective) : ∀ node : Node,
    node.Tidy → Node.Tidy (visitor.node node)
  | .ident _ _, _ => trivial
  | .literal _, _ => trivial
  | .selector base _ _, ⟨tidy, apart⟩ =>
    ⟨tidy_node inj base tidy, disjoint_of_map_place inj (passes_node inj base) rfl apart⟩
  | .call func args, ⟨first, others, apart⟩ =>
    ⟨tidy_node inj func first, tidy_nodes inj args others,
      disjoint_of_map_place inj (passes_node inj func) (passes_nodes inj args) apart⟩
  | .composite type elems, ⟨typed, others, apart⟩ =>
    ⟨tidy_optionalNode inj type typed, tidy_nodes inj elems others,
      disjoint_of_map_place inj (passes_optionalNode inj type) (passes_nodes inj elems) apart⟩
  | .keyValue key value, ⟨first, second, apart⟩ =>
    ⟨tidy_node inj key first, tidy_node inj value second,
      disjoint_of_map_place inj (passes_node inj key) (passes_node inj value) apart⟩
  | .unary _ operand, tidy => tidy_node inj operand tidy
  | .binary left right, ⟨first, second, apart⟩ =>
    ⟨tidy_node inj left first, tidy_node inj right second,
      disjoint_of_map_place inj (passes_node inj left) (passes_node inj right) apart⟩
  | .index base indices, ⟨first, others, apart⟩ =>
    ⟨tidy_node inj base first, tidy_nodes inj indices others,
      disjoint_of_map_place inj (passes_node inj base) (passes_nodes inj indices) apart⟩
  | .typeAssert base type, ⟨first, typed, apart⟩ =>
    ⟨tidy_node inj base first, tidy_optionalNode inj type typed,
      disjoint_of_map_place inj (passes_node inj base) (passes_optionalNode inj type) apart⟩
  | .typeExpr form parts, tidy => by
    change if form = .array then Node.TidyAll (visitor.nodes parts)
      else Node.TidyParts (visitor.nodes parts)
    rw [Node.Tidy] at tidy
    by_cases array : form = .array
    · rw [if_pos array] at tidy ⊢
      exact tidy_nodes inj parts tidy
    · rw [if_neg array] at tidy ⊢
      exact tidy_parts inj parts tidy
  | .funcLit params results body, ⟨taken, returned, inner, apart, apart'⟩ =>
    ⟨tidy_params inj none params taken, tidy_params inj none results returned,
      tidy_node inj body inner,
      disjoint_of_map_place inj (passes_params inj none params)
        (map_place_append (passes_params inj none results) (passes_node inj body)) apart,
      disjoint_of_map_place inj (passes_params inj none results) (passes_node inj body) apart'⟩
  | .block _ stmts, tidy => tidy_nodes inj stmts tidy
  | .define _ type values, ⟨typed, others, apart⟩ =>
    ⟨tidy_optionalNode inj type typed, tidy_nodes inj values others,
      disjoint_of_map_place inj (passes_optionalNode inj type) (passes_nodes inj values) apart⟩
  | .assign targets values, ⟨first, others, apart⟩ =>
    ⟨tidy_nodes inj targets first, tidy_nodes inj values others,
      disjoint_of_map_place inj (passes_nodes inj targets) (passes_nodes inj values) apart⟩
  | .branch header body alt, ⟨first, inner, other, apart, apart'⟩ =>
    ⟨tidy_nodes inj header first, tidy_node inj body inner, tidy_optionalNode inj alt other,
      disjoint_of_map_place inj (passes_nodes inj header)
        (map_place_append (passes_node inj body) (passes_optionalNode inj alt)) apart,
      disjoint_of_map_place inj (passes_node inj body) (passes_optionalNode inj alt) apart'⟩
  | .list items, tidy => tidy_nodes inj items tidy

/-- Tidy nodes stay tidy when they are moved. -/
theorem tidy_nodes (inj : visitor.place.Injective) : ∀ nodes : List Node,
    Node.TidyAll nodes → Node.TidyAll (visitor.nodes nodes)
  | [], _ => trivial
  | head :: rest, ⟨tidy, others, apart⟩ =>
    ⟨tidy_node inj head tidy, tidy_nodes inj rest others,
      disjoint_of_map_place inj (passes_node inj head) (passes_nodes inj rest) apart⟩

/-- Tidy parts of a type stay tidy when they are moved. -/
theorem tidy_parts (inj : visitor.place.Injective) : ∀ parts : List Node,
    Node.TidyParts parts → Node.TidyParts (visitor.nodes parts)
  | [], _ => trivial
  | head :: rest, ⟨tidy, plain, others, kin⟩ => by
    refine ⟨tidy_node inj head tidy, (visitor.plain_node head).trans plain,
      tidy_parts inj rest others, fun image member => ?_⟩
    obtain ⟨other, held, rfl⟩ := mem_nodes member
    rcases kin other held with rfl | apart
    · exact Or.inl rfl
    · exact Or.inr (disjoint_of_map_place inj (passes_node inj head) (passes_node inj other) apart)

/-- A node that may be left out stays tidy when it is moved. -/
theorem tidy_optionalNode (inj : visitor.place.Injective) : ∀ given : Option Node,
    Node.TidyOption given → Node.TidyOption (visitor.optionalNode given)
  | none, _ => trivial
  | some node, tidy => tidy_node inj node tidy

/-- The types of parameters stay tidy when they are moved. -/
theorem tidy_params (inj : visitor.place.Injective) : ∀ (previous : Option Span)
    (params : List Param), Node.TidyParams previous params →
      Node.TidyParams (previous.map visitor.place) (visitor.params params)
  | _, [], _ => trivial
  | previous, ⟨_, _, typeSpan, typeNode⟩ :: rest, ⟨tidy, others⟩ => by
    refine ⟨?_, tidy_params inj (some typeSpan) rest others⟩
    change if previous.map visitor.place == some (visitor.place typeSpan) then True
      else Node.Tidy (visitor.node typeNode) ∧ (Node.passes (visitor.node typeNode)).Disjoint
        (Node.passesParams ((some typeSpan).map visitor.place) (visitor.params rest))
    rw [beq_map_place inj]
    by_cases same : (previous == some typeSpan) = true
    · rw [if_pos same]
      trivial
    · rw [if_neg same] at tidy ⊢
      exact ⟨tidy_node inj typeNode tidy.1, disjoint_of_map_place inj (passes_node inj typeNode)
        (passes_params inj (some typeSpan) rest) tidy.2⟩

end

/-! ## Declarations -/

/-- A method of an interface passes the moved spans. -/
theorem passes_interfaceMethod (inj : visitor.place.Injective) (method : InterfaceMethod) :
    InterfaceMethod.passes (visitor.interfaceMethod method) = method.passes.map visitor.place :=
  map_place_append (passes_params inj none method.params) (passes_params inj none method.results)

/-- The types of fields are visited as nodes in order. -/
theorem typeNodes_fields (visitor : SpanVisitor Id) (fields : List Field) :
    (fields.mapM visitor.field).run.map (·.typeNode) =
      (visitor.nodes (fields.map (·.typeNode))).run := by
  rw [List.idRun_mapM]
  induction fields with
  | nil => rfl
  | cons head rest ih => exact congrArg _ ih

/-- Methods of an interface pass the moved spans in the same order. -/
theorem passes_interfaceMethods (inj : visitor.place.Injective) (methods : List InterfaceMethod) :
    (methods.mapM visitor.interfaceMethod).run.flatMap InterfaceMethod.passes =
      (methods.flatMap InterfaceMethod.passes).map visitor.place := by
  rw [List.idRun_mapM, List.flatMap_map, List.map_flatMap]
  exact congrArg (methods.flatMap ·) (funext (passes_interfaceMethod inj))

/-- The shape of a type passes the moved spans. -/
theorem passes_typeShape (inj : visitor.place.Injective) : ∀ shape : TypeShape,
    TypeShape.passes (visitor.typeShape shape) = shape.passes.map visitor.place
  | .struct fields => by
    change Node.passesAll ((fields.mapM visitor.field).run.map (·.typeNode)) = _
    rw [typeNodes_fields]
    exact passes_nodes inj _
  | .interface methods embeds =>
    map_place_append (passes_interfaceMethods inj methods) (passes_nodes inj embeds)
  | .other underlying => passes_node inj underlying

/-- The shape of a type stays tidy. -/
theorem tidy_typeShape (inj : visitor.place.Injective) : ∀ shape : TypeShape,
    shape.Tidy → TypeShape.Tidy (visitor.typeShape shape)
  | .struct fields, tidy => by
    change Node.TidyParts ((fields.mapM visitor.field).run.map (·.typeNode))
    rw [typeNodes_fields]
    exact tidy_parts inj _ tidy
  | .interface methods embeds, ⟨each, different, embedded, apart⟩ => by
    refine ⟨fun image member => ?_, ?_, tidy_nodes inj embeds embedded,
      disjoint_of_map_place inj (passes_interfaceMethods inj methods) (passes_nodes inj embeds)
        apart⟩
    · obtain ⟨method, held, rfl⟩ := mem_mapM_id member
      obtain ⟨params, results, between⟩ := each method held
      exact ⟨tidy_params inj none _ params, tidy_params inj none _ results,
        disjoint_of_map_place inj (passes_params inj none _) (passes_params inj none _) between⟩
    · change (methods.mapM visitor.interfaceMethod).run.Pairwise _
      rw [List.idRun_mapM, List.pairwise_map]
      exact different.imp (disjoint_of_map_place inj (passes_interfaceMethod inj _)
        (passes_interfaceMethod inj _))
  | .other underlying, tidy => tidy_node inj underlying tidy

/-- The type of a receiver, if there is one, is visited as a node. -/
theorem typeNodes_receiver (visitor : SpanVisitor Id) (receiver : Option Param) :
    ((option visitor.param receiver).run.map (·.typeNode)).toList =
      (visitor.nodes (receiver.map (·.typeNode)).toList).run := by
  cases receiver with
  | none => rfl
  | some param =>
    obtain ⟨_, _, _, _⟩ := param
    rfl

/-- A function or method passes the moved spans. -/
theorem passes_funcDecl (inj : visitor.place.Injective) (decl : FuncDecl) :
    FuncDecl.passes (visitor.funcDecl decl) = decl.passes.map visitor.place := by
  refine map_place_append ?_ (map_place_append (passes_params inj none decl.params)
    (map_place_append (passes_params inj none decl.results) (passes_optionalNode inj decl.body)))
  change Node.passesAll ((option visitor.param decl.receiver).run.map (·.typeNode)).toList = _
  rw [typeNodes_receiver]
  exact passes_nodes inj _

/-- A function or method stays tidy. -/
theorem tidy_funcDecl (inj : visitor.place.Injective) (decl : FuncDecl) :
    decl.Tidy → FuncDecl.Tidy (visitor.funcDecl decl) := by
  rintro ⟨receiver, params, results, body, apart, apart', apart''⟩
  have behind := map_place_append (passes_params inj none decl.results)
    (passes_optionalNode inj decl.body)
  have owned := typeNodes_receiver visitor decl.receiver
  refine ⟨?_, tidy_params inj none _ params, tidy_params inj none _ results,
    tidy_optionalNode inj _ body, disjoint_of_map_place inj ?_
      (map_place_append (passes_params inj none decl.params) behind) apart,
    disjoint_of_map_place inj (passes_params inj none decl.params) behind apart',
    disjoint_of_map_place inj (passes_params inj none decl.results)
      (passes_optionalNode inj decl.body) apart''⟩
  · change Node.TidyAll ((option visitor.param decl.receiver).run.map (·.typeNode)).toList
    rw [owned]
    exact tidy_nodes inj _ receiver
  · change Node.passesAll ((option visitor.param decl.receiver).run.map (·.typeNode)).toList = _
    rw [owned]
    exact passes_nodes inj _

/-- A declaration passes its names at their new places. -/
theorem passes_topDecl (inj : visitor.place.Injective) : ∀ decl : TopDecl,
    TopDecl.passes (visitor.topDecl decl) = decl.passes.map visitor.place
  | .importing _ => rfl
  | .type decl => passes_typeShape inj decl.shape
  | .function decl => passes_funcDecl inj decl
  | .var decl | .const decl =>
    map_place_append (passes_optionalNode inj decl.typeNode) (passes_optionalNode inj decl.value)

/-- A tidy declaration stays tidy. -/
theorem tidy_topDecl (inj : visitor.place.Injective) : ∀ decl : TopDecl,
    decl.Tidy → TopDecl.Tidy (visitor.topDecl decl)
  | .importing _, _ => trivial
  | .type decl, tidy => tidy_typeShape inj decl.shape tidy
  | .function decl, tidy => tidy_funcDecl inj decl tidy
  | .var decl, ⟨type, value, apart⟩ | .const decl, ⟨type, value, apart⟩ =>
    ⟨tidy_optionalNode inj _ type, tidy_optionalNode inj _ value, disjoint_of_map_place inj
      (passes_optionalNode inj decl.typeNode) (passes_optionalNode inj decl.value) apart⟩

end SpanVisitor

open List

/-- Values that are put under their names are some of the former ones. -/
theorem NameMap.values_rekey_subperm {α : Type} (map : NameMap α) (name : α → String) :
    (map.rekey name).values <+~ map.values := by
  have folded (values : List α) (start : NameMap α) :
      ((values.map fun value => (name value, value)).foldl
        (fun map entry => map.insert entry.1 entry.2) start).values <+~ values ++ start.values := by
    induction values generalizing start with
    | nil => exact Subperm.refl _
    | cons value rest ih =>
      have adds := start.map_values_insert (name value) value id
      rw [map_id, map_id] at adds
      exact ((ih _).trans ((subperm_append_left _).mpr adds)).trans perm_middle.subperm
  have filed := folded map.values ∅
  rwa [show (∅ : NameMap α).values = [] from rfl, append_nil] at filed

namespace SourceFile

/-- Under their new names some of the declarations are kept. -/
theorem decls_rekey (file : SourceFile) : file.rekey.decls <+~ file.decls := by
  have mapped {α : Type} (wrap : α → TopDecl) {values values' : List α}
      (fewer : values' <+~ values) : values'.map wrap <+~ values.map wrap := by
    obtain ⟨some, same, sub⟩ := fewer
    exact ⟨some.map wrap, same.map wrap, sub.map wrap⟩
  refine ((mapped _ (file.types.values_rekey_subperm _)).append (mapped _ ?_)).append (mapped _ ?_)
  · exact (subperm_append_right _).mpr (file.functions.values_rekey_subperm _)
  · exact (subperm_append_right _).mpr
      ((file.vars.values_rekey_subperm _).append (file.consts.values_rekey_subperm _))

/-- **A tidy file stays tidy** where different spans are moved to different ones. -/
theorem Tidy.relocated {file : SourceFile} (tidy : file.Tidy) {visitor : SpanVisitor Id}
    (inj : visitor.place.Injective) : (SourceFile.rekey (visitor.file file)).Tidy := by
  obtain ⟨each, different⟩ := tidy_iff.mp tidy
  obtain ⟨some, same, fewer⟩ := decls_rekey (visitor.file file)
  rw [decls_visit] at fewer
  refine tidy_iff.mpr ⟨fun image member => ?_, ?_⟩
  · obtain ⟨decl, held, rfl⟩ := List.mem_map.mp (fewer.subset (same.mem_iff.mpr member))
    exact SpanVisitor.tidy_topDecl inj decl (each decl held)
  · refine (same.pairwise_iff fun apart => List.disjoint_comm.mp apart).mp
      (Pairwise.sublist fewer ?_)
    rw [List.pairwise_map]
    exact different.imp (SpanVisitor.disjoint_of_map_place inj (SpanVisitor.passes_topDecl inj _)
      (SpanVisitor.passes_topDecl inj _))

end SourceFile

end GoRefactor
