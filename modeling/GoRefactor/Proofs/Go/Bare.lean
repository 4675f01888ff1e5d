import GoRefactor.Proofs.Go.Relocated

/-!
# Bare names

The identifiers of a tree that are not behind a dot, with their places. A key that is an identifier
is left out: whether it is a name of its own or that of a field depends on the literal around it.
-/

namespace GoRefactor

/-- The node is an identifier. -/
def Node.isIdent : Node → Bool
  | .ident _ _ => true
  | _ => false

mutual

/-- Bare names of a node, in order. -/
def Node.bare : Node → List (String × Span)
  | .ident name span => [(name, span)]
  | .selector base _ _ => base.bare
  | .call func args => func.bare ++ Node.bareAll args
  | .composite type elems => Node.bareOption type ++ Node.bareAll elems
  | .keyValue key value => (if key.isIdent then [] else key.bare) ++ value.bare
  | .unary _ operand => operand.bare
  | .binary left right => left.bare ++ right.bare
  | .index base indices => base.bare ++ Node.bareAll indices
  | .typeAssert base type => base.bare ++ Node.bareOption type
  | .typeExpr _ parts => Node.bareAll parts
  | .literal _ => []
  | .funcLit params results body =>
    Node.bareParams none params ++ (Node.bareParams none results ++ body.bare)
  | .block _ stmts => Node.bareAll stmts
  | .define _ type values => Node.bareOption type ++ Node.bareAll values
  | .assign targets values => Node.bareAll targets ++ Node.bareAll values
  | .branch header body alt => Node.bareAll header ++ (body.bare ++ Node.bareOption alt)
  | .list items => Node.bareAll items

/-- The same for nodes in order. -/
def Node.bareAll : List Node → List (String × Span)
  | [] => []
  | head :: rest => head.bare ++ Node.bareAll rest

/-- The same for a node that may be left out. -/
def Node.bareOption : Option Node → List (String × Span)
  | none => []
  | some node => node.bare

/-- The same for the types of parameters: neighbours that share a type have its names once. -/
def Node.bareParams (previous : Option Span) : List Param → List (String × Span)
  | [] => []
  | ⟨_, _, typeSpan, typeNode⟩ :: rest =>
    (if previous == some typeSpan then [] else typeNode.bare) ++
      Node.bareParams (some typeSpan) rest

end

/-- Bare names of a method of an interface. -/
def InterfaceMethod.bare (method : InterfaceMethod) : List (String × Span) :=
  Node.bareParams none method.params ++ Node.bareParams none method.results

/-- Bare names of a declared type. -/
def TypeShape.bare : TypeShape → List (String × Span)
  | .struct fields => Node.bareAll (fields.map (·.typeNode))
  | .interface methods embeds => methods.flatMap InterfaceMethod.bare ++ Node.bareAll embeds
  | .other underlying => underlying.bare

/-- Bare names of a declaration. -/
def TopDecl.bare : TopDecl → List (String × Span)
  | .importing _ => []
  | .type decl => decl.shape.bare
  | .function decl =>
    Node.bareAll (decl.receiver.map (·.typeNode)).toList ++
      (Node.bareParams none decl.params ++
        (Node.bareParams none decl.results ++ Node.bareOption decl.body))
  | .var decl | .const decl => Node.bareOption decl.typeNode ++ Node.bareOption decl.value

/-- Bare names of a file. -/
def SourceFile.bare (file : SourceFile) : List (String × Span) := file.decls.flatMap TopDecl.bare

namespace SpanVisitor

variable (visitor : SpanVisitor Id)

/-- What a name becomes, and where it is moved. -/
def image (named : String × Span) : String × Span := (visitor.named named.1 named.2).run

variable {visitor}

/-- Names in turn become names in turn. -/
theorem map_image_append {front back front' back' : List (String × Span)}
    (first : front' = front.map visitor.image) (second : back' = back.map visitor.image) :
    front' ++ back' = (front ++ back).map visitor.image := by
  rw [first, second, List.map_append]

/-- An identifier stays one, and nothing else becomes one. -/
theorem isIdent_node (node : Node) : Node.isIdent (visitor.node node) = node.isIdent := by
  cases node <;> rfl

mutual

/-- **A node keeps its bare names**, exchanged and moved. -/
theorem bare_node (inj : visitor.place.Injective) : ∀ node : Node,
    Node.bare (visitor.node node) = node.bare.map visitor.image
  | .ident _ _ => rfl
  | .selector base _ _ => bare_node inj base
  | .call func args => map_image_append (bare_node inj func) (bare_nodes inj args)
  | .composite type elems => map_image_append (bare_optionalNode inj type) (bare_nodes inj elems)
  | .keyValue key value => by
    have first := bare_node inj key
    refine map_image_append ?_ (bare_node inj value)
    rw [isIdent_node, first]
    split
    · rfl
    · rfl
  | .unary _ operand => bare_node inj operand
  | .binary left right => map_image_append (bare_node inj left) (bare_node inj right)
  | .index base indices => map_image_append (bare_node inj base) (bare_nodes inj indices)
  | .typeAssert base type => map_image_append (bare_node inj base) (bare_optionalNode inj type)
  | .typeExpr _ parts => bare_nodes inj parts
  | .literal _ => rfl
  | .funcLit params results body =>
    map_image_append (bare_params inj none params)
      (map_image_append (bare_params inj none results) (bare_node inj body))
  | .block _ stmts => bare_nodes inj stmts
  | .define _ type values => map_image_append (bare_optionalNode inj type) (bare_nodes inj values)
  | .assign targets values => map_image_append (bare_nodes inj targets) (bare_nodes inj values)
  | .branch header body alt =>
    map_image_append (bare_nodes inj header)
      (map_image_append (bare_node inj body) (bare_optionalNode inj alt))
  | .list items => bare_nodes inj items

/-- Nodes that are moved use the moved names bare, in the same order. -/
theorem bare_nodes (inj : visitor.place.Injective) : ∀ nodes : List Node,
    Node.bareAll (visitor.nodes nodes) = (Node.bareAll nodes).map visitor.image
  | [] => rfl
  | head :: rest => map_image_append (bare_node inj head) (bare_nodes inj rest)

/-- A node that may be left out uses the moved names bare, if it is there. -/
theorem bare_optionalNode (inj : visitor.place.Injective) : ∀ given : Option Node,
    Node.bareOption (visitor.optionalNode given) = (Node.bareOption given).map visitor.image
  | none => rfl
  | some node => bare_node inj node

/-- Parameters use the moved names bare, and neighbours share a type as before. -/
theorem bare_params (inj : visitor.place.Injective) : ∀ (previous : Option Span)
    (params : List Param), Node.bareParams (previous.map visitor.place) (visitor.params params) =
      (Node.bareParams previous params).map visitor.image
  | _, [] => rfl
  | previous, ⟨_, _, typeSpan, typeNode⟩ :: rest => by
    have type := bare_node inj typeNode
    refine map_image_append ?_ (bare_params inj (some typeSpan) rest)
    change (if previous.map visitor.place == some (visitor.place typeSpan) then []
      else Node.bare (visitor.node typeNode)) = _
    rw [beq_map_place inj, type]
    split
    · rfl
    · rfl

end

/-- The shape of a type uses the moved names bare, in the same order. -/
theorem bare_typeShape (inj : visitor.place.Injective) : ∀ shape : TypeShape,
    TypeShape.bare (visitor.typeShape shape) = shape.bare.map visitor.image
  | .struct fields => by
    change Node.bareAll ((fields.mapM visitor.field).run.map (·.typeNode)) = _
    rw [typeNodes_fields]
    exact bare_nodes inj _
  | .interface methods embeds => by
    refine map_image_append ?_ (bare_nodes inj embeds)
    change (methods.mapM visitor.interfaceMethod).run.flatMap InterfaceMethod.bare = _
    rw [List.idRun_mapM, List.flatMap_map, List.map_flatMap]
    exact congrArg (methods.flatMap ·) (funext fun method =>
      map_image_append (bare_params inj none method.params) (bare_params inj none method.results))
  | .other underlying => bare_node inj underlying

/-- **A declaration keeps its bare names**, exchanged and moved. -/
theorem bare_topDecl (inj : visitor.place.Injective) : ∀ decl : TopDecl,
    TopDecl.bare (visitor.topDecl decl) = decl.bare.map visitor.image
  | .importing _ => rfl
  | .type decl => bare_typeShape inj decl.shape
  | .function decl => by
    refine map_image_append ?_ (map_image_append (bare_params inj none decl.params)
      (map_image_append (bare_params inj none decl.results) (bare_optionalNode inj decl.body)))
    change Node.bareAll ((option visitor.param decl.receiver).run.map (·.typeNode)).toList = _
    rw [typeNodes_receiver]
    exact bare_nodes inj _
  | .var decl | .const decl =>
    map_image_append (bare_optionalNode inj decl.typeNode) (bare_optionalNode inj decl.value)

end SpanVisitor

end GoRefactor
