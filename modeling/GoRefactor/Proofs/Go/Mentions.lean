import GoRefactor.Proofs.Go.Compose
import GoRefactor.Proofs.Go.Parser.Fixed
import GoRefactor.Proofs.Go.Passes

/-!
# The names that a file mentions

A mention is a name in a tree that may stand for something, with its place: an identifier or a
member, bindings apart. Every name that a walk passes is mentioned, and a visitor that gets through
a file has seen every mention in it.
-/

namespace GoRefactor

/-- A name and where it stands. -/
abbrev Mention := String × Span

mutual

/-- The names that a node mentions, in order. -/
def Node.mentions : Node → List Mention
  | .ident name span => [(name, span)]
  | .selector base name span => base.mentions ++ [(name, span)]
  | .call func args => func.mentions ++ Node.mentionsAll args
  | .composite type elems => Node.mentionsOption type ++ Node.mentionsAll elems
  | .keyValue key value => key.mentions ++ value.mentions
  | .unary _ operand => operand.mentions
  | .binary left right => left.mentions ++ right.mentions
  | .index base indices => base.mentions ++ Node.mentionsAll indices
  | .typeAssert base type => base.mentions ++ Node.mentionsOption type
  | .typeExpr _ parts => Node.mentionsAll parts
  | .literal _ => []
  | .funcLit params results body =>
    Node.mentionsParams params ++ (Node.mentionsParams results ++ body.mentions)
  | .block _ stmts => Node.mentionsAll stmts
  | .define _ type values => Node.mentionsOption type ++ Node.mentionsAll values
  | .assign targets values => Node.mentionsAll targets ++ Node.mentionsAll values
  | .branch header body alt =>
    Node.mentionsAll header ++ (body.mentions ++ Node.mentionsOption alt)
  | .list items => Node.mentionsAll items

/-- The same for nodes in order. -/
def Node.mentionsAll : List Node → List Mention
  | [] => []
  | head :: rest => head.mentions ++ Node.mentionsAll rest

/-- The same for a node that may be left out. -/
def Node.mentionsOption : Option Node → List Mention
  | none => []
  | some node => node.mentions

/-- The same for the types of parameters. -/
def Node.mentionsParams : List Param → List Mention
  | [] => []
  | ⟨_, _, _, typeNode⟩ :: rest => typeNode.mentions ++ Node.mentionsParams rest

end

/-- The names that a method of an interface mentions. -/
def InterfaceMethod.mentions (method : InterfaceMethod) : List Mention :=
  Node.mentionsParams method.params ++ Node.mentionsParams method.results

/-- The names that a declared type mentions. -/
def TypeShape.mentions : TypeShape → List Mention
  | .struct fields => Node.mentionsAll (fields.map (·.typeNode))
  | .interface methods embeds =>
    methods.flatMap InterfaceMethod.mentions ++ Node.mentionsAll embeds
  | .other underlying => underlying.mentions

/-- The names that a function mentions. -/
def FuncDecl.mentions (decl : FuncDecl) : List Mention :=
  Node.mentionsAll (decl.receiver.map (·.typeNode)).toList ++
    (Node.mentionsParams decl.params ++
      (Node.mentionsParams decl.results ++ Node.mentionsOption decl.body))

/-- The names that a variable or constant mentions. -/
def ValueDecl.mentions (decl : ValueDecl) : List Mention :=
  Node.mentionsOption decl.typeNode ++ Node.mentionsOption decl.value

/-- For each declaration of a file, the names that it mentions. -/
def SourceFile.declMentions (file : SourceFile) : List (List Mention) :=
  file.types.values.map (·.shape.mentions) ++
    (file.functions.values ++ file.methods).map FuncDecl.mentions ++
    (file.vars.values ++ file.consts.values ++ file.blanks).map ValueDecl.mentions

/-- The names that a file mentions, declaration by declaration. -/
def SourceFile.mentions (file : SourceFile) : List Mention := file.declMentions.flatten

/-! ## What is passed is mentioned -/

/-- Every place is that of a mention. -/
def Mentioned (spans : List Span) (mentions : List Mention) : Prop :=
  ∀ span ∈ spans, ∃ name, (name, span) ∈ mentions

namespace Mentioned

/-- Where there are no places, nothing needs to be mentioned. -/
theorem nil (mentions : List Mention) : Mentioned [] mentions := List.forall_mem_nil _

/-- A single place is mentioned by its own mention. -/
theorem one (name : String) (span : Span) : Mentioned [span] [(name, span)] :=
  List.forall_mem_singleton.mpr ⟨name, List.mem_singleton_self _⟩

/-- Places behind places are mentioned if both groups are. -/
theorem append {spans spans' : List Span} {mentions mentions' : List Mention}
    (first : Mentioned spans mentions) (second : Mentioned spans' mentions') :
    Mentioned (spans ++ spans') (mentions ++ mentions') := by
  refine List.forall_mem_append.mpr ⟨fun span member => ?_, fun span member => ?_⟩
  · obtain ⟨name, held⟩ := first span member
    exact ⟨name, List.mem_append_left _ held⟩
  · obtain ⟨name, held⟩ := second span member
    exact ⟨name, List.mem_append_right _ held⟩

/-- Places of parts in a row are mentioned if those of each part are. -/
theorem flatten {spans : List (List Span)} {mentions : List (List Mention)}
    (each : List.Forall₂ Mentioned spans mentions) :
    Mentioned spans.flatten mentions.flatten := by
  induction each with
  | nil => exact nil _
  | cons first _ ih => exact first.append ih

end Mentioned

namespace Node

mutual

/-- What a node passes, it mentions. -/
theorem mentioned : ∀ node : Node, Mentioned node.passes node.mentions
  | .ident name span => .one name span
  | .selector base name span => by
    rw [passes, mentions]
    exact (mentioned base).append (.one name span)
  | .call func args => by
    rw [passes, mentions]
    exact (mentioned func).append (mentionedAll args)
  | .composite type elems => by
    rw [passes, mentions]
    exact (mentionedOption type).append (mentionedAll elems)
  | .keyValue key value => by
    rw [passes, mentions]
    exact (mentioned key).append (mentioned value)
  | .unary op operand => by
    rw [passes, mentions]
    exact mentioned operand
  | .binary left right => by
    rw [passes, mentions]
    exact (mentioned left).append (mentioned right)
  | .index base indices => by
    rw [passes, mentions]
    exact (mentioned base).append (mentionedAll indices)
  | .typeAssert base type => by
    rw [passes, mentions]
    exact (mentioned base).append (mentionedOption type)
  | .typeExpr form parts => by
    rw [passes, mentions]
    exact mentionedAll parts
  | .literal span => .nil _
  | .funcLit params results body => by
    rw [passes, mentions]
    exact (mentionedParams none params).append
      ((mentionedParams none results).append (mentioned body))
  | .block span stmts => by
    rw [passes, mentions]
    exact mentionedAll stmts
  | .define names type values => by
    rw [passes, mentions]
    exact (mentionedOption type).append (mentionedAll values)
  | .assign targets values => by
    rw [passes, mentions]
    exact (mentionedAll targets).append (mentionedAll values)
  | .branch header body alt => by
    rw [passes, mentions]
    exact (mentionedAll header).append ((mentioned body).append (mentionedOption alt))
  | .list items => by
    rw [passes, mentions]
    exact mentionedAll items

/-- What nodes in order pass, they mention. -/
theorem mentionedAll : ∀ nodes : List Node, Mentioned (passesAll nodes) (mentionsAll nodes)
  | [] => .nil _
  | head :: rest => by
    rw [passesAll, mentionsAll]
    exact (mentioned head).append (mentionedAll rest)

/-- The same for a node that may be left out. -/
theorem mentionedOption : ∀ node : Option Node,
    Mentioned (passesOption node) (mentionsOption node)
  | none => .nil _
  | some node => by
    rw [passesOption, mentionsOption]
    exact mentioned node

/-- What the types of parameters pass, the parameters mention. -/
theorem mentionedParams (previous : Option Span) : ∀ params : List Param,
    Mentioned (passesParams previous params) (mentionsParams params)
  | [] => .nil _
  | ⟨_, _, typeSpan, typeNode⟩ :: rest => by
    rw [passesParams, mentionsParams]
    refine .append ?_ (mentionedParams (some typeSpan) rest)
    split
    · exact .nil _
    · exact mentioned typeNode

end

end Node

/-- What a declared type passes, it mentions. -/
theorem TypeShape.mentioned (shape : TypeShape) : Mentioned shape.passes shape.mentions := by
  cases shape with
  | struct fields => exact Node.mentionedAll _
  | interface methods embeds =>
    refine .append ?_ (Node.mentionedAll embeds)
    rw [List.flatMap_def, List.flatMap_def]
    refine .flatten (List.forall₂_map_left_iff.mpr (List.forall₂_map_right_iff.mpr
      (List.forall₂_same.mpr fun method _ => ?_)))
    exact (Node.mentionedParams none method.params).append
      (Node.mentionedParams none method.results)
  | other underlying => exact Node.mentioned underlying

/-- What a function passes, it mentions. -/
theorem FuncDecl.mentioned (decl : FuncDecl) : Mentioned decl.passes decl.mentions :=
  (Node.mentionedAll _).append ((Node.mentionedParams none _).append
    ((Node.mentionedParams none _).append (Node.mentionedOption _)))

/-- What a variable or constant passes, it mentions. -/
theorem ValueDecl.mentioned (decl : ValueDecl) : Mentioned decl.passes decl.mentions :=
  (Node.mentionedOption _).append (Node.mentionedOption _)

/-- **What a file passes, it mentions.** -/
theorem SourceFile.mentioned (file : SourceFile) : Mentioned file.passes file.mentions := by
  refine .flatten (List.rel_append (List.rel_append ?_ ?_) ?_)
  · exact List.forall₂_map_left_iff.mpr (List.forall₂_map_right_iff.mpr
      (List.forall₂_same.mpr fun decl _ => decl.shape.mentioned))
  · exact List.forall₂_map_left_iff.mpr (List.forall₂_map_right_iff.mpr
      (List.forall₂_same.mpr fun decl _ => decl.mentioned))
  · exact List.forall₂_map_left_iff.mpr (List.forall₂_map_right_iff.mpr
      (List.forall₂_same.mpr fun decl _ => decl.mentioned))

/-! ## What is visited is seen -/

namespace SpanVisitor

variable {visitor : SpanVisitor (Except Fault)}

/-- The visitor gets through a name and its place. -/
def Sees (visitor : SpanVisitor (Except Fault)) (mention : Mention) : Prop :=
  ∃ seen, visitor.named mention.1 mention.2 = .ok seen

mutual

/-- A visitor that gets through a tree has seen its mentions. -/
theorem sees_node : ∀ {node image : Node}, visitor.node node = .ok image →
    ∀ mention ∈ node.mentions, visitor.Sees mention
  | .ident name span, _, visited => by
    obtain ⟨seen, named, -⟩ := bind_eq_ok.mp visited
    rw [Node.mentions]
    exact List.forall_mem_singleton.mpr ⟨seen, named⟩
  | .selector base name span, _, visited => by
    obtain ⟨_, one, visited⟩ := bind_eq_ok.mp visited
    obtain ⟨seen, named, -⟩ := bind_eq_ok.mp visited
    rw [Node.mentions]
    exact List.forall_mem_append.mpr ⟨sees_node one, List.forall_mem_singleton.mpr ⟨seen, named⟩⟩
  | .call func args, _, visited => by
    obtain ⟨_, one, visited⟩ := bind_eq_ok.mp visited
    obtain ⟨_, two, -⟩ := bind_eq_ok.mp visited
    rw [Node.mentions]
    exact List.forall_mem_append.mpr ⟨sees_node one, sees_nodes two⟩
  | .composite type elems, _, visited => by
    obtain ⟨_, one, visited⟩ := bind_eq_ok.mp visited
    obtain ⟨_, two, -⟩ := bind_eq_ok.mp visited
    rw [Node.mentions]
    exact List.forall_mem_append.mpr ⟨sees_optionalNode one, sees_nodes two⟩
  | .keyValue key value, _, visited => by
    obtain ⟨_, one, visited⟩ := bind_eq_ok.mp visited
    obtain ⟨_, two, -⟩ := bind_eq_ok.mp visited
    rw [Node.mentions]
    exact List.forall_mem_append.mpr ⟨sees_node one, sees_node two⟩
  | .unary op operand, _, visited => by
    obtain ⟨_, one, -⟩ := bind_eq_ok.mp visited
    rw [Node.mentions]
    exact sees_node one
  | .binary left right, _, visited => by
    obtain ⟨_, one, visited⟩ := bind_eq_ok.mp visited
    obtain ⟨_, two, -⟩ := bind_eq_ok.mp visited
    rw [Node.mentions]
    exact List.forall_mem_append.mpr ⟨sees_node one, sees_node two⟩
  | .index base indices, _, visited => by
    obtain ⟨_, one, visited⟩ := bind_eq_ok.mp visited
    obtain ⟨_, two, -⟩ := bind_eq_ok.mp visited
    rw [Node.mentions]
    exact List.forall_mem_append.mpr ⟨sees_node one, sees_nodes two⟩
  | .typeAssert base type, _, visited => by
    obtain ⟨_, one, visited⟩ := bind_eq_ok.mp visited
    obtain ⟨_, two, -⟩ := bind_eq_ok.mp visited
    rw [Node.mentions]
    exact List.forall_mem_append.mpr ⟨sees_node one, sees_optionalNode two⟩
  | .typeExpr form parts, _, visited => by
    obtain ⟨_, one, -⟩ := bind_eq_ok.mp visited
    rw [Node.mentions]
    exact sees_nodes one
  | .literal span, _, _ => by
    rw [Node.mentions]
    exact List.forall_mem_nil _
  | .funcLit params results body, _, visited => by
    obtain ⟨_, one, visited⟩ := bind_eq_ok.mp visited
    obtain ⟨_, two, visited⟩ := bind_eq_ok.mp visited
    obtain ⟨_, three, -⟩ := bind_eq_ok.mp visited
    rw [Node.mentions]
    exact List.forall_mem_append.mpr ⟨sees_params one,
      List.forall_mem_append.mpr ⟨sees_params two, sees_node three⟩⟩
  | .block span stmts, _, visited => by
    obtain ⟨_, -, visited⟩ := bind_eq_ok.mp visited
    obtain ⟨_, one, -⟩ := bind_eq_ok.mp visited
    rw [Node.mentions]
    exact sees_nodes one
  | .define names type values, _, visited => by
    obtain ⟨_, -, visited⟩ := bind_eq_ok.mp visited
    obtain ⟨_, one, visited⟩ := bind_eq_ok.mp visited
    obtain ⟨_, two, -⟩ := bind_eq_ok.mp visited
    rw [Node.mentions]
    exact List.forall_mem_append.mpr ⟨sees_optionalNode one, sees_nodes two⟩
  | .assign targets values, _, visited => by
    obtain ⟨_, one, visited⟩ := bind_eq_ok.mp visited
    obtain ⟨_, two, -⟩ := bind_eq_ok.mp visited
    rw [Node.mentions]
    exact List.forall_mem_append.mpr ⟨sees_nodes one, sees_nodes two⟩
  | .branch header body alt, _, visited => by
    obtain ⟨_, one, visited⟩ := bind_eq_ok.mp visited
    obtain ⟨_, two, visited⟩ := bind_eq_ok.mp visited
    obtain ⟨_, three, -⟩ := bind_eq_ok.mp visited
    rw [Node.mentions]
    exact List.forall_mem_append.mpr ⟨sees_nodes one,
      List.forall_mem_append.mpr ⟨sees_node two, sees_optionalNode three⟩⟩
  | .list items, _, visited => by
    obtain ⟨_, one, -⟩ := bind_eq_ok.mp visited
    rw [Node.mentions]
    exact sees_nodes one

/-- A visitor of trees in order sees all that they mention. -/
theorem sees_nodes : ∀ {nodes images : List Node}, visitor.nodes nodes = .ok images →
    ∀ mention ∈ Node.mentionsAll nodes, visitor.Sees mention
  | [], _, _ => by
    rw [Node.mentionsAll]
    exact List.forall_mem_nil _
  | head :: rest, _, visited => by
    obtain ⟨_, one, visited⟩ := bind_eq_ok.mp visited
    obtain ⟨_, two, -⟩ := bind_eq_ok.mp visited
    rw [Node.mentionsAll]
    exact List.forall_mem_append.mpr ⟨sees_node one, sees_nodes two⟩

/-- The same for a tree that may be left out. -/
theorem sees_optionalNode : ∀ {node image : Option Node}, visitor.optionalNode node = .ok image →
    ∀ mention ∈ Node.mentionsOption node, visitor.Sees mention
  | none, _, _ => by
    rw [Node.mentionsOption]
    exact List.forall_mem_nil _
  | some inner, _, visited => by
    obtain ⟨_, one, -⟩ := bind_eq_ok.mp visited
    rw [Node.mentionsOption]
    exact sees_node one

/-- A visitor of a parameter sees all that its type mentions. -/
theorem sees_param : ∀ {param image : Param}, visitor.param param = .ok image →
    ∀ mention ∈ param.typeNode.mentions, visitor.Sees mention
  | ⟨name, nameSpan, typeSpan, typeNode⟩, _, visited => by
    obtain ⟨_, -, visited⟩ := bind_eq_ok.mp visited
    obtain ⟨_, -, visited⟩ := bind_eq_ok.mp visited
    obtain ⟨_, one, -⟩ := bind_eq_ok.mp visited
    exact sees_node one

/-- A visitor of parameters in order sees all that they mention. -/
theorem sees_params : ∀ {params images : List Param}, visitor.params params = .ok images →
    ∀ mention ∈ Node.mentionsParams params, visitor.Sees mention
  | [], _, _ => by
    rw [Node.mentionsParams]
    exact List.forall_mem_nil _
  | ⟨name, nameSpan, typeSpan, typeNode⟩ :: rest, _, visited => by
    obtain ⟨_, one, visited⟩ := bind_eq_ok.mp visited
    obtain ⟨_, two, -⟩ := bind_eq_ok.mp visited
    rw [Node.mentionsParams]
    exact List.forall_mem_append.mpr ⟨sees_param one, sees_params two⟩

end

/-- A visitor that gets through a declared type has seen its mentions. -/
theorem sees_typeShape {shape image : TypeShape} (visited : visitor.typeShape shape = .ok image) :
    ∀ mention ∈ shape.mentions, visitor.Sees mention := by
  cases shape with
  | struct fields =>
    obtain ⟨images, each, -⟩ := bind_eq_ok.mp visited
    have matched := mapM_eq_ok_iff.mp each
    clear visited each
    change ∀ mention ∈ Node.mentionsAll (fields.map (·.typeNode)), visitor.Sees mention
    induction matched with
    | nil =>
      rw [List.map_nil, Node.mentionsAll]
      exact List.forall_mem_nil _
    | cons first _ ih =>
      obtain ⟨_, -, first⟩ := bind_eq_ok.mp first
      obtain ⟨_, -, first⟩ := bind_eq_ok.mp first
      obtain ⟨_, one, -⟩ := bind_eq_ok.mp first
      rw [List.map_cons, Node.mentionsAll]
      exact List.forall_mem_append.mpr ⟨sees_node one, ih⟩
  | interface methods embeds =>
    obtain ⟨images, each, visited⟩ := bind_eq_ok.mp visited
    obtain ⟨_, one, -⟩ := bind_eq_ok.mp visited
    refine List.forall_mem_append.mpr ⟨fun mention member => ?_, sees_nodes one⟩
    obtain ⟨method, held, inside⟩ := List.mem_flatMap.mp member
    obtain ⟨image, -, first⟩ := exists_mem_of_forall₂ (mapM_eq_ok_iff.mp each).flip held
    obtain ⟨_, -, first⟩ := bind_eq_ok.mp first
    obtain ⟨_, -, first⟩ := bind_eq_ok.mp first
    obtain ⟨_, params, first⟩ := bind_eq_ok.mp first
    obtain ⟨_, results, -⟩ := bind_eq_ok.mp first
    exact List.forall_mem_append.mpr ⟨sees_params params, sees_params results⟩ mention inside
  | other underlying =>
    obtain ⟨_, one, -⟩ := bind_eq_ok.mp visited
    exact sees_node one

/-- A visitor that gets through a function has seen its mentions. -/
theorem sees_funcDecl {decl image : FuncDecl} (visited : visitor.funcDecl decl = .ok image) :
    ∀ mention ∈ decl.mentions, visitor.Sees mention := by
  obtain ⟨_, -, visited⟩ := bind_eq_ok.mp visited
  obtain ⟨_, -, visited⟩ := bind_eq_ok.mp visited
  obtain ⟨_, received, visited⟩ := bind_eq_ok.mp visited
  obtain ⟨_, params, visited⟩ := bind_eq_ok.mp visited
  obtain ⟨_, results, visited⟩ := bind_eq_ok.mp visited
  obtain ⟨_, -, visited⟩ := bind_eq_ok.mp visited
  obtain ⟨_, body, -⟩ := bind_eq_ok.mp visited
  have receiver : ∀ mention ∈ Node.mentionsAll (decl.receiver.map (·.typeNode)).toList,
      visitor.Sees mention := by
    cases given : decl.receiver with
    | none =>
      rw [Option.map_none, Option.toList_none, Node.mentionsAll]
      exact List.forall_mem_nil _
    | some param =>
      rw [given] at received
      obtain ⟨_, one, -⟩ := map_eq_ok.mp received
      rw [Option.map_some, Option.toList_some, Node.mentionsAll, Node.mentionsAll,
        List.append_nil]
      exact sees_param one
  exact List.forall_mem_append.mpr ⟨receiver, List.forall_mem_append.mpr ⟨sees_params params,
    List.forall_mem_append.mpr ⟨sees_params results, sees_optionalNode body⟩⟩⟩

/-- A visitor that gets through a variable or constant has seen its mentions. -/
theorem sees_valueDecl {decl image : ValueDecl} (visited : visitor.valueDecl decl = .ok image) :
    ∀ mention ∈ decl.mentions, visitor.Sees mention := by
  obtain ⟨_, -, visited⟩ := bind_eq_ok.mp visited
  obtain ⟨_, -, visited⟩ := bind_eq_ok.mp visited
  obtain ⟨_, -, visited⟩ := bind_eq_ok.mp visited
  obtain ⟨_, type, visited⟩ := bind_eq_ok.mp visited
  obtain ⟨_, value, -⟩ := bind_eq_ok.mp visited
  exact List.forall_mem_append.mpr ⟨sees_optionalNode type, sees_optionalNode value⟩

end SpanVisitor

/-- **A visitor that leaves a file alone has seen every mention in it.** -/
theorem SourceFile.FixedBy.sees {file : SourceFile} {visitor : SpanVisitor (Except Fault)}
    (fixed : file.FixedBy visitor) : ∀ mention ∈ file.mentions, visitor.Sees mention := by
  intro mention member
  obtain ⟨mentions, listed, inside⟩ := List.mem_flatten.mp member
  simp only [declMentions, List.mem_append, List.mem_map] at listed
  rcases listed with (⟨decl, held, rfl⟩ | ⟨decl, held, rfl⟩) | ⟨decl, held, rfl⟩
  · obtain ⟨_, -, visited⟩ := bind_eq_ok.mp (fixed.typeDecl held)
    obtain ⟨_, -, visited⟩ := bind_eq_ok.mp visited
    obtain ⟨_, shape, -⟩ := bind_eq_ok.mp visited
    exact SpanVisitor.sees_typeShape shape mention inside
  · exact SpanVisitor.sees_funcDecl (fixed.funcDecl (List.mem_append.mpr held)) mention inside
  · refine SpanVisitor.sees_valueDecl (fixed.valueDecl ?_) mention inside
    simpa [or_assoc] using held

end GoRefactor
