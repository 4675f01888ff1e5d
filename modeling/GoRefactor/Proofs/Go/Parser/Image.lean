import GoRefactor.Proofs.Attempt
import GoRefactor.Proofs.Go.Parser.Family
import GoRefactor.Proofs.Go.Parser.Tracks

/-!
# Images of values

What a scan reads and what the visitor of a mirror makes of it. Every kind of value that the
parser puts together has an image when its parts have images.
-/

namespace GoRefactor

/-- The name by which an embedded field of the type is known is that of the type. -/
def Node.whole : Node → Bool
  | .selector (.ident _ _) _ _ => true
  | .selector _ _ _ => false
  | .unary .deref operand => operand.whole
  | .unary _ _ => false
  | .index base _ => base.whole
  | _ => true

/-- Values that a mirror relates to those of the second scan. -/
class Imaged (α : Type) where
  /-- The second value is what the first one becomes. -/
  IsImage (m : Mirror) (value image : α) : Prop

/-- The second value is what the first one becomes. -/
abbrev Mirror.Image {α : Type} [Imaged α] (m : Mirror) (value image : α) : Prop :=
  Imaged.IsImage m value image

section Instances

instance : Imaged Span := ⟨fun m span image => m.visitor.span span = .ok image⟩

instance : Imaged Token := ⟨Mirror.NameImage⟩

instance : Imaged Binding := ⟨fun m binding image => m.visitor.binding binding = .ok image⟩

instance : Imaged Node := ⟨fun m node image => m.visitor.node node = .ok image⟩

instance : Imaged Param := ⟨fun m param image => m.visitor.param param = .ok image⟩

instance : Imaged Field := ⟨fun m field image => m.visitor.field field = .ok image⟩

instance : Imaged InterfaceMethod :=
  ⟨fun m method image => m.visitor.interfaceMethod method = .ok image⟩

instance : Imaged TypeShape := ⟨fun m shape image => m.visitor.typeShape shape = .ok image⟩

instance {α : Type} [Imaged α] : Imaged (List α) := ⟨fun m => List.Forall₂ m.Image⟩

instance {α : Type} [Imaged α] : Imaged (Option α) := ⟨fun m => Option.Rel m.Image⟩

instance {α β : Type} [Imaged α] [Imaged β] : Imaged (α × β) :=
  ⟨fun m value image => m.Image value.1 image.1 ∧ m.Image value.2 image.2⟩

end Instances

namespace SpanVisitor

attribute [local simp] SpanVisitor.node SpanVisitor.nodes SpanVisitor.optionalNode
  SpanVisitor.param SpanVisitor.params

variable {visitor : SpanVisitor (Except Fault)}

/-- A visit keeps the sort of a tree. -/
theorem ctorIdx_of_node {node image : Node} (visited : visitor.node node = .ok image) :
    image.ctorIdx = node.ctorIdx := by
  cases node
  all_goals
    rw [SpanVisitor.node] at visited
    repeat obtain ⟨_, -, visited⟩ := bind_eq_ok.mp visited
    cases visited
    rfl

/-- Trees are visited exactly when each is. -/
theorem nodes_eq_ok_iff {nodes images : List Node} :
    visitor.nodes nodes = .ok images ↔
      List.Forall₂ (fun node image => visitor.node node = .ok image) nodes images := by
  rw [← mapM_eq_ok_iff]
  induction nodes generalizing images with
  | nil => rfl
  | cons head rest ih =>
    rw [SpanVisitor.nodes, List.mapM_cons]
    cases visitor.node head with
    | error fault => rfl
    | ok image => simp only [bind_eq_ok, ih]

/-- Parameters are visited exactly when each is. -/
theorem params_eq_ok_iff {params images : List Param} :
    visitor.params params = .ok images ↔
      List.Forall₂ (fun param image => visitor.param param = .ok image) params images := by
  rw [← mapM_eq_ok_iff]
  induction params generalizing images with
  | nil => rfl
  | cons head rest ih =>
    rw [SpanVisitor.params, List.mapM_cons]
    cases visitor.param head with
    | error fault => rfl
    | ok image => simp only [bind_eq_ok, ih]

/-- A tree that may be left out is visited exactly when it is, if it is there. -/
theorem optionalNode_eq_ok_iff {node image : Option Node} :
    visitor.optionalNode node = .ok image ↔
      Option.Rel (fun node image => visitor.node node = .ok image) node image := by
  cases node with
  | none =>
    rw [SpanVisitor.optionalNode]
    constructor
    · intro given
      cases given
      exact .none
    · intro given
      cases given
      rfl
  | some node =>
    rw [SpanVisitor.optionalNode, bind_eq_ok]
    constructor
    · rintro ⟨inner, visited, given⟩
      cases given
      exact .some visited
    · intro given
      cases given with
      | some visited => exact ⟨_, visited, rfl⟩

end SpanVisitor

namespace Mirror

variable {m : Mirror}

section Nodes

variable {node node' left left' right right' : Node} {nodes nodes' others others' : List Node}
  {option option' : Option Node} {params params' results results' : List Param}
  {span span' : Span} {token token' : Token} {bindings bindings' : List Binding}

/-- An identifier has the identifier with the exchanged name as its image. -/
theorem image_ident (name : m.NameImage token token') :
    m.Image (Node.ident token.text token.span) (.ident token'.text token'.span) := by
  change m.visitor.node _ = _
  rw [SpanVisitor.node, name]
  rfl

/-- A selector has an image when its base has one and its name is exchanged. -/
theorem image_selector (base : m.Image node node') (name : m.NameImage token token') :
    m.Image (Node.selector node token.text token.span)
      (.selector node' token'.text token'.span) := by
  change m.visitor.node _ = _
  rw [SpanVisitor.node, show m.visitor.node node = .ok node' from base, bind_ok, name]
  rfl

/-- A call has an image when the function and the arguments have images. -/
theorem image_call (func : m.Image node node') (args : m.Image nodes nodes') :
    m.Image (Node.call node nodes) (.call node' nodes') := by
  change m.visitor.node _ = _
  rw [SpanVisitor.node, show m.visitor.node node = .ok node' from func, bind_ok,
    SpanVisitor.nodes_eq_ok_iff.mpr args]
  rfl

/-- A composite literal has an image when its type and its elements have images. -/
theorem image_composite (type : m.Image option option') (elems : m.Image nodes nodes') :
    m.Image (Node.composite option nodes) (.composite option' nodes') := by
  change m.visitor.node _ = _
  rw [SpanVisitor.node, SpanVisitor.optionalNode_eq_ok_iff.mpr type, bind_ok,
    SpanVisitor.nodes_eq_ok_iff.mpr elems]
  rfl

/-- A keyed element has an image when its key and its value have images. -/
theorem image_keyValue (key : m.Image left left') (value : m.Image right right') :
    m.Image (Node.keyValue left right) (.keyValue left' right') := by
  change m.visitor.node _ = _
  rw [SpanVisitor.node, show m.visitor.node left = .ok left' from key, bind_ok,
    show m.visitor.node right = .ok right' from value]
  rfl

/-- A unary operator keeps its sort, and has an image when its operand has one. -/
theorem image_unary (op : UnaryOp) (operand : m.Image node node') :
    m.Image (Node.unary op node) (.unary op node') := by
  change m.visitor.node _ = _
  rw [SpanVisitor.node, show m.visitor.node node = .ok node' from operand]
  rfl

/-- A binary operator has an image when both operands have images. -/
theorem image_binary (first : m.Image left left') (second : m.Image right right') :
    m.Image (Node.binary left right) (.binary left' right') := by
  change m.visitor.node _ = _
  rw [SpanVisitor.node, show m.visitor.node left = .ok left' from first, bind_ok,
    show m.visitor.node right = .ok right' from second]
  rfl

/-- An index expression has an image when its base and its indices have images. -/
theorem image_index (base : m.Image node node') (indices : m.Image nodes nodes') :
    m.Image (Node.index node nodes) (.index node' nodes') := by
  change m.visitor.node _ = _
  rw [SpanVisitor.node, show m.visitor.node node = .ok node' from base, bind_ok,
    SpanVisitor.nodes_eq_ok_iff.mpr indices]
  rfl

/-- A type assertion has an image when its base and its type have images. -/
theorem image_typeAssert (base : m.Image node node') (type : m.Image option option') :
    m.Image (Node.typeAssert node option) (.typeAssert node' option') := by
  change m.visitor.node _ = _
  rw [SpanVisitor.node, show m.visitor.node node = .ok node' from base, bind_ok,
    SpanVisitor.optionalNode_eq_ok_iff.mpr type]
  rfl

/-- A composite type keeps its form, and has an image when its parts have images. -/
theorem image_typeExpr (form : TypeForm) (parts : m.Image nodes nodes') :
    m.Image (Node.typeExpr form nodes) (.typeExpr form nodes') := by
  change m.visitor.node _ = _
  rw [SpanVisitor.node, SpanVisitor.nodes_eq_ok_iff.mpr parts]
  rfl

/-- A literal has the literal in the exchanged place as its image. -/
theorem image_literal (stands : m.Image span span') :
    m.Image (Node.literal span) (.literal span') := by
  change m.visitor.node _ = _
  rw [SpanVisitor.node, show m.visitor.span span = .ok span' from stands]
  rfl

/-- A function literal has an image when its signature and its body have images. -/
theorem image_funcLit (takes : m.Image params params') (gives : m.Image results results')
    (body : m.Image node node') :
    m.Image (Node.funcLit params results node) (.funcLit params' results' node') := by
  change m.visitor.node _ = _
  rw [SpanVisitor.node, SpanVisitor.params_eq_ok_iff.mpr takes, bind_ok,
    SpanVisitor.params_eq_ok_iff.mpr gives, bind_ok,
    show m.visitor.node node = .ok node' from body]
  rfl

/-- A block has an image when its place and its statements have images. -/
theorem image_block (stands : m.Image span span') (stmts : m.Image nodes nodes') :
    m.Image (Node.block span nodes) (.block span' nodes') := by
  change m.visitor.node _ = _
  rw [SpanVisitor.node, show m.visitor.span span = .ok span' from stands, bind_ok,
    SpanVisitor.nodes_eq_ok_iff.mpr stmts]
  rfl

/-- A local declaration has an image when its names, type and values have images. -/
theorem image_define (names : m.Image bindings bindings') (type : m.Image option option')
    (values : m.Image nodes nodes') :
    m.Image (Node.define bindings option nodes) (.define bindings' option' nodes') := by
  change m.visitor.node _ = _
  rw [SpanVisitor.node, mapM_eq_ok_iff.mpr names, bind_ok,
    SpanVisitor.optionalNode_eq_ok_iff.mpr type, bind_ok, SpanVisitor.nodes_eq_ok_iff.mpr values]
  rfl

/-- An assignment has an image when its targets and its values have images. -/
theorem image_assign (targets : m.Image nodes nodes') (values : m.Image others others') :
    m.Image (Node.assign nodes others) (.assign nodes' others') := by
  change m.visitor.node _ = _
  rw [SpanVisitor.node, SpanVisitor.nodes_eq_ok_iff.mpr targets, bind_ok,
    SpanVisitor.nodes_eq_ok_iff.mpr values]
  rfl

/-- A statement with a header has an image when header, body and alternative have images. -/
theorem image_branch (header : m.Image nodes nodes') (body : m.Image node node')
    (alt : m.Image option option') :
    m.Image (Node.branch nodes node option) (.branch nodes' node' option') := by
  change m.visitor.node _ = _
  rw [SpanVisitor.node, SpanVisitor.nodes_eq_ok_iff.mpr header, bind_ok,
    show m.visitor.node node = .ok node' from body, bind_ok,
    SpanVisitor.optionalNode_eq_ok_iff.mpr alt]
  rfl

/-- Expressions in a row have an image when each has one. -/
theorem image_list (items : m.Image nodes nodes') : m.Image (Node.list nodes) (.list nodes') := by
  change m.visitor.node _ = _
  rw [SpanVisitor.node, SpanVisitor.nodes_eq_ok_iff.mpr items]
  rfl

end Nodes

section Lists

variable {tokens tokens' : List Token} {nodes nodes' : List Node} {params params' : List Param}
  {fields fields' : List Field} {methods methods' : List InterfaceMethod}

/-- Lists one behind the other have images when both lists have images. -/
theorem image_append {α : Type} [Imaged α] {front front' back back' : List α}
    (first : m.Image front front') (second : m.Image back back') :
    m.Image (front ++ back) (front' ++ back') :=
  List.rel_append first second

/-- Changed members have images when the change keeps images. -/
theorem image_map {α β : Type} [Imaged α] [Imaged β] {change change' : α → β}
    (changes : ∀ {value image : α}, m.Image value image → m.Image (change value) (change' image))
    {values images : List α} (related : m.Image values images) :
    m.Image (values.map change) (images.map change') :=
  List.forall₂_map_left_iff.mpr (List.forall₂_map_right_iff.mpr (related.imp fun _ _ => changes))

/-- Either both values are there or none is. -/
theorem isNone_of_image {α : Type} [Imaged α] {value image : Option α}
    (related : m.Image value image) : image.isNone = value.isNone := by
  cases related <;> rfl

/-- Names that are introduced have images when their tokens have images. -/
theorem image_bindings (names : m.Image tokens tokens') :
    m.Image (tokens.map fun token => (⟨token.text, token.span⟩ : Binding))
      (tokens'.map fun token => ⟨token.text, token.span⟩) := by
  refine image_map ?_ names
  intro token image name
  change m.visitor.binding _ = _
  rw [SpanVisitor.binding, show m.visitor.named token.text token.span = _ from name]
  rfl

/-- The type of a parameter has an image when the parameter has one. -/
theorem image_paramType {param image : Param} (related : m.Image param image) :
    m.Image param.typeNode image.typeNode := by
  obtain ⟨name, nameSpan, typeSpan, typeNode⟩ := param
  change m.visitor.param _ = _ at related
  rw [SpanVisitor.param] at related
  obtain ⟨_, -, related⟩ := bind_eq_ok.mp related
  obtain ⟨_, -, related⟩ := bind_eq_ok.mp related
  obtain ⟨_, visited, related⟩ := bind_eq_ok.mp related
  cases related
  exact visited

/-- The types of parameters have images when the parameters have images. -/
theorem image_paramTypes (related : m.Image params params') :
    m.Image (paramTypes params) (paramTypes params') :=
  image_map image_paramType related

/-- The type of a field has an image when the field has one. -/
theorem image_fieldType {field image : Field} (related : m.Image field image) :
    m.Image field.typeNode image.typeNode := by
  change m.visitor.field _ = _ at related
  unfold SpanVisitor.field at related
  obtain ⟨_, -, related⟩ := bind_eq_ok.mp related
  obtain ⟨_, -, related⟩ := bind_eq_ok.mp related
  obtain ⟨_, visited, related⟩ := bind_eq_ok.mp related
  rw [← Except.ok.inj related]
  exact visited

/-- The types of fields have images when the fields have images. -/
theorem image_fieldTypes (related : m.Image fields fields') :
    m.Image (fields.map (·.typeNode)) (fields'.map (·.typeNode)) :=
  image_map image_fieldType related

/-- The types in a method of an interface have images when the method has one. -/
theorem image_methodTypes {method image : InterfaceMethod} (related : m.Image method image) :
    m.Image (paramTypes method.params ++ paramTypes method.results)
      (paramTypes image.params ++ paramTypes image.results) := by
  change m.visitor.interfaceMethod _ = _ at related
  unfold SpanVisitor.interfaceMethod at related
  obtain ⟨_, -, related⟩ := bind_eq_ok.mp related
  obtain ⟨_, -, related⟩ := bind_eq_ok.mp related
  obtain ⟨_, takes, related⟩ := bind_eq_ok.mp related
  obtain ⟨_, gives, related⟩ := bind_eq_ok.mp related
  rw [← Except.ok.inj related]
  exact image_append (image_paramTypes (SpanVisitor.params_eq_ok_iff.mp takes))
    (image_paramTypes (SpanVisitor.params_eq_ok_iff.mp gives))

/-- The types in methods of an interface have images when the methods have images. -/
theorem image_signatures (related : m.Image methods methods') :
    m.Image (methods.flatMap fun method => paramTypes method.params ++ paramTypes method.results)
      (methods'.flatMap fun method =>
        paramTypes method.params ++ paramTypes method.results) := by
  induction related with
  | nil => exact .nil
  | cons first _ ih =>
    rw [List.flatMap_cons, List.flatMap_cons]
    exact image_append (image_methodTypes first) ih

/-- Definitions as one statement have an image when each has one. -/
theorem image_ofDefinitions (related : m.Image nodes nodes') :
    m.Image (Node.ofDefinitions nodes) (Node.ofDefinitions nodes') := by
  cases related with
  | nil => exact image_list .nil
  | cons first rest =>
    cases rest with
    | nil => exact first
    | cons second rest => exact image_list (.cons first (.cons second rest))

/-- Fields with names of their own have images when names, place and type have images. -/
theorem image_fields {span span' : Span} {node node' : Node} (doc : Option String)
    (names : m.Image tokens tokens') (stands : m.Image span span')
    (type : m.Image node node') :
    m.Image (tokens.map fun token => (⟨token.text, token.span, span, node, false, doc⟩ : Field))
      (tokens'.map fun token => ⟨token.text, token.span, span', node', false, doc⟩) := by
  refine image_map ?_ names
  intro token image name
  change m.visitor.field _ = _
  unfold SpanVisitor.field
  simp only [show m.visitor.named token.text token.span = _ from name, bind_ok,
    show m.visitor.span span = .ok span' from stands,
    show m.visitor.node node = .ok node' from type]
  rfl

/-- A method of an interface has an image when its name, place and signature have images. -/
theorem image_method {token token' : Token} {span span' : Span} {results results' : List Param}
    (name : m.Image token token') (stands : m.Image span span')
    (takes : m.Image params params') (gives : m.Image results results') :
    m.Image (⟨token.text, token.span, span, params, results⟩ : InterfaceMethod)
      ⟨token'.text, token'.span, span', params', results'⟩ := by
  change m.visitor.interfaceMethod _ = _
  unfold SpanVisitor.interfaceMethod
  simp only [show m.visitor.named token.text token.span = _ from name, bind_ok,
    show m.visitor.span span = .ok span' from stands, SpanVisitor.params_eq_ok_iff.mpr takes,
    SpanVisitor.params_eq_ok_iff.mpr gives]
  rfl

end Lists

section Shapes

/-- An identifier becomes an identifier. -/
theorem ident_of_image {name : String} {span : Span} {image : Node}
    (related : m.Image (Node.ident name span) image) :
    ∃ name' span', image = .ident name' span' ∧
      m.visitor.named name span = .ok (name', span') := by
  change m.visitor.node _ = _ at related
  rw [SpanVisitor.node] at related
  obtain ⟨⟨name', span'⟩, named, related⟩ := bind_eq_ok.mp related
  cases related
  exact ⟨name', span', rfl, named⟩

/-- A selector becomes a selector. -/
theorem selector_of_image {base image : Node} {name : String} {span : Span}
    (related : m.Image (Node.selector base name span) image) :
    ∃ base' name' span', image = .selector base' name' span' ∧ m.Image base base' ∧
      m.visitor.named name span = .ok (name', span') := by
  change m.visitor.node _ = _ at related
  rw [SpanVisitor.node] at related
  obtain ⟨base', inner, related⟩ := bind_eq_ok.mp related
  obtain ⟨⟨name', span'⟩, named, related⟩ := bind_eq_ok.mp related
  cases related
  exact ⟨base', name', span', rfl, inner, named⟩

/-- A unary operator becomes one of the same sort. -/
theorem unary_of_image {op : UnaryOp} {operand image : Node}
    (related : m.Image (Node.unary op operand) image) :
    ∃ operand', image = .unary op operand' ∧ m.Image operand operand' := by
  change m.visitor.node _ = _ at related
  rw [SpanVisitor.node] at related
  obtain ⟨operand', inner, related⟩ := bind_eq_ok.mp related
  cases related
  exact ⟨operand', rfl, inner⟩

/-- An index expression becomes an index expression. -/
theorem index_of_image {base image : Node} {indices : List Node}
    (related : m.Image (Node.index base indices) image) :
    ∃ base' indices', image = .index base' indices' ∧ m.Image base base' := by
  change m.visitor.node _ = _ at related
  rw [SpanVisitor.node] at related
  obtain ⟨base', inner, related⟩ := bind_eq_ok.mp related
  obtain ⟨indices', -, related⟩ := bind_eq_ok.mp related
  cases related
  exact ⟨base', indices', rfl, inner⟩

/-- A composite type becomes one of the same form. -/
theorem typeExpr_of_image {form : TypeForm} {parts : List Node} {image : Node}
    (related : m.Image (Node.typeExpr form parts) image) :
    ∃ parts', image = .typeExpr form parts' := by
  change m.visitor.node _ = _ at related
  rw [SpanVisitor.node] at related
  obtain ⟨parts', -, related⟩ := bind_eq_ok.mp related
  cases related
  exact ⟨parts', rfl⟩

/-- A tree becomes one of the same sort. -/
theorem ctorIdx_of_image {node image : Node} (related : m.Image node image) :
    image.ctorIdx = node.ctorIdx :=
  SpanVisitor.ctorIdx_of_node related

/-- What can be the type of a composite literal stays so. -/
theorem isLiteralType_of_image : ∀ {node image : Node}, m.Image node image →
    image.isLiteralType = node.isLiteralType
  | .index base indices, image, related => by
    obtain ⟨base', indices', rfl, inner⟩ := index_of_image related
    rw [Node.isLiteralType, Node.isLiteralType, isLiteralType_of_image inner]
  | .typeExpr _ _, image, related => by
    obtain ⟨_, rfl⟩ := typeExpr_of_image related
    rfl
  | .ident _ _, image, related | .selector _ _ _, image, related
  | .call _ _, image, related | .composite _ _, image, related | .keyValue _ _, image, related
  | .unary _ _, image, related | .binary _ _, image, related | .typeAssert _ _, image, related
  | .literal _, image, related | .funcLit _ _ _, image, related | .block _ _, image, related
  | .define _ _ _, image, related | .assign _ _, image, related | .branch _ _ _, image, related
  | .list _, image, related => by
    have same := ctorIdx_of_image related
    cases image <;> first | rfl | simp [Node.ctorIdx] at same

/-- The name of an embedded field is exchanged with that of its type. -/
theorem embeddedName_of_image : ∀ {node image : Node}, m.Image node image → node.whole = true →
    node.embeddedNameSpan = none ∧ image.embeddedNameSpan = none ∨
      ∃ span span', node.embeddedNameSpan = some span ∧ image.embeddedNameSpan = some span' ∧
        m.visitor.named (node.baseTypeName.getD "") span = .ok (image.baseTypeName.getD "", span')
  | .ident name span, image, related, _ => by
    obtain ⟨name', span', rfl, named⟩ := ident_of_image related
    exact Or.inr ⟨span, span', rfl, rfl, named⟩
  | .selector base name span, image, related, whole => by
    obtain ⟨base', name', span', rfl, inner, named⟩ := selector_of_image related
    cases base with
    | ident qualifier at_ =>
      obtain ⟨qualifier', at', rfl, -⟩ := ident_of_image inner
      exact Or.inr ⟨span, span', rfl, rfl, named⟩
    | _ => exact absurd whole (by simp [Node.whole])
  | .unary op operand, image, related, whole => by
    obtain ⟨operand', rfl, inner⟩ := unary_of_image related
    cases op with
    | deref =>
      rw [Node.whole] at whole
      have known := embeddedName_of_image inner whole
      exact known
    | _ => exact absurd whole (by simp [Node.whole])
  | .index base indices, image, related, whole => by
    obtain ⟨base', indices', rfl, inner⟩ := index_of_image related
    rw [Node.whole] at whole
    have known := embeddedName_of_image inner whole
    exact known
  | .call _ _, image, related, _ | .composite _ _, image, related, _
  | .keyValue _ _, image, related, _ | .binary _ _, image, related, _
  | .typeAssert _ _, image, related, _ | .typeExpr _ _, image, related, _
  | .literal _, image, related, _ | .funcLit _ _ _, image, related, _
  | .block _ _, image, related, _ | .define _ _ _, image, related, _
  | .assign _ _, image, related, _ | .branch _ _ _, image, related, _
  | .list _, image, related, _ => by
    have same := ctorIdx_of_image related
    refine Or.inl ⟨rfl, ?_⟩
    cases image <;> first | rfl | simp [Node.ctorIdx] at same

/-- The field that embeds a type has an image when the type and its place have images. -/
theorem image_embedding {node node' : Node} {span span' : Span} (type : m.Image node node')
    (whole : node.whole = true) (stands : m.Image span span') (doc : Option String) :
    m.Image (Field.embedding node span doc) (Field.embedding node' span' doc) := by
  unfold Field.embedding
  rcases embeddedName_of_image type whole with ⟨none, none'⟩ | ⟨at_, at', some, some', named⟩
  · rw [none, none']
    exact .nil
  · rw [some, some']
    refine .cons ?_ .nil
    change m.visitor.field _ = _
    unfold SpanVisitor.field
    simp only [named, bind_ok, show m.visitor.span span = .ok span' from stands,
      show m.visitor.node node = .ok node' from type]
    rfl

/-- The identifiers on the left side of a short declaration have images when that side has. -/
theorem image_bindingsOf {nodes nodes' : List Node} (related : m.Image nodes nodes') :
    m.Image (bindingsOf nodes) (bindingsOf nodes') := by
  induction related with
  | nil => exact .nil
  | @cons node node' rest rest' first _ ih =>
    unfold bindingsOf at ih ⊢
    rw [List.filterMap_cons, List.filterMap_cons]
    cases node with
    | ident name span =>
      obtain ⟨name', span', rfl, named⟩ := ident_of_image first
      refine .cons ?_ ih
      change m.visitor.binding _ = _
      rw [SpanVisitor.binding]
      simp only [named]
      rfl
    | _ =>
      have same := ctorIdx_of_image first
      cases node' <;> first | exact ih | simp [Node.ctorIdx] at same

instance : Imaged ParamEntry := ⟨fun m => Parse.EntryBeside m.NameImage m.Image m.Image⟩

/-- A parameter with a name has an image when its name, place and type have images. -/
theorem image_namedParam {name name' : String} {nameSpan nameSpan' span span' : Span}
    {node node' : Node} (named : m.visitor.named name nameSpan = .ok (name', nameSpan'))
    (stands : m.Image span span') (type : m.Image node node') :
    m.Image (⟨some name, some nameSpan, span, node⟩ : Param)
      ⟨some name', some nameSpan', span', node'⟩ := by
  change m.visitor.param _ = _
  rw [SpanVisitor.param, SpanVisitor.optionalName]
  simp only [named, bind_ok, show m.visitor.span span = .ok span' from stands,
    show m.visitor.node node = .ok node' from type]
  rfl

/-- A parameter without a name has an image when its place and its type have images. -/
theorem image_bareParam {span span' : Span} {node node' : Node} (stands : m.Image span span')
    (type : m.Image node node') :
    m.Image (⟨none, none, span, node⟩ : Param) ⟨none, none, span', node'⟩ := by
  change m.visitor.param _ = _
  rw [SpanVisitor.param]
  simp only [SpanVisitor.optionalName, show m.visitor.span span = .ok span' from stands,
    show m.visitor.node node = .ok node' from type]
  rfl

/-- Parameters of a list with names have images when its entries have images. -/
theorem image_namedParams {entries entries' : List ParamEntry}
    (related : m.Image entries entries') :
    ∀ {waiting waiting' : List Binding}, m.Image waiting waiting' →
      m.Image (namedParams waiting entries) (namedParams waiting' entries') := by
  induction related with
  | nil => exact fun _ => .nil
  | @cons entry entry' rest rest' first _ ih =>
    intro waiting waiting' waits
    obtain ⟨name, span, node⟩ := entry
    obtain ⟨name', span', node'⟩ := entry'
    obtain ⟨names, stands, type⟩ := first
    cases names with
    | @some token token' named =>
      rw [namedParams, namedParams]
      refine image_append (image_map ?_ waits) (.cons (image_namedParam named stands type)
        (ih .nil))
      intro binding binding' given
      change m.visitor.binding _ = _ at given
      rw [SpanVisitor.binding] at given
      obtain ⟨⟨text, place⟩, named', given⟩ := bind_eq_ok.mp given
      cases given
      exact image_namedParam named' stands type
    | none =>
      cases node with
      | ident text place =>
        obtain ⟨text', place', rfl, named⟩ := ident_of_image type
        rw [namedParams, namedParams]
        refine ih (image_append waits (.cons ?_ .nil))
        change m.visitor.binding _ = _
        rw [SpanVisitor.binding]
        simp only [named]
        rfl
      | _ =>
        have same := ctorIdx_of_image type
        cases node' <;> first | exact ih waits | simp [Node.ctorIdx] at same

/-- Parameters of a list have images when its entries have images. -/
theorem image_paramsOf {entries entries' : List ParamEntry} (related : m.Image entries entries') :
    m.Image (paramsOf entries) (paramsOf entries') := by
  have same : (entries'.all fun entry => entry.name.isNone) =
      entries.all fun entry => entry.name.isNone := by
    induction related with
    | nil => rfl
    | cons first _ ih =>
      rw [List.all_cons, List.all_cons, ih, isNone_of_image first.name]
  unfold paramsOf
  rw [same]
  split
  · refine image_map ?_ related
    intro entry entry' given
    exact image_bareParam (Parse.EntryBeside.typeSpan given) (Parse.EntryBeside.typeNode given)
  · exact image_namedParams related .nil

end Shapes

section Reading

open Parse (Row Optional)

/-- A type, which an embedded field is known by. -/
def TypeImage (m : Mirror) (node image : Node) : Prop := m.Image node image ∧ node.whole = true

variable {low high : Nat}

/-- Trees that are related behind each other are images. -/
theorem image_row {nodes nodes' : List Node}
    (row : Row (fun _ _ => m.Image) low high nodes nodes') : m.Image nodes nodes' :=
  row.forall₂ id

/-- A tree that may be left out has an image if it is there. -/
theorem image_optional {node node' : Option Node}
    (here : Optional (fun _ _ => m.Image) low high node node') : m.Image node node' := by
  cases here with
  | none => exact .none
  | some given => exact .some given

/-- Reading at linked places, with names and spans of the values exchanged. -/
def reading (m : Mirror) : Parse.Reading where
  toSteps := m.steps
  Tree _ _ := m.Image
  TypeTree _ _ := m.TypeImage
  Stmt _ _ := m.Image
  Bindings := m.Image
  Params _ _ := m.Image
  Fields _ _ := m.Image
  Interface _ _ := m.Image
  treeMono _ _ tree := tree
  typeMono _ _ type := type
  stmtMono _ _ stmt := stmt
  typeTree type := type.1
  treeStmt tree := tree
  named name := ⟨image_ident name, rfl⟩
  qualified first second := ⟨image_selector (image_ident first) second, rfl⟩
  applied base args := ⟨image_index base.1 (image_row args), base.2⟩
  pointer type := ⟨image_unary _ type.1, type.2⟩
  literal _ span := ⟨image_literal span, rfl⟩
  typeExpr form parts := ⟨image_typeExpr form (image_row parts), rfl⟩
  funcType takes gives :=
    ⟨image_typeExpr _ (image_append (image_paramTypes takes) (image_paramTypes gives)), rfl⟩
  structType fields := ⟨image_typeExpr _ (image_fieldTypes fields), rfl⟩
  interfaceType lines :=
    ⟨image_typeExpr _ (image_append (image_signatures lines.1) lines.2), rfl⟩
  selector base name := image_selector base name
  unary op operand := image_unary op operand
  binary left right := image_binary left right
  keyValue key value := image_keyValue key value
  call func args := image_call func (image_row args)
  index base indices := image_index base (image_row indices)
  composite type elems := image_composite (image_optional type) (image_row elems)
  typeAssert base type := image_typeAssert base (image_optional type)
  funcLit takes gives body := image_funcLit takes gives body
  block span stmts := image_block span (image_row stmts)
  isLiteralType_eq tree := isLiteralType_of_image tree
  define names type values := image_define names (image_optional type) (image_row values)
  assign targets values := image_assign (image_row targets) (image_row values)
  branch header body alt := image_branch (image_row header) body (image_optional alt)
  list items := image_list (image_row items)
  ofDefinitions nodes := image_ofDefinitions (image_row nodes)
  bindings tokens := image_bindings tokens
  bindingsOf nodes := image_bindingsOf (image_row nodes)
  noParams _ := .nil
  bareParam span node := .cons (image_bareParam span node) .nil
  paramsOf entries := image_paramsOf (entries.forall₂ id)
  noFields _ := .nil
  fieldsBehind fields others := image_append fields others
  fieldsNamed doc tokens span node := image_fields doc tokens span node
  embedding doc type span := image_embedding type.1 type.2 span doc
  noLines _ := ⟨.nil, .nil⟩
  method name span takes gives lines :=
    ⟨.cons (image_method name span takes gives) lines.1, lines.2⟩
  embeds union lines := ⟨lines.1, image_append (image_row union) lines.2⟩

end Reading

end Mirror

end GoRefactor
