import GoRefactor.Proofs.Go.Parser.Steps

/-!
# How values are read

A reading relates the values that two computations give, between the offset where reading them
started and one where it stopped. It says of each kind of value that the parser puts together that
it is related when its parts are, one behind the other.
-/

namespace GoRefactor

namespace Parse

variable {α β : Type} {R : Nat → Nat → α → β → Prop} {low middle high : Nat}

/-- Values behind each other. -/
inductive Row (R : Nat → Nat → α → β → Prop) : Nat → Nat → List α → List β → Prop
  /-- No values. -/
  | nil {low high : Nat} (order : low ≤ high) : Row R low high [] []
  /-- Values behind a value. -/
  | cons {low middle high : Nat} {value : α} {image : β} {values : List α} {images : List β}
    (head : R low middle value image) (rest : Row R middle high values images) :
    Row R low high (value :: values) (image :: images)

/-- A value that may be left out. -/
inductive Optional (R : Nat → Nat → α → β → Prop) : Nat → Nat → Option α → Option β → Prop
  /-- No value. -/
  | none {low high : Nat} (order : low ≤ high) : Optional R low high none none
  /-- A value. -/
  | some {low high : Nat} {value : α} {image : β} (here : R low high value image) :
    Optional R low high (some value) (some image)

namespace Row

variable {value : α} {image : β} {values others : List α} {images others' : List β}

/-- One value is a row. -/
theorem single (here : R low high value image) : Row R low high [value] [image] :=
  cons here (nil (Nat.le_refl high))

/-- Reading may go on behind the values. -/
theorem upTo (row : Row R low middle values images) (above : middle ≤ high) :
    Row R low high values images := by
  induction row with
  | nil order => exact nil (Nat.le_trans order above)
  | cons head _ ih => exact cons head (ih above)

/-- Values behind values, if those may be further apart. -/
theorem append (wider : ∀ {low middle high value image}, low ≤ middle → R middle high value image →
      R low high value image) (first : Row R low middle values images)
    (second : Row R middle high others others') :
    Row R low high (values ++ others) (images ++ others') := by
  induction first with
  | nil order =>
    cases second with
    | nil order' => exact nil (Nat.le_trans order order')
    | cons head rest => exact cons (wider order head) rest
  | cons head _ ih => exact cons head (ih second)

/-- Values that are related one by one, wherever they stand. -/
theorem forall₂ {R' : α → β → Prop} (row : Row R low high values images)
    (implies : ∀ {low high value image}, R low high value image → R' value image) :
    List.Forall₂ R' values images := by
  induction row with
  | nil => exact .nil
  | cons head _ ih => exact .cons (implies head) ih

/-- Values that are the same one by one. -/
theorem eq_of {R : Nat → Nat → α → α → Prop} {values images : List α}
    (row : Row R low high values images)
    (same : ∀ {low high value image}, R low high value image → value = image) :
    values = images := by
  induction row with
  | nil => rfl
  | cons head _ ih => rw [same head, ih]

/-- What is known of values that are related is known of each value of a row. -/
theorem forall_mem {P : α → Prop} (row : Row R low high values images)
    (known : ∀ {low high value image}, R low high value image → P value) :
    ∀ value ∈ values, P value := by
  induction row with
  | nil => exact List.forall_mem_nil _
  | cons head _ ih => exact List.forall_mem_cons.mpr ⟨known head, ih⟩

/-- A value that may be left out, as values. -/
theorem ofOptional {given : Option α} {given' : Option β}
    (here : Optional R low high given given') :
    Row R low high given.toList given'.toList := by
  cases here with
  | none order => exact nil order
  | some here => exact single here

end Row

/-- A value that is the same if it is there. -/
theorem Optional.eq_of {R : Nat → Nat → α → α → Prop} {given given' : Option α}
    (here : Optional R low high given given')
    (same : ∀ {low high value image}, R low high value image → value = image) :
    given = given' := by
  cases here with
  | none => rfl
  | some here => rw [same here]

/-- Two entries of parameter lists. -/
structure EntryBeside (Spelled : Token → Token → Prop) (Place : Span → Span → Prop)
    (Tree : Node → Node → Prop) (entry image : ParamEntry) : Prop where
  /-- Both have names, or none has. -/
  name : Option.Rel Spelled entry.name image.name
  /-- Where the types stand. -/
  typeSpan : Place entry.typeSpan image.typeSpan
  /-- The types. -/
  typeNode : Tree entry.typeNode image.typeNode

/-- Entries that are the same. -/
theorem EntryBeside.eq {Tree : Node → Node → Prop} {entry image : ParamEntry}
    (beside : EntryBeside Eq Eq Tree entry image)
    (same : ∀ {node image}, Tree node image → node = image) : entry = image := by
  obtain ⟨name, typeSpan, typeNode⟩ := entry
  obtain ⟨name', typeSpan', typeNode'⟩ := image
  obtain ⟨names, stands, types⟩ := beside
  cases stands
  cases same types
  cases names with
  | none => rfl
  | some equal => rw [equal]

/-- How two computations read side by side, and what they read. -/
structure Reading extends Steps where
  /-- Two expressions. -/
  Tree : Nat → Nat → Node → Node → Prop
  /-- Two types. -/
  TypeTree : Nat → Nat → Node → Node → Prop
  /-- Two statements. -/
  Stmt : Nat → Nat → Node → Node → Prop
  /-- Names that are introduced. -/
  Bindings : List Binding → List Binding → Prop
  /-- Parameters. -/
  Params : Nat → Nat → List Param → List Param → Prop
  /-- Fields of structs. -/
  Fields : Nat → Nat → List Field → List Field → Prop
  /-- Methods and embedded types of interfaces. -/
  Interface : Nat → Nat → List InterfaceMethod × List Node → List InterfaceMethod × List Node → Prop
  treeMono {low low' high high' : Nat} {node image : Node} : low' ≤ low → high ≤ high' →
    Tree low high node image → Tree low' high' node image
  typeMono {low low' high high' : Nat} {node image : Node} : low' ≤ low → high ≤ high' →
    TypeTree low high node image → TypeTree low' high' node image
  stmtMono {low low' high high' : Nat} {node image : Node} : low' ≤ low → high ≤ high' →
    Stmt low high node image → Stmt low' high' node image
  /-- A type is an expression. -/
  typeTree {low high : Nat} {node image : Node} : TypeTree low high node image →
    Tree low high node image
  /-- An expression is a statement. -/
  treeStmt {low high : Nat} {node image : Node} : Tree low high node image →
    Stmt low high node image
  named {low high : Nat} {token image : Token} : Name low high token image →
    TypeTree low high (.ident token.text token.span) (.ident image.text image.span)
  qualified {low middle high : Nat} {first first' second second' : Token} :
    Name low middle first first' → Name middle high second second' →
      TypeTree low high (.selector (.ident first.text first.span) second.text second.span)
        (.selector (.ident first'.text first'.span) second'.text second'.span)
  applied {low middle high : Nat} {base base' : Node} {args args' : List Node} :
    TypeTree low middle base base' → Row Tree middle high args args' →
      TypeTree low high (.index base args) (.index base' args')
  pointer {low high : Nat} {node image : Node} : TypeTree low high node image →
    TypeTree low high (.unary .deref node) (.unary .deref image)
  literal {low high : Nat} {span span' : Span} : low ≤ high → Place span span' →
    TypeTree low high (.literal span) (.literal span')
  typeExpr {low high : Nat} {parts parts' : List Node} (form : TypeForm) :
    Row Tree low high parts parts' →
      TypeTree low high (.typeExpr form parts) (.typeExpr form parts')
  funcType {low middle high : Nat} {takes takes' gives gives' : List Param} :
    Params low middle takes takes' → Params middle high gives gives' →
      TypeTree low high (.typeExpr .func (paramTypes takes ++ paramTypes gives))
        (.typeExpr .func (paramTypes takes' ++ paramTypes gives'))
  structType {low high : Nat} {fields fields' : List Field} : Fields low high fields fields' →
    TypeTree low high (.typeExpr .struct (fields.map (·.typeNode)))
      (.typeExpr .struct (fields'.map (·.typeNode)))
  interfaceType {low high : Nat} {lines lines' : List InterfaceMethod × List Node} :
    Interface low high lines lines' →
      TypeTree low high
        (.typeExpr .interface ((lines.1.flatMap fun method =>
          paramTypes method.params ++ paramTypes method.results) ++ lines.2))
        (.typeExpr .interface ((lines'.1.flatMap fun method =>
          paramTypes method.params ++ paramTypes method.results) ++ lines'.2))
  selector {low middle high : Nat} {base base' : Node} {token image : Token} :
    Tree low middle base base' → Name middle high token image →
      Tree low high (.selector base token.text token.span) (.selector base' image.text image.span)
  unary {low high : Nat} {node image : Node} (op : UnaryOp) : Tree low high node image →
    Tree low high (.unary op node) (.unary op image)
  binary {low middle high : Nat} {left left' right right' : Node} : Tree low middle left left' →
    Tree middle high right right' → Tree low high (.binary left right) (.binary left' right')
  keyValue {low middle high : Nat} {key key' value value' : Node} : Tree low middle key key' →
    Tree middle high value value' → Tree low high (.keyValue key value) (.keyValue key' value')
  call {low middle high : Nat} {func func' : Node} {args args' : List Node} :
    Tree low middle func func' → Row Tree middle high args args' →
      Tree low high (.call func args) (.call func' args')
  index {low middle high : Nat} {base base' : Node} {indices indices' : List Node} :
    Tree low middle base base' → Row Tree middle high indices indices' →
      Tree low high (.index base indices) (.index base' indices')
  composite {low middle high : Nat} {type type' : Option Node} {elems elems' : List Node} :
    Optional Tree low middle type type' → Row Tree middle high elems elems' →
      Tree low high (.composite type elems) (.composite type' elems')
  typeAssert {low middle high : Nat} {base base' : Node} {type type' : Option Node} :
    Tree low middle base base' → Optional Tree middle high type type' →
      Tree low high (.typeAssert base type) (.typeAssert base' type')
  funcLit {low middle place high : Nat} {takes takes' gives gives' : List Param}
    {body body' : Node} : Params low middle takes takes' → Params middle place gives gives' →
      Tree place high body body' →
        Tree low high (.funcLit takes gives body) (.funcLit takes' gives' body')
  block {low high : Nat} {span span' : Span} {stmts stmts' : List Node} : Place span span' →
    Row Stmt low high stmts stmts' → Tree low high (.block span stmts) (.block span' stmts')
  /-- Both expressions can be the type of a composite literal, or none can. -/
  isLiteralType_eq {low high : Nat} {node image : Node} : Tree low high node image →
    image.isLiteralType = node.isLiteralType
  define {low middle high : Nat} {names names' : List Binding} {type type' : Option Node}
    {values values' : List Node} : Bindings names names' → Optional Tree low middle type type' →
      Row Tree middle high values values' →
        Stmt low high (.define names type values) (.define names' type' values')
  assign {low middle high : Nat} {targets targets' values values' : List Node} :
    Row Tree low middle targets targets' → Row Tree middle high values values' →
      Stmt low high (.assign targets values) (.assign targets' values')
  branch {low middle place high : Nat} {header header' : List Node} {body body' : Node}
    {alt alt' : Option Node} : Row Stmt low middle header header' → Stmt middle place body body' →
      Optional Stmt place high alt alt' →
        Stmt low high (.branch header body alt) (.branch header' body' alt')
  list {low high : Nat} {items items' : List Node} : Row Tree low high items items' →
    Stmt low high (.list items) (.list items')
  ofDefinitions {low high : Nat} {nodes nodes' : List Node} : Row Stmt low high nodes nodes' →
    Stmt low high (.ofDefinitions nodes) (.ofDefinitions nodes')
  bindings {tokens images : List Token} : List.Forall₂ Spelled tokens images →
    Bindings (tokens.map fun token => ⟨token.text, token.span⟩)
      (images.map fun token => ⟨token.text, token.span⟩)
  bindingsOf {low high : Nat} {nodes nodes' : List Node} : Row Tree low high nodes nodes' →
    Bindings (bindingsOf nodes) (bindingsOf nodes')
  noParams {low high : Nat} : low ≤ high → Params low high [] []
  bareParam {low high : Nat} {span span' : Span} {node image : Node} : Place span span' →
    Tree low high node image →
      Params low high [⟨none, none, span, node⟩] [⟨none, none, span', image⟩]
  paramsOf {low high : Nat} {entries entries' : List ParamEntry} :
    Row (fun low high => EntryBeside Spelled Place (Tree low high)) low high entries entries' →
      Params low high (paramsOf entries) (paramsOf entries')
  noFields {low high : Nat} : low ≤ high → Fields low high [] []
  fieldsBehind {low middle high : Nat} {fields fields' others others' : List Field} :
    Fields low middle fields fields' → Fields middle high others others' →
      Fields low high (fields ++ others) (fields' ++ others')
  fieldsNamed {low high : Nat} {tokens images : List Token} {span span' : Span}
    {node image : Node} (doc : Option String) : List.Forall₂ Spelled tokens images →
      Place span span' → Tree low high node image →
        Fields low high (tokens.map fun token => ⟨token.text, token.span, span, node, false, doc⟩)
          (images.map fun token => ⟨token.text, token.span, span', image, false, doc⟩)
  embedding {low high : Nat} {span span' : Span} {node image : Node} (doc : Option String) :
    TypeTree low high node image → Place span span' →
      Fields low high (Field.embedding node span doc) (Field.embedding image span' doc)
  noLines {low high : Nat} : low ≤ high → Interface low high ([], []) ([], [])
  method {low middle place high : Nat} {token image : Token} {span span' : Span}
    {takes takes' gives gives' : List Param} {lines lines' : List InterfaceMethod × List Node} :
    Spelled token image → Place span span' → Params low middle takes takes' →
      Params middle place gives gives' → Interface place high lines lines' →
        Interface low high (⟨token.text, token.span, span, takes, gives⟩ :: lines.1, lines.2)
          (⟨image.text, image.span, span', takes', gives'⟩ :: lines'.1, lines'.2)
  embeds {low middle high : Nat} {union union' : List Node}
    {lines lines' : List InterfaceMethod × List Node} : Row Tree low middle union union' →
      Interface middle high lines lines' →
        Interface low high (lines.1, union ++ lines.2) (lines'.1, union' ++ lines'.2)

namespace Reading

variable {R : Reading} {node image : Node}

/-- Two entries of parameter lists. -/
abbrev Entry (R : Reading) (low high : Nat) : ParamEntry → ParamEntry → Prop :=
  EntryBeside R.Spelled R.Place (R.Tree low high)

/-- Reading may go on behind an expression. -/
theorem treeUpTo (tree : R.Tree low middle node image) (above : middle ≤ high) :
    R.Tree low high node image := R.treeMono (Nat.le_refl low) above tree

/-- Reading may go on behind a type. -/
theorem typeUpTo (type : R.TypeTree low middle node image) (above : middle ≤ high) :
    R.TypeTree low high node image := R.typeMono (Nat.le_refl low) above type

/-- Reading may go on behind a statement. -/
theorem stmtUpTo (stmt : R.Stmt low middle node image) (above : middle ≤ high) :
    R.Stmt low high node image := R.stmtMono (Nat.le_refl low) above stmt

/-- Statements behind statements are a row. -/
theorem stmtsBehind {nodes nodes' others others' : List Node}
    (first : Row R.Stmt low middle nodes nodes') (second : Row R.Stmt middle high others others') :
    Row R.Stmt low high (nodes ++ others) (nodes' ++ others') :=
  .append (fun order => R.stmtMono order (Nat.le_refl _)) first second

end Reading

/-! ## Reading from one place -/

/-- What offsets say of places, when both computations read from the same one. -/
structure Trail where
  /-- The place is at the offset. -/
  At : Nat → Cursor → Prop
  /-- The name stands between the offsets. -/
  Named : Nat → Nat → Token → Prop
  /-- Tokens lead on. -/
  advance {offset : Nat} {cursor : Cursor} : At offset cursor →
    ∃ stop, offset ≤ stop ∧ At stop cursor.advance
  /-- A name stands where it is taken. -/
  name {offset : Nat} {cursor : Cursor} : At offset cursor →
    (cursor.peekAt 0).kind = .identifier →
      ∃ stop, offset ≤ stop ∧ At stop cursor.advance ∧ Named offset stop (cursor.peekAt 0)
  /-- Names have more room further apart. -/
  named_from {low middle high : Nat} {token : Token} : low ≤ middle → Named middle high token →
    Named low high token

namespace Trail

/-- Any number of tokens leads on. -/
theorem advanceBy (trail : Trail) {offset : Nat} {cursor : Cursor} (here : trail.At offset cursor)
    (count : Nat) : ∃ stop, offset ≤ stop ∧ trail.At stop (cursor.advanceBy count) := by
  induction count generalizing offset cursor with
  | zero => exact ⟨offset, Nat.le_refl offset, here⟩
  | succ count ih =>
    obtain ⟨middle, order, further⟩ := trail.advance here
    obtain ⟨stop, order', there⟩ := ih further
    exact ⟨stop, Nat.le_trans order order', there⟩

/-- Both computations stop at one place and give related values. -/
def Beside (trail : Trail) {α β : Type} (holds : Cursor → Prop) (place : Nat)
    (post : Nat → α → β → Prop) (first : Parse α) (second : Parse β) : Prop :=
  ∀ cursor, trail.At place cursor → holds cursor →
    (second.run cursor).2 = (first.run cursor).2 ∧
      ∃ stop, place ≤ stop ∧ trail.At stop (first.run cursor).2 ∧
        post stop (first.run cursor).1 (second.run cursor).1

variable {trail : Trail} {α β γ δ : Type} {holds : Cursor → Prop} {place : Nat}

/-- A computation is beside itself if what it gives at a place is related to itself. -/
theorem beside_self {post : Nat → α → α → Prop} {parse : Parse α}
    (gives : ∀ cursor stop, post stop (parse.run cursor).1 (parse.run cursor).1) :
    trail.Beside holds place post parse parse := by
  intro cursor here _
  obtain ⟨count, stops⟩ := parse.advances cursor
  obtain ⟨stop, order, there⟩ := trail.advanceBy here count
  exact ⟨rfl, stop, order, by rwa [stops], gives cursor stop⟩

/-- What follows is beside each other behind a token that is taken unless one was. -/
theorem beside_keepMoving {after : Cursor → Prop} {post : Nat → α → β → Prop} {before : Nat}
    {following : Unit → Parse α} {following' : Unit → Parse β}
    (moves : ∀ {cursor}, holds cursor →
      after (if cursor.taken = before then cursor.advance else cursor))
    (behind : ∀ {stop}, place ≤ stop →
      trail.Beside after stop post (following ()) (following' ())) :
    trail.Beside holds place post (keepMoving before >>= following)
      (keepMoving before >>= following') := by
  intro cursor here known
  obtain ⟨middle, order, between⟩ :=
    trail.advanceBy here (if cursor.taken == before then 1 else 0)
  have further : after (cursor.advanceBy (if cursor.taken == before then 1 else 0)) := by
    have moved := moves known
    by_cases same : cursor.taken = before
    · rw [if_pos same] at moved
      rwa [if_pos (beq_iff_eq.mpr same)]
    · rw [if_neg same] at moved
      rwa [if_neg (fun equal => same (beq_iff_eq.mp equal))]
  obtain ⟨same, stop, order', there, related⟩ := behind order _ between further
  exact ⟨same, stop, Nat.le_trans order order', there, related⟩

/-- Two computations that read from the same place. -/
def steps (trail : Trail) (bounded : Prop) : Steps where
  Rel := trail.Beside
  Name low high token image := token = image ∧ trail.Named low high token
  Spelled := Eq
  Mark := Eq
  Place := Eq
  Start := Eq
  Count := Eq
  bounded := bounded
  pure here cursor at_ _ := ⟨rfl, _, Nat.le_refl _, at_, here⟩
  bind after moves first second cursor at_ here := by
    obtain ⟨same, middle, order, between, related⟩ := first cursor at_ here
    obtain ⟨count, stops⟩ := Parse.advances _ cursor
    obtain ⟨same', stop, order', there, related'⟩ :=
      second order related _ between (stops ▸ moves count here)
    rw [run_bind, run_bind, same]
    exact ⟨same', stop, Nat.le_trans order order', there, related'⟩
  imp wider implies cursor at_ here := wider cursor at_ (implies here)
  never nowhere cursor _ here := absurd here nowhere
  plain _ := beside_self fun _ _ => rfl
  ask _ following cursor at_ here := following cursor at_ ⟨here, rfl⟩
  take after moves following cursor at_ here := by
    obtain ⟨middle, order, between⟩ := trail.advance at_
    obtain ⟨same, stop, order', there, related⟩ := following order rfl _ between (moves here)
    exact ⟨same, stop, Nat.le_trans order order', there, related⟩
  takeName after moves following cursor at_ here := by
    obtain ⟨named, further⟩ := moves here
    obtain ⟨middle, order, between, stands⟩ := trail.name at_ named
    obtain ⟨same, stop, order', there, related⟩ :=
      following order ⟨rfl, stands⟩ _ between further
    exact ⟨same, stop, Nat.le_trans order order', there, related⟩
  names := beside_self fun _ _ => List.forall₂_refl _
  moreNames := beside_self fun _ _ => List.forall₂_refl _
  nextSpan := beside_self fun _ _ => rfl
  nextStart := beside_self fun _ _ => rfl
  spanFrom := fun | rfl => beside_self fun _ _ => rfl
  taken following cursor at_ here := following rfl cursor at_ ⟨here, rfl⟩
  keepMoving after counts moves following := by
    cases counts
    exact beside_keepMoving moves following
  nameFrom order name := ⟨name.1, trail.named_from order name.2⟩
  spelled name := name.1
  markSpan := fun | rfl => rfl
  markUpTo := fun | rfl, rfl => rfl
  startPoint := fun | rfl => rfl

/-- Names that are read from one place are the same. -/
theorem eq_of_spelled {bounded : Prop} {tokens images : List Token}
    (names : List.Forall₂ (trail.steps bounded).Spelled tokens images) : tokens = images := by
  change List.Forall₂ (· = ·) tokens images at names
  rwa [List.forall₂_eq_eq_eq] at names

/-- Nothing is said of places. -/
def anywhere : Trail where
  At _ _ := True
  Named _ _ _ := True
  advance _ := ⟨_, Nat.le_refl _, trivial⟩
  name _ _ := ⟨_, Nat.le_refl _, trivial, trivial⟩
  named_from _ _ := trivial

end Trail

end Parse

end GoRefactor
