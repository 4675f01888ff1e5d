import GoRefactor.Proofs.Go.Parser.Family
import GoRefactor.Proofs.Go.Parser.Formed

/-!
# The parser gives names with their places

A parameter is made in one place of the parser, from a token with its text and span or without any.
All other functions put trees together from trees, and names and places go together in the whole if
they do in the parts. So they do in all that the parser gives.
-/

namespace GoRefactor

namespace Node

variable {left : Node} {nodes others : List Node}

/-- In a single tree, names and places go together as they do in the tree. -/
theorem pairsAll_single (head : left.pairs = true) : pairsAll [left] = true :=
  Bool.and_eq_true_iff.mpr ⟨head, rfl⟩

/-- Names and places go together in trees behind trees if they do in both groups. -/
theorem pairsAll_append (first : pairsAll nodes = true) (second : pairsAll others = true) :
    pairsAll (nodes ++ others) = true := by
  rw [pairsAll_eq_true_iff] at *
  exact List.forall_mem_append.mpr ⟨first, second⟩

/-- Names and places go together in definitions as one statement if they do in each. -/
theorem pairs_ofDefinitions (pairs : pairsAll nodes = true) :
    (Node.ofDefinitions nodes).pairs = true := by
  unfold Node.ofDefinitions
  split
  · exact (Bool.and_eq_true_iff.mp pairs).1
  · exact pairs

/-- Names and places go together in the types of parameters if they do in the parameters. -/
theorem pairsAll_paramTypes {params : List Param} (pairs : pairsParams params = true) :
    pairsAll (paramTypes params) = true := by
  rw [pairsParams_eq_true_iff] at pairs
  rw [paramTypes, pairsAll_eq_true_iff]
  exact List.forall_mem_map.mpr fun param member => (pairs param member).2

/-- Parameters of a list in which some entry is named have the names of tokens. -/
theorem pairsParams_namedParams {entries : List ParamEntry}
    (pairs : ∀ entry ∈ entries, entry.typeNode.pairs = true) (waiting : List Binding) :
    pairsParams (namedParams waiting entries) = true := by
  rw [pairsParams_eq_true_iff]
  induction entries generalizing waiting with
  | nil => exact List.forall_mem_nil _
  | cons entry rest ih =>
    obtain ⟨here, later⟩ := List.forall_mem_cons.mp pairs
    rw [namedParams]
    split
    · refine List.forall_mem_append.mpr ⟨?_, List.forall_mem_cons.mpr ⟨⟨rfl, here⟩, ih later []⟩⟩
      exact List.forall_mem_map.mpr fun _ _ => ⟨rfl, here⟩
    · split
      · exact ih later _
      · exact ih later waiting

/-- Names and places go together in parameters if they do in the types of their entries. -/
theorem pairsParams_paramsOf {entries : List ParamEntry}
    (pairs : ∀ entry ∈ entries, entry.typeNode.pairs = true) :
    pairsParams (paramsOf entries) = true := by
  unfold paramsOf
  split
  · rw [pairsParams_eq_true_iff]
    exact List.forall_mem_map.mpr fun entry member => ⟨rfl, pairs entry member⟩
  · exact pairsParams_namedParams pairs []

end Node

namespace Parse

variable {stream : TokenStream} {low high limit : Nat}

/-- One tree, in which names and places go together. -/
def PairedTree (_ _ : Nat) (node image : Node) : Prop := node = image ∧ node.pairs = true

/-- Trees in which names and places go together. -/
theorem pairsAll_of_row {nodes images : List Node} (row : Row PairedTree low high nodes images) :
    nodes = images ∧ Node.pairsAll nodes = true :=
  ⟨row.eq_of (·.1), Node.pairsAll_eq_true_iff.mpr (row.forall_mem (·.2))⟩

/-- A tree that may be left out, in which names and places go together. -/
theorem pairsOption_of_optional {given given' : Option Node}
    (here : Optional PairedTree low high given given') :
    given = given' ∧ Node.pairsOption given = true := by
  cases here with
  | none => exact ⟨rfl, rfl⟩
  | some here => exact ⟨congrArg some here.1, here.2⟩

/-- Names and places go together in methods and embedded types. -/
def MethodsPair (body : List InterfaceMethod × List Node) : Prop :=
  body.1.all InterfaceMethod.pairs = true ∧ Node.pairsAll body.2 = true

/-- Names and places go together in the types of methods. -/
theorem MethodsPair.types {body : List InterfaceMethod × List Node} (pairs : MethodsPair body) :
    Node.pairsAll ((body.1.flatMap fun method =>
      paramTypes method.params ++ paramTypes method.results) ++ body.2) = true := by
  refine Node.pairsAll_append ?_ pairs.2
  rw [Node.pairsAll_eq_true_iff]
  intro node member
  obtain ⟨method, held, inside⟩ := List.mem_flatMap.mp member
  have both := Bool.and_eq_true_iff.mp (List.all_eq_true.mp pairs.1 method held)
  exact Node.pairsAll_eq_true_iff.mp (Node.pairsAll_append (Node.pairsAll_paramTypes both.1)
    (Node.pairsAll_paramTypes both.2)) node inside

/-- The field that embeds a type has no name but that of the type. -/
theorem pairsAll_embedding {node : Node} (span : Span) (doc : Option String)
    (type : node.pairs = true) :
    Node.pairsAll ((Field.embedding node span doc).map (·.typeNode)) = true := by
  unfold Field.embedding
  split
  · rfl
  · exact Node.pairsAll_single type

/-- The same values, in which names and places go together. -/
def paired : Reading where
  toSteps := Trail.anywhere.steps False
  Tree := PairedTree
  TypeTree := PairedTree
  Stmt := PairedTree
  Bindings := Eq
  Params _ _ params params' := params = params' ∧ Node.pairsParams params = true
  Fields _ _ fields fields' :=
    fields = fields' ∧ Node.pairsAll (fields.map (·.typeNode)) = true
  Interface _ _ lines lines' := lines = lines' ∧ MethodsPair lines
  treeMono _ _ tree := tree
  typeMono _ _ type := type
  stmtMono _ _ stmt := stmt
  typeTree type := type
  treeStmt tree := tree
  named name := ⟨name.1 ▸ rfl, rfl⟩
  qualified first second := ⟨first.1 ▸ second.1 ▸ rfl, rfl⟩
  applied base args :=
    have args := pairsAll_of_row args
    ⟨congrArg₂ _ base.1 args.1, Bool.and_eq_true_iff.mpr ⟨base.2, args.2⟩⟩
  pointer node := ⟨congrArg _ node.1, node.2⟩
  literal _ span := ⟨congrArg _ span, rfl⟩
  typeExpr form parts :=
    have parts := pairsAll_of_row parts
    ⟨congrArg _ parts.1, parts.2⟩
  funcType takes gives := ⟨takes.1 ▸ gives.1 ▸ rfl,
    Node.pairsAll_append (Node.pairsAll_paramTypes takes.2) (Node.pairsAll_paramTypes gives.2)⟩
  structType fields := ⟨fields.1 ▸ rfl, fields.2⟩
  interfaceType lines := ⟨lines.1 ▸ rfl, lines.2.types⟩
  selector base name := ⟨base.1 ▸ name.1 ▸ rfl, base.2⟩
  unary _ node := ⟨congrArg _ node.1, node.2⟩
  binary left right := ⟨congrArg₂ _ left.1 right.1, Bool.and_eq_true_iff.mpr ⟨left.2, right.2⟩⟩
  keyValue key value := ⟨congrArg₂ _ key.1 value.1, Bool.and_eq_true_iff.mpr ⟨key.2, value.2⟩⟩
  call func args :=
    have args := pairsAll_of_row args
    ⟨congrArg₂ _ func.1 args.1, Bool.and_eq_true_iff.mpr ⟨func.2, args.2⟩⟩
  index base indices :=
    have indices := pairsAll_of_row indices
    ⟨congrArg₂ _ base.1 indices.1, Bool.and_eq_true_iff.mpr ⟨base.2, indices.2⟩⟩
  composite type elems :=
    have type := pairsOption_of_optional type
    have elems := pairsAll_of_row elems
    ⟨congrArg₂ _ type.1 elems.1, Bool.and_eq_true_iff.mpr ⟨type.2, elems.2⟩⟩
  typeAssert base type :=
    have type := pairsOption_of_optional type
    ⟨congrArg₂ _ base.1 type.1, Bool.and_eq_true_iff.mpr ⟨base.2, type.2⟩⟩
  funcLit takes gives body := ⟨takes.1 ▸ gives.1 ▸ body.1 ▸ rfl,
    Bool.and_eq_true_iff.mpr ⟨Bool.and_eq_true_iff.mpr ⟨takes.2, gives.2⟩, body.2⟩⟩
  block span stmts :=
    have stmts := pairsAll_of_row stmts
    ⟨congrArg₂ _ span stmts.1, stmts.2⟩
  isLiteralType_eq node := node.1 ▸ rfl
  define names type values :=
    have type := pairsOption_of_optional type
    have values := pairsAll_of_row values
    ⟨names ▸ type.1 ▸ values.1 ▸ rfl, Bool.and_eq_true_iff.mpr ⟨type.2, values.2⟩⟩
  assign targets values :=
    have targets := pairsAll_of_row targets
    have values := pairsAll_of_row values
    ⟨congrArg₂ _ targets.1 values.1, Bool.and_eq_true_iff.mpr ⟨targets.2, values.2⟩⟩
  branch header body alt :=
    have header := pairsAll_of_row header
    have alt := pairsOption_of_optional alt
    ⟨header.1 ▸ body.1 ▸ alt.1 ▸ rfl,
      Bool.and_eq_true_iff.mpr ⟨Bool.and_eq_true_iff.mpr ⟨header.2, body.2⟩, alt.2⟩⟩
  list items :=
    have items := pairsAll_of_row items
    ⟨congrArg _ items.1, items.2⟩
  ofDefinitions nodes :=
    have nodes := pairsAll_of_row nodes
    ⟨congrArg _ nodes.1, Node.pairs_ofDefinitions nodes.2⟩
  bindings tokens := Trail.eq_of_spelled tokens ▸ rfl
  bindingsOf nodes := (nodes.eq_of (·.1)) ▸ rfl
  noParams _ := ⟨rfl, rfl⟩
  bareParam span node := ⟨span ▸ node.1 ▸ rfl,
    Node.pairsParams_eq_true_iff.mpr (List.forall_mem_singleton.mpr ⟨rfl, node.2⟩)⟩
  paramsOf entries := ⟨congrArg _ (entries.eq_of (·.eq (·.1))),
    Node.pairsParams_paramsOf (entries.forall_mem (·.typeNode.2))⟩
  noFields _ := ⟨rfl, rfl⟩
  fieldsBehind fields others := ⟨congrArg₂ _ fields.1 others.1, by
    rw [List.map_append]
    exact Node.pairsAll_append fields.2 others.2⟩
  fieldsNamed _ tokens span node := ⟨Trail.eq_of_spelled tokens ▸ span ▸ node.1 ▸ rfl, by
    rw [List.map_map, Node.pairsAll_eq_true_iff]
    exact List.forall_mem_map.mpr fun _ _ => node.2⟩
  embedding doc node span := ⟨node.1 ▸ span ▸ rfl, pairsAll_embedding _ doc node.2⟩
  noLines _ := ⟨rfl, rfl, rfl⟩
  method name span takes gives lines :=
    ⟨name ▸ span ▸ takes.1 ▸ gives.1 ▸ lines.1 ▸ rfl,
      Bool.and_eq_true_iff.mpr ⟨Bool.and_eq_true_iff.mpr ⟨takes.2, gives.2⟩, lines.2.1⟩, lines.2.2⟩
  embeds union lines :=
    have union := pairsAll_of_row union
    ⟨union.1 ▸ lines.1 ▸ rfl, lines.2.1, Node.pairsAll_append union.2 lines.2.2⟩

/-! ## Parts of declarations -/

section Parts

/-- What is read beside itself is read from every place. -/
theorem yields_of_reads {α : Type} {holds : Cursor → Prop} {relation : α → α → Prop}
    {parse : Parse α}
    (reads : paired.Reads holds (fun _ _ => relation) parse parse)
    (anywhere : ∀ cursor, holds cursor) {post : α → Prop}
    (tells : ∀ {value image}, relation value image → post value) :
    Yields stream low post parse := by
  intro place _
  obtain ⟨-, -, -, -, related⟩ := reads 0 (Nat.le_refl 0) place trivial (anywhere place)
  exact tells related

/-- The functions of the parser give names with their places. -/
theorem paired_family (limit : Nat) : paired.Family limit limit :=
  paired.family (Nat.le_refl limit) (Or.inr rfl)

/-- Names and places go together in the fields of a struct. -/
theorem pairs_structFields : Yields stream low
    (fun fields => Node.pairsAll (fields.map (·.typeNode)) = true) (structFields limit) :=
  yields_of_reads (paired_family limit).structFields (fun _ => False.elim) (·.2)

/-- Names and places go together in methods and embedded types. -/
theorem pairs_interfaceBody : Yields stream low MethodsPair (interfaceBody limit) :=
  yields_of_reads (paired_family limit).interfaceBody (fun _ => False.elim) (·.2)

/-- Names and places go together in types. -/
theorem pairs_type : Yields stream low (Node.pairs · = true) (type limit) :=
  yields_of_reads (paired_family limit).type (fun _ => False.elim) (·.2)

/-- Names and places go together in parameters. -/
theorem pairs_params : Yields stream low (Node.pairsParams · = true) (params limit) :=
  yields_of_reads (paired_family limit).params (fun _ => False.elim) (·.2)

/-- Names and places go together in results. -/
theorem pairs_results : Yields stream low (Node.pairsParams · = true) (results limit) :=
  yields_of_reads (paired_family limit).results (fun _ => False.elim) (·.2)

/-- Names and places go together in blocks. -/
theorem pairs_block : Yields stream low (Node.pairs · = true) (block limit) :=
  yields_of_reads (paired_family limit).block (fun _ => False.elim) (·.2)

/-- Names and places go together in expressions that are separated by commas. -/
theorem pairs_exprList (bare : Bool) :
    Yields stream low (Node.pairsAll · = true) (exprList limit bare) :=
  yields_of_reads (fun low _ after => .weaken ((paired_family limit).exprList bare low after)
    fun _ row => pairsAll_of_row row) (fun _ => False.elim) (·.2)

end Parts

/-! ## Declarations -/

/-- Names and places go together in values declared together if they do in the parts. -/
theorem pairs_of_mem_valueDecls {tokens : List Token} {extent : Span} {typed : Option (Span × Node)}
    {values : List Node} {doc : Option String}
    (type : Node.pairsOption (typed.map Prod.snd) = true) (initial : Node.pairsAll values = true)
    {decl : ValueDecl} (member : decl ∈ valueDecls tokens extent typed values doc) :
    decl.pairs = true := by
  have types : ∀ given ∈ firstOnly tokens (typed.map Prod.snd), Node.pairsOption given = true := by
    unfold firstOnly
    split
    · exact List.forall_mem_nil _
    · exact List.forall_mem_cons.mpr ⟨type, List.forall_mem_map.mpr fun _ _ => rfl⟩
  have each : ∀ given ∈ distribute tokens values, Node.pairsOption given = true := by
    unfold distribute
    split
    · exact List.forall_mem_map.mpr fun node held =>
        Node.pairsAll_eq_true_iff.mp initial node held
    · split
      · exact List.forall_mem_nil _
      · refine List.forall_mem_cons.mpr ⟨?_, List.forall_mem_map.mpr fun _ _ => rfl⟩
        split
        · rfl
        · exact initial
  obtain ⟨⟨token, typeNode, value⟩, held, rfl⟩ := List.mem_map.mp member
  have parts := List.of_mem_zip (List.of_mem_zip held).2
  exact Bool.and_eq_true_iff.mpr ⟨types typeNode parts.1, each value parts.2⟩

section Specifications

variable {inGroup : Bool} {start : Nat} {doc : Option String}

theorem pairs_typeShape : Yields stream low (TypeShape.pairs · = true) (typeShape limit) := by
  unfold typeShape
  refine .behind fun _ => .ite (.bind pairs_structFields fun _ fields => .pure fields) ?_
  refine .behind fun _ => .ite ?_ (.bind pairs_type fun _ type => .pure type)
  exact .bind pairs_interfaceBody fun _ body => .pure (Bool.and_eq_true_iff.mpr body)

theorem pairs_importSpec :
    Yields stream low (fun decls => ∀ decl ∈ decls, TopDecl.pairs decl = true) importSpec := by
  unfold importSpec
  refine .behind fun aliasToken => .behind fun _ => .ite ?_
    (.behind fun _ => .pure (List.forall_mem_nil _))
  refine .behind fun path => .pure (List.forall_mem_singleton.mpr ?_)
  cases aliasToken with
  | none => rfl
  | some token => rfl

theorem pairs_funcDecl :
    Yields stream low (fun decls => ∀ decl ∈ decls, TopDecl.pairs decl = true)
      (funcDecl limit) := by
  have receiver : Yields stream low (fun given => Node.pairsParams given.toList = true)
      (receiver limit) := by
    unfold Parse.receiver
    refine .behind fun _ => .ite (.bind pairs_params fun params pairs => .pure ?_) (.pure rfl)
    rw [Node.pairsParams_eq_true_iff] at *
    intro param member
    exact pairs param (List.mem_of_mem_head? (Option.mem_toList.mp member))
  have body : Yields stream low (Node.pairsOption · = true) (funcBody limit) := by
    unfold funcBody
    exact .behind fun _ => .ite (.bind pairs_block fun _ block => .pure block) (.pure rfl)
  have rest (doc : Option String) (keyword name : Token) {receiver : Option Param}
      (given : Node.pairsParams receiver.toList = true) :
      Yields stream low (fun decls => ∀ decl ∈ decls, TopDecl.pairs decl = true) (do
        let start ← nextStart
        let params ← params limit
        let results ← results limit
        let signatureSpan ← Parse.spanFrom start
        let body ← funcBody limit
        let extent ← Parse.spanFrom keyword.span.start
        return [.function ⟨name.text, name.span, extent, receiver, params, results,
          signatureSpan, body, doc⟩]) := by
    refine .behind fun _ => .bind pairs_params fun _ takes => .bind pairs_results fun _ gives =>
      .behind fun _ => .bind body fun _ inner => .behind fun _ => .pure ?_
    refine List.forall_mem_singleton.mpr (Bool.and_eq_true_iff.mpr ⟨?_, inner⟩)
    exact Bool.and_eq_true_iff.mpr ⟨Bool.and_eq_true_iff.mpr ⟨given, takes⟩, gives⟩
  unfold funcDecl
  refine .behind fun doc => .behind fun keyword => .bind receiver fun _ given =>
    .behind fun _ => .ite ?_ (.behind fun _ => .pure (List.forall_mem_nil _))
  exact .behind fun name => .behind fun _ => .ite
    (.behind fun _ => rest doc keyword name given) (rest doc keyword name given)

theorem pairs_valueSpec :
    Yields stream low (fun decls => ∀ decl ∈ decls, ValueDecl.pairs decl = true)
    (valueSpec limit inGroup start doc) := by
  have typed : Yields stream low (fun given => Node.pairsOption (given.map Prod.snd) = true)
      (declaredType limit) := by
    unfold declaredType
    exact .behind fun _ => .ite (.behind fun _ => .bind pairs_type fun _ type =>
      .behind fun _ => .pure type) (.pure rfl)
  have values : Yields stream low (Node.pairsAll · = true) (initialValues limit) := by
    unfold initialValues
    exact .behind fun _ => .ite (pairs_exprList _) (.pure rfl)
  unfold valueSpec
  refine .behind fun _ => .behind fun _ => .ite (.behind fun _ => .pure (List.forall_mem_nil _)) ?_
  exact .bind typed fun _ type => .bind values fun _ initial => .behind fun _ =>
    .pure fun _ member => pairs_of_mem_valueDecls type initial member

end Specifications

/-- Names and places go together in all declarations of a text. -/
theorem pairs_declarations (limit rounds : Nat) :
    Yields stream low (fun decls => ∀ decl ∈ decls, TopDecl.pairs decl = true)
      (declarations limit rounds) := by
  have shapes : Yields stream low
      (fun shape => ∀ decl : TypeDecl, decl.shape = shape → TopDecl.pairs (.type decl) = true)
      (typeShape limit) := by
    intro place inside decl same
    change decl.shape.pairs = true
    rw [same]
    exact pairs_typeShape place inside
  refine yields_declarations (yields_topLevel pairs_importSpec shapes pairs_funcDecl ?_) rounds
  intro inGroup start doc place inside decl member
  have pairs := pairs_valueSpec place inside decl member
  exact ⟨pairs, pairs⟩

end Parse

/-- **In a file that is scanned, names and places go together.** -/
theorem SourceFile.paired_of_parse {path content : String} {file : SourceFile}
    {stream : TokenStream} (parsed : SourceFile.parse path content = .ok file)
    (scanned : TokenStream.ofChars? content.toList = .ok stream) : file.Paired := by
  obtain ⟨name, decls, found, rfl⟩ := decls_of_parse parsed scanned
  obtain ⟨-, -, place, limit, ordered, inside, -, rfl⟩ := TokenStream.place_of_parse scanned found
  have each : ∀ decl ∈ ((Parse.declarations limit limit).run place).1, decl.pairs = true :=
    Parse.pairs_declarations limit limit place ⟨ordered, inside, Nat.zero_le _⟩
  refine ⟨fun decl member => ?_, fun decl member => ?_⟩
  · rcases mem_imports_foldl_add member with none | declared
    · cases none
    · exact each _ declared
  · rcases List.mem_append.mp ((decls_foldl_add _ _).subset member) with declared | none
    · obtain ⟨given, held, rfl⟩ := List.mem_map.mp declared
      have pairs := each given held
      cases given with
      | const decl => exact pairs
      | importing decl => exact pairs
      | type decl => exact pairs
      | function decl => exact pairs
      | var decl => exact pairs
    · cases none

end GoRefactor
