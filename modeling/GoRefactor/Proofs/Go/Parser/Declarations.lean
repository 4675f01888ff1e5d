import GoRefactor.Proofs.Go.Parser.Image

/-!
# Declarations in a mirror

What a file declares at top level follows in a mirror too: specifications, groups of them in
parentheses, and all declarations one after the other.
-/

namespace GoRefactor

/-- Visit a declaration at top level. -/
def SpanVisitor.topDecl {f : Type → Type} [Monad f] (visitor : SpanVisitor f) :
    TopDecl → f TopDecl
  | .importing decl => TopDecl.importing <$> visitor.importDecl decl
  | .type decl => TopDecl.type <$> visitor.typeDecl decl
  | .function decl => TopDecl.function <$> visitor.funcDecl decl
  | .var decl => TopDecl.var <$> visitor.valueDecl decl
  | .const decl => TopDecl.const <$> visitor.valueDecl decl

/-- The declaration is an import. -/
def TopDecl.isImport : TopDecl → Bool
  | .importing _ => true
  | _ => false

section Instances

instance : Imaged ValueDecl := ⟨fun m decl image => m.visitor.valueDecl decl = .ok image⟩

/-- Imports become others as far as the mirror exchanges dots. -/
instance : Imaged TopDecl :=
  ⟨fun m decl image => (decl.isImport = true → m.dots) → m.visitor.topDecl decl = .ok image⟩

end Instances

namespace Mirror

variable {m : Mirror}

section Shapes

/-- A struct has an image when its fields have images. -/
theorem image_struct {fields fields' : List Field} (related : m.Image fields fields') :
    m.Image (TypeShape.struct fields) (.struct fields') := by
  change m.visitor.typeShape _ = _
  rw [SpanVisitor.typeShape, mapM_eq_ok_iff.mpr related]
  rfl

/-- An interface has an image when its methods and embedded types have images. -/
theorem image_interface {methods methods' : List InterfaceMethod} {embeds embeds' : List Node}
    (related : m.Image methods methods') (embedded : m.Image embeds embeds') :
    m.Image (TypeShape.interface methods embeds) (.interface methods' embeds') := by
  change m.visitor.typeShape _ = _
  rw [SpanVisitor.typeShape, mapM_eq_ok_iff.mpr related, bind_ok,
    SpanVisitor.nodes_eq_ok_iff.mpr embedded]
  rfl

/-- Any other type has an image when its tree has one. -/
theorem image_other {node node' : Node} (related : m.Image node node') :
    m.Image (TypeShape.other node) (.other node') := by
  change m.visitor.typeShape _ = _
  rw [SpanVisitor.typeShape, show m.visitor.node node = .ok node' from related]
  rfl

/-- A declared type has an image when its name, place and shape have images. -/
theorem image_typeDecl {token token' : Token} {extent extent' : Span} {shape shape' : TypeShape}
    (name : m.Image token token') (stands : m.Image extent extent')
    (related : m.Image shape shape') (doc : Option String) :
    m.Image (TopDecl.type ⟨token.text, token.span, extent, shape, doc⟩)
      (.type ⟨token'.text, token'.span, extent', shape', doc⟩) := by
  intro _
  unfold SpanVisitor.topDecl SpanVisitor.typeDecl
  simp only [show m.visitor.named token.text token.span = _ from name, bind_ok,
    show m.visitor.span extent = .ok extent' from stands,
    show m.visitor.typeShape shape = .ok shape' from related]
  rfl

/-- A function or method has an image when its parts have images. -/
theorem image_funcDecl {token token' : Token} {extent extent' signature signature' : Span}
    {receiver receiver' : Option Param} {params params' results results' : List Param}
    {body body' : Option Node} (name : m.Image token token') (stands : m.Image extent extent')
    (owner : m.Image receiver receiver') (takes : m.Image params params')
    (gives : m.Image results results') (signed : m.Image signature signature')
    (runs : m.Image body body') (doc : Option String) :
    m.Image
      (TopDecl.function
        ⟨token.text, token.span, extent, receiver, params, results, signature, body, doc⟩)
      (.function ⟨token'.text, token'.span, extent', receiver', params', results', signature',
        body', doc⟩) := by
  have owned : SpanVisitor.option m.visitor.param receiver = .ok receiver' := by
    cases owner with
    | none => rfl
    | some visited =>
      rw [SpanVisitor.option, show m.visitor.param _ = .ok _ from visited]
      rfl
  intro _
  unfold SpanVisitor.topDecl SpanVisitor.funcDecl
  simp only [show m.visitor.named token.text token.span = _ from name, bind_ok,
    show m.visitor.span extent = .ok extent' from stands, owned,
    SpanVisitor.params_eq_ok_iff.mpr takes, SpanVisitor.params_eq_ok_iff.mpr gives,
    show m.visitor.span signature = .ok signature' from signed,
    SpanVisitor.optionalNode_eq_ok_iff.mpr runs]
  rfl

/-- A variable or constant has an image when its parts have images. -/
theorem image_valueDecl {token token' : Token} {extent extent' : Span}
    {typeSpan typeSpan' : Option Span} {typeNode typeNode' value value' : Option Node}
    (name : m.Image token token') (stands : m.Image extent extent')
    (typed : m.Image typeSpan typeSpan') (type : m.Image typeNode typeNode')
    (initial : m.Image value value') (doc : Option String) :
    m.Image (⟨token.text, token.span, extent, typeSpan, typeNode, value, doc⟩ : ValueDecl)
      ⟨token'.text, token'.span, extent', typeSpan', typeNode', value', doc⟩ := by
  have placed : SpanVisitor.option m.visitor.span typeSpan = .ok typeSpan' := by
    cases typed with
    | none => rfl
    | some visited =>
      rw [SpanVisitor.option, show m.visitor.span _ = .ok _ from visited]
      rfl
  change m.visitor.valueDecl _ = _
  unfold SpanVisitor.valueDecl
  simp only [show m.visitor.named token.text token.span = _ from name, bind_ok,
    show m.visitor.span extent = .ok extent' from stands, placed,
    SpanVisitor.optionalNode_eq_ok_iff.mpr type, SpanVisitor.optionalNode_eq_ok_iff.mpr initial]
  rfl

/-- Variables at top level have images when the declared values have images. -/
theorem image_vars {decls decls' : List ValueDecl} (related : m.Image decls decls') :
    m.Image (decls.map TopDecl.var) (decls'.map TopDecl.var) := by
  refine image_map ?_ related
  intro decl image visited _
  rw [SpanVisitor.topDecl, show m.visitor.valueDecl decl = .ok image from visited]
  rfl

/-- Constants at top level have images when the declared values have images. -/
theorem image_consts {decls decls' : List ValueDecl} (related : m.Image decls decls') :
    m.Image (decls.map TopDecl.const) (decls'.map TopDecl.const) := by
  refine image_map ?_ related
  intro decl image visited _
  rw [SpanVisitor.topDecl, show m.visitor.valueDecl decl = .ok image from visited]
  rfl

/-- Lists put together member by member have images when both lists have images. -/
theorem image_zip {α β : Type} [Imaged α] [Imaged β] {left left' : List α} {right right' : List β}
    (first : m.Image left left') (second : m.Image right right') :
    m.Image (left.zip right) (left'.zip right') := by
  induction first generalizing right right' with
  | nil => exact .nil
  | cons head _ ih =>
    cases second with
    | nil => exact .nil
    | cons head' tail => exact .cons ⟨head, head'⟩ (ih tail)

/-- Nothing for each of some names has nothing for each of their images as its image. -/
theorem image_nones {α : Type} [Imaged α] {tokens tokens' : List Token}
    (names : m.Image tokens tokens') :
    m.Image (tokens.map fun _ => (none : Option α)) (tokens'.map fun _ => none) :=
  image_map (fun _ => Option.Rel.none) names

/-- A type that goes with the first of some names has its image with the first of their images. -/
theorem image_firstOnly {α : Type} [Imaged α] {tokens tokens' : List Token}
    {value value' : Option α} (names : m.Image tokens tokens') (related : m.Image value value') :
    m.Image (firstOnly tokens value) (firstOnly tokens' value') := by
  cases names with
  | nil => exact .nil
  | cons _ others => exact .cons related (image_nones others)

/-- Values that are given out among names have images when names and values have images. -/
theorem image_distribute {tokens tokens' : List Token} {values values' : List Node}
    (names : m.Image tokens tokens') (related : m.Image values values') :
    m.Image (distribute tokens values) (distribute tokens' values') := by
  unfold distribute
  rw [names.length_eq, related.length_eq]
  split
  · exact image_map (fun given => Option.Rel.some given) related
  · cases names with
    | nil => exact .nil
    | cons _ others =>
      refine .cons ?_ (image_nones others)
      cases related with
      | nil => exact .none
      | cons first rest => exact .some (image_list (.cons first rest))

/-- Declarations of names with one type have images when their parts have images. -/
theorem image_valueDecls {tokens tokens' : List Token} {extent extent' : Span}
    {typed typed' : Option (Span × Node)} {values values' : List Node}
    (names : m.Image tokens tokens') (stands : m.Image extent extent')
    (type : m.Image typed typed') (initial : m.Image values values') (doc : Option String) :
    m.Image (valueDecls tokens extent typed values doc)
      (valueDecls tokens' extent' typed' values' doc) := by
  have spans : m.Image (typed.map Prod.fst) (typed'.map Prod.fst) := by
    cases type with
    | none => exact .none
    | some given => exact .some given.1
  have nodes : m.Image (typed.map Prod.snd) (typed'.map Prod.snd) := by
    cases type with
    | none => exact .none
    | some given => exact .some given.2
  have parts := image_zip names
    (image_zip (image_firstOnly names nodes) (image_distribute names initial))
  refine image_map ?_ parts
  intro part part' given
  exact image_valueDecl given.1 stands spans given.2.1 given.2.2 doc

end Shapes

/-- A computation gives the image of its value at linked places. -/
abbrev Follows {α : Type} [Imaged α] (m : Mirror) (parse : Parse α) : Prop :=
  m.Tracks m.Image parse parse

section Parts

variable {α : Type} {limit : Nat}

/-- What is read side by side from all places is tracked. -/
theorem tracks_of_reads {holds : Cursor → Prop} {relation : α → α → Prop} {parse : Parse α}
    (reads : m.reading.Reads holds (fun _ _ => relation) parse parse)
    (anywhere : ∀ cursor, holds cursor) : m.Tracks relation parse parse :=
  (reads 0 (Nat.le_refl 0)).tracks anywhere

/-- The functions of the parser are read side by side. -/
theorem family (m : Mirror) (limit : Nat) : m.reading.Family limit limit :=
  m.reading.family (Nat.le_refl limit) (Or.inr rfl)

/-- The fields of a struct are followed by their images. -/
theorem follows_structFields : m.Follows (Parse.structFields limit) :=
  tracks_of_reads (m.family limit).structFields fun _ => False.elim

/-- Methods and embedded types of an interface are followed by their images. -/
theorem follows_interfaceBody : m.Follows (Parse.interfaceBody limit) :=
  tracks_of_reads (m.family limit).interfaceBody fun _ => False.elim

/-- A type is followed by its image. -/
theorem follows_type : m.Follows (Parse.type limit) :=
  tracks_of_reads (m.family limit).typeNode fun _ => False.elim

/-- Parameters are followed by their images. -/
theorem follows_params : m.Follows (Parse.params limit) :=
  tracks_of_reads (m.family limit).params fun _ => False.elim

/-- Results are followed by their images. -/
theorem follows_results : m.Follows (Parse.results limit) :=
  tracks_of_reads (m.family limit).results fun _ => False.elim

/-- A block is followed by its image. -/
theorem follows_block : m.Follows (Parse.block limit) :=
  tracks_of_reads (m.family limit).block fun _ => False.elim

/-- Expressions that are separated by commas are followed by their images. -/
theorem follows_exprList (bare : Bool) : m.Follows (Parse.exprList limit bare) :=
  tracks_of_reads (fun low _ after => .weaken ((m.family limit).exprList bare low after)
    fun _ row => image_row row) fun _ => False.elim

end Parts

section Specifications

variable {limit : Nat}

/-- Behind a query that tells that a name comes next, a name is taken. -/
theorem Tracks.name {α β : Type} {relation : α → β → Prop} {query : Parse Bool}
    {following : Token → Parse α} {following' : Token → Parse β} {other : Parse α}
    {other' : Parse β} (same : m.Same query) (tells : Parse.TellsName query)
    (continues : ∀ token image, m.Image token image →
      m.Tracks relation (following token) (following' image))
    (otherwise : m.Tracks relation other other') :
    m.Tracks relation
      (query >>= fun yes => if yes = true then Parse.take >>= following else other)
      (query >>= fun yes => if yes = true then Parse.take >>= following' else other') := by
  obtain ⟨answer, rfl, told⟩ := tells
  exact Tracks.takeWhen same told
    (fun token image taken named => continues token image (taken.nameImage named)) otherwise

/-- Groups in parentheses are tracked if each specification is. -/
theorem tracks_groupRounds {α : Type} [Imaged α] {spec spec' : Option String → Parse (List α)}
    (tracks : ∀ doc, m.Tracks m.Image (spec doc) (spec' doc)) :
    ∀ fuel, m.Tracks m.Image (Parse.groupRounds spec fuel) (Parse.groupRounds spec' fuel)
  | 0 => .pure .nil
  | fuel + 1 => by
    simp only [Parse.groupRounds]
    refine .bind_same same_skipTerminators fun _ => .bind_same same_atEnd fun _ =>
      .bind_same (same_eat _) fun _ => .ite Iff.rfl (.pure .nil) ?_
    refine .bind_taken fun _ => .bind_same same_docHere fun doc =>
      .bind (tracks doc) fun _ _ decls => .bind_keepMoving ?_
    exact .bind (tracks_groupRounds tracks fuel) fun _ _ others =>
      .pure (image_append decls others)

/-- A keyword with one specification or a group of them is tracked if each specification is. -/
theorem tracks_grouped {α : Type} [Imaged α] {spec spec' : Option String → Parse (List α)}
    (tracks : ∀ doc, m.Tracks m.Image (spec doc) (spec' doc)) :
    m.Tracks m.Image (Parse.grouped limit spec) (Parse.grouped limit spec') := by
  unfold Parse.grouped
  exact .bind_same same_docHere fun doc => .bind tracks_take fun _ _ _ =>
    .bind_same (same_eat _) fun _ => .ite Iff.rfl (tracks_groupRounds tracks limit) (tracks doc)

/-- The token is a literal. -/
def IsLiteral (token : Token) : Prop := token.kind = .literal

/-- An explicit name of an import is a name or a dot. -/
theorem names_of_alias (place : Cursor)
    (told : ((place.peekAt 0).kind == .identifier || (place.peekAt 0).is ".") = true) :
    (place.peekAt 0).Names := by
  rcases Bool.or_eq_true_iff.mp told with isName | isDot
  · exact Or.inl (eq_of_beq isName)
  · exact Or.inr isDot

/-- An imported package is followed by its image. -/
theorem follows_importSpec : m.Follows Parse.importSpec := by
  unfold Follows Parse.importSpec
  refine .bind (Tracks.takeIf same_aliasFollows names_of_alias) ?_
  intro aliasToken aliasToken' explicit
  have named (dots : m.dots) :
      m.visitor.optionalName (aliasToken.map (·.text)) (aliasToken.map (·.span)) =
        .ok (aliasToken'.map (·.text), aliasToken'.map (·.span)) := by
    cases explicit with
    | none => rfl
    | @some token token' given =>
      obtain ⟨taken, told⟩ := given
      have names : m.Names token := told.imp id fun dot => ⟨dots, dot⟩
      simp only [Option.map_some, SpanVisitor.optionalName, SpanVisitor.named, taken.named names,
        taken.span_eq, bind_ok]
      rfl
  have tells (place : Cursor) (yes : ((place.peekAt 0).kind == .literal) = true) :
      IsLiteral (place.peekAt 0) := eq_of_beq yes
  refine .takeWhen (same_isKind _) tells ?_ (.bind_same same_skipStatement fun _ => .pure .nil)
  intro path path' taken isLiteral
  refine .pure (.cons (fun dots => ?_) .nil)
  simp only [SpanVisitor.topDecl, SpanVisitor.importDecl, taken.span_eq, bind_ok,
    named (dots rfl)]
  rw [taken.literal isLiteral]
  rfl

/-- A specification starts where the mirror says. -/
theorem tracks_specStart {inGroup : Bool} {start start' : Nat} (moves : m.Moves start start') :
    m.Tracks m.Moves (Parse.specStart inGroup start) (Parse.specStart inGroup start') :=
  .ite Iff.rfl tracks_nextStart (.pure moves)

/-- The shape of a declared type is followed by its image. -/
theorem follows_typeShape : m.Follows (Parse.typeShape limit) := by
  unfold Follows Parse.typeShape
  refine .bind_same (same_eat _) fun _ => .ite Iff.rfl
    (.bind follows_structFields fun _ _ fields => .pure (image_struct fields)) ?_
  exact .bind_same (same_eat _) fun _ => .ite Iff.rfl
    (.bind follows_interfaceBody fun _ _ lines =>
      .pure (image_interface lines.1 lines.2))
    (.bind follows_type fun _ _ type => .pure (image_other type))

/-- A declared type is followed by its image. -/
theorem tracks_typeSpec {inGroup : Bool} {start start' : Nat} (moves : m.Moves start start')
    (doc : Option String) :
    m.Tracks m.Image (Parse.typeSpec limit inGroup start doc)
      (Parse.typeSpec limit inGroup start' doc) := by
  simp only [Parse.typeSpec]
  refine .bind (tracks_specStart moves) fun _ _ starts =>
    .name (same_isKind _) Parse.tellsName_isKind ?_
      (.bind_same same_skipStatement fun _ => .pure .nil)
  intro token token' name
  refine .bind_same same_hasTypeParams fun _ => .ite Iff.rfl
    (.bind_same same_skipGroup fun _ => ?_) ?_
  all_goals
    exact .bind_same (same_skip _) fun _ => .bind follows_typeShape fun _ _ shape =>
      .bind (tracks_spanFrom starts) fun _ _ extent =>
        .pure (.cons (image_typeDecl name extent shape doc) .nil)

/-- The receiver of a method is followed by its image. -/
theorem follows_receiver : m.Follows (Parse.receiver limit) := by
  unfold Follows Parse.receiver
  refine .bind_same (same_is _) fun _ => .ite Iff.rfl ?_ (.pure .none)
  refine .bind follows_params fun _ _ params => .pure ?_
  cases params with
  | nil => exact .none
  | cons first _ => exact .some first

/-- The body of a function is followed by its image. -/
theorem follows_funcBody : m.Follows (Parse.funcBody limit) :=
  .bind_same (same_is _) fun _ => .ite Iff.rfl
    (.bind follows_block fun _ _ body => .pure (.some body)) (.pure .none)

/-- A function or method is followed by its image. -/
theorem follows_funcDecl : m.Follows (Parse.funcDecl limit) := by
  simp only [Follows, Parse.funcDecl]
  refine .bind_same same_docHere fun doc => .bind tracks_take fun _ _ keyword =>
    .bind follows_receiver fun _ _ receiver => .name (same_isKind _) Parse.tellsName_isKind ?_
      (.bind_same same_skipStatement fun _ => .pure .nil)
  intro token token' name
  refine .bind_same (same_is _) fun _ => .ite Iff.rfl
    (.bind_same same_skipGroup fun _ => ?_) ?_
  all_goals
    refine .bind tracks_nextStart fun _ _ start => .bind follows_params fun _ _ takes =>
      .bind follows_results fun _ _ gives =>
      .bind (tracks_spanFrom start) fun _ _ signature => .bind follows_funcBody fun _ _ body => ?_
    refine .bind (tracks_spanFrom ⟨keyword.start, by rw [keyword.span]⟩) fun _ _ extent => ?_
    exact .pure (.cons (image_funcDecl name extent receiver takes gives signature body doc) .nil)

/-- The type of declared values is followed by its image. -/
theorem follows_declaredType : m.Follows (Parse.declaredType limit) := by
  unfold Follows Parse.declaredType
  refine .bind_same same_startsType fun _ => .ite Iff.rfl ?_ (.pure .none)
  exact .bind tracks_nextStart fun _ _ start => .bind follows_type fun _ _ type =>
    .bind (tracks_spanFrom start) fun _ _ span => .pure (.some ⟨span, type⟩)

/-- The values that names are declared with are followed by their images. -/
theorem follows_initialValues : m.Follows (Parse.initialValues limit) :=
  .bind_same (same_eat _) fun _ => .ite Iff.rfl (follows_exprList _) (.pure .nil)

/-- Names that are declared together are followed by their images. -/
theorem tracks_valueSpec {inGroup : Bool} {start start' : Nat} (moves : m.Moves start start')
    (doc : Option String) :
    m.Tracks m.Image (Parse.valueSpec limit inGroup start doc)
      (Parse.valueSpec limit inGroup start' doc) := by
  unfold Parse.valueSpec
  refine .bind (tracks_specStart moves) fun _ _ starts => .bind tracks_names ?_
  intro tokens tokens' names
  have same : tokens'.isEmpty = tokens.isEmpty := by
    cases names <;> rfl
  refine .ite (by rw [same]) (.bind_same same_skipStatement fun _ => .pure .nil) ?_
  exact .bind follows_declaredType fun _ _ type => .bind follows_initialValues fun _ _ values =>
    .bind (tracks_spanFrom starts) fun _ _ extent =>
      .pure (image_valueDecls names extent type values doc)

/-- The declarations that start at one place are followed by their images. -/
theorem follows_topLevel : m.Follows (Parse.topLevel limit) := by
  unfold Follows Parse.topLevel
  refine .bind_same same_groupFollows fun _ => .bind tracks_nextStart fun _ _ start => ?_
  refine .bind_same (same_is _) fun _ => .ite Iff.rfl
    (tracks_grouped fun _ => follows_importSpec) ?_
  refine .bind_same (same_is _) fun _ => .ite Iff.rfl
    (tracks_grouped (tracks_typeSpec start)) ?_
  refine .bind_same (same_is _) fun _ => .ite Iff.rfl follows_funcDecl ?_
  refine .bind_same (same_is _) fun _ => .ite Iff.rfl
    (.map (tracks_grouped (tracks_valueSpec start)) fun _ _ => image_vars) ?_
  exact .bind_same (same_is _) fun _ => .ite Iff.rfl
    (.map (tracks_grouped (tracks_valueSpec start)) fun _ _ => image_consts)
    (.bind_same same_skipStatement fun _ => .pure .nil)

/-- All declarations of a text are followed by their images. -/
theorem follows_declarations :
    ∀ rounds, m.Follows (Parse.declarations limit rounds)
  | 0 => .pure .nil
  | rounds + 1 => by
    unfold Follows Parse.declarations
    refine .bind_same same_skipTerminators fun _ => .bind_same same_atEnd fun _ =>
      .ite Iff.rfl (.pure .nil) ?_
    refine .bind_taken fun _ => .bind (follows_topLevel) fun _ _ decls =>
      .bind_keepMoving ?_
    exact .bind (follows_declarations rounds) fun _ _ others =>
      .pure (image_append decls others)

end Specifications

end Mirror

end GoRefactor
