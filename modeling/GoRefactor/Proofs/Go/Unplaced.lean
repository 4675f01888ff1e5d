import GoRefactor.Proofs.Go.Marks
import GoRefactor.Proofs.Go.Offers

/-!
# Files up to their spans

A file without its spans is what is left when each span is put to nowhere, in its declarations, in
parameters at any depth and in all kinds of nodes. A walk that puts every span to one place cannot
tell files apart that are the same without their spans, so it misses none. And two walks in a row
are one walk that does both wherever a span is stored, so moving by one distance and then by another
is moving by their sum.
-/

namespace GoRefactor

/-- The place of what stands nowhere. -/
def Span.nowhere : Span := ⟨0, 0⟩

/-! ## Without spans -/

mutual

/-- A tree without its spans. -/
def Node.unplaced : Node → Node
  | .ident name _ => .ident name .nowhere
  | .selector base name _ => .selector base.unplaced name .nowhere
  | .call func args => .call func.unplaced (Node.unplacedAll args)
  | .composite type elems => .composite (Node.unplacedOption type) (Node.unplacedAll elems)
  | .keyValue key value => .keyValue key.unplaced value.unplaced
  | .unary op operand => .unary op operand.unplaced
  | .binary left right => .binary left.unplaced right.unplaced
  | .index base indices => .index base.unplaced (Node.unplacedAll indices)
  | .typeAssert base type => .typeAssert base.unplaced (Node.unplacedOption type)
  | .typeExpr form parts => .typeExpr form (Node.unplacedAll parts)
  | .literal _ => .literal .nowhere
  | .funcLit params results body =>
    .funcLit (Node.unplacedParams params) (Node.unplacedParams results) body.unplaced
  | .block _ stmts => .block .nowhere (Node.unplacedAll stmts)
  | .define names type values =>
    .define (names.map fun binding => ⟨binding.name, .nowhere⟩) (Node.unplacedOption type)
      (Node.unplacedAll values)
  | .assign targets values => .assign (Node.unplacedAll targets) (Node.unplacedAll values)
  | .branch header body alt =>
    .branch (Node.unplacedAll header) body.unplaced (Node.unplacedOption alt)
  | .list items => .list (Node.unplacedAll items)

/-- Trees in order, without their spans. -/
def Node.unplacedAll : List Node → List Node
  | [] => []
  | head :: rest => head.unplaced :: Node.unplacedAll rest

/-- A tree that may be left out, without its spans. -/
def Node.unplacedOption : Option Node → Option Node
  | none => none
  | some node => some node.unplaced

/-- A parameter without its spans. -/
def Node.unplacedParam : Param → Param
  | ⟨name, nameSpan, _, typeNode⟩ =>
    ⟨name, nameSpan.map fun _ => .nowhere, .nowhere, typeNode.unplaced⟩

/-- Parameters without their spans. -/
def Node.unplacedParams : List Param → List Param
  | [] => []
  | head :: rest => Node.unplacedParam head :: Node.unplacedParams rest

end

/-- An import without its spans. -/
def Import.unplaced (decl : Import) : Import :=
  { decl with pathSpan := .nowhere, aliasSpan := decl.aliasSpan.map fun _ => .nowhere }

/-- A field without its spans. -/
def Field.unplaced (decl : Field) : Field :=
  { decl with nameSpan := .nowhere, typeSpan := .nowhere, typeNode := decl.typeNode.unplaced }

/-- A method of an interface without its spans. -/
def InterfaceMethod.unplaced (decl : InterfaceMethod) : InterfaceMethod :=
  ⟨decl.name, .nowhere, .nowhere, Node.unplacedParams decl.params,
    Node.unplacedParams decl.results⟩

/-- The shape of a type without its spans. -/
def TypeShape.unplaced : TypeShape → TypeShape
  | .struct fields => .struct (fields.map Field.unplaced)
  | .interface methods embeds =>
    .interface (methods.map InterfaceMethod.unplaced) (Node.unplacedAll embeds)
  | .other underlying => .other underlying.unplaced

/-- A declared type without its spans. -/
def TypeDecl.unplaced (decl : TypeDecl) : TypeDecl :=
  { decl with nameSpan := .nowhere, extent := .nowhere, shape := decl.shape.unplaced }

/-- A function or method without its spans. -/
def FuncDecl.unplaced (decl : FuncDecl) : FuncDecl :=
  { decl with
    nameSpan := .nowhere
    extent := .nowhere
    receiver := decl.receiver.map Node.unplacedParam
    params := Node.unplacedParams decl.params
    results := Node.unplacedParams decl.results
    signatureSpan := .nowhere
    body := Node.unplacedOption decl.body }

/-- A variable or constant without its spans. -/
def ValueDecl.unplaced (decl : ValueDecl) : ValueDecl :=
  { decl with
    nameSpan := .nowhere
    extent := .nowhere
    typeSpan := decl.typeSpan.map fun _ => .nowhere
    typeNode := Node.unplacedOption decl.typeNode
    value := Node.unplacedOption decl.value }

/-- A file without its spans. -/
def SourceFile.unplaced (file : SourceFile) : SourceFile :=
  { file with
    packageSpan := .nowhere
    imports := file.imports.map Import.unplaced
    types := file.types.mapValues TypeDecl.unplaced
    functions := file.functions.mapValues FuncDecl.unplaced
    methods := file.methods.map FuncDecl.unplaced
    vars := file.vars.mapValues ValueDecl.unplaced
    consts := file.consts.mapValues ValueDecl.unplaced
    blanks := file.blanks.map ValueDecl.unplaced }

namespace SpanVisitor

/-- Put every span to one place. -/
def overwriting (place : Span) : SpanVisitor Id where
  span _ := place
  name name _ := name

/-- Do what the first visitor does, then what the second does with that. -/
def followedBy (first second : SpanVisitor Id) : SpanVisitor Id where
  span span := second.span (first.span span)
  name name span := second.name (first.name name span) (first.span span)

/-! ## Walks to nowhere -/

/-- A name is put nowhere together with its place, or neither is there. -/
theorem overwriting_optionalName : ∀ {name : Option String} {span : Option Span},
    name.isSome = span.isSome →
    (overwriting .nowhere).optionalName name span = (name, span.map fun _ => .nowhere)
  | some _, some _, _ => rfl
  | none, none, _ => rfl
  | some _, none, paired => nomatch paired
  | none, some _, paired => nomatch paired

mutual

/-- Putting all spans of a node nowhere leaves the node without places. -/
theorem overwriting_node : ∀ given : Node, given.pairs = true →
    (overwriting .nowhere).node given = given.unplaced
  | .ident _ _, _ => rfl
  | .selector base name _, paired =>
    congrArg (Node.selector · name .nowhere) (overwriting_node base paired)
  | .call func args, paired => by
    obtain ⟨first, second⟩ := Bool.and_eq_true_iff.mp paired
    exact congrArg₂ Node.call (overwriting_node func first) (overwriting_nodes args second)
  | .composite type elems, paired => by
    obtain ⟨first, second⟩ := Bool.and_eq_true_iff.mp paired
    exact congrArg₂ Node.composite (overwriting_optionalNode type first)
      (overwriting_nodes elems second)
  | .keyValue key value, paired => by
    obtain ⟨first, second⟩ := Bool.and_eq_true_iff.mp paired
    exact congrArg₂ Node.keyValue (overwriting_node key first) (overwriting_node value second)
  | .unary op operand, paired => congrArg (Node.unary op) (overwriting_node operand paired)
  | .binary left right, paired => by
    obtain ⟨first, second⟩ := Bool.and_eq_true_iff.mp paired
    exact congrArg₂ Node.binary (overwriting_node left first) (overwriting_node right second)
  | .index base indices, paired => by
    obtain ⟨first, second⟩ := Bool.and_eq_true_iff.mp paired
    exact congrArg₂ Node.index (overwriting_node base first) (overwriting_nodes indices second)
  | .typeAssert base type, paired => by
    obtain ⟨first, second⟩ := Bool.and_eq_true_iff.mp paired
    exact congrArg₂ Node.typeAssert (overwriting_node base first)
      (overwriting_optionalNode type second)
  | .typeExpr form parts, paired => congrArg (Node.typeExpr form) (overwriting_nodes parts paired)
  | .literal _, _ => rfl
  | .funcLit takes gives body, paired => by
    obtain ⟨ends, third⟩ := Bool.and_eq_true_iff.mp paired
    obtain ⟨first, second⟩ := Bool.and_eq_true_iff.mp ends
    change Node.funcLit ((overwriting .nowhere).params takes) ((overwriting .nowhere).params gives)
      ((overwriting .nowhere).node body) = _
    rw [overwriting_params takes first, overwriting_params gives second,
      overwriting_node body third, Node.unplaced]
  | .block _ stmts, paired => congrArg (Node.block .nowhere) (overwriting_nodes stmts paired)
  | .define names type values, paired => by
    obtain ⟨first, second⟩ := Bool.and_eq_true_iff.mp paired
    change Node.define (names.mapM (overwriting .nowhere).binding).run
      ((overwriting .nowhere).optionalNode type) ((overwriting .nowhere).nodes values) = _
    rw [List.idRun_mapM, overwriting_optionalNode type first, overwriting_nodes values second]
    rfl
  | .assign targets values, paired => by
    obtain ⟨first, second⟩ := Bool.and_eq_true_iff.mp paired
    exact congrArg₂ Node.assign (overwriting_nodes targets first) (overwriting_nodes values second)
  | .branch header body alt, paired => by
    obtain ⟨ends, third⟩ := Bool.and_eq_true_iff.mp paired
    obtain ⟨first, second⟩ := Bool.and_eq_true_iff.mp ends
    change Node.branch ((overwriting .nowhere).nodes header) ((overwriting .nowhere).node body)
      ((overwriting .nowhere).optionalNode alt) = _
    rw [overwriting_nodes header first, overwriting_node body second,
      overwriting_optionalNode alt third, Node.unplaced]
  | .list items, paired => congrArg Node.list (overwriting_nodes items paired)

/-- Putting all spans of nodes nowhere leaves the nodes without places. -/
theorem overwriting_nodes : ∀ given : List Node, Node.pairsAll given = true →
    (overwriting .nowhere).nodes given = Node.unplacedAll given
  | [], _ => rfl
  | head :: rest, paired => by
    obtain ⟨first, second⟩ := Bool.and_eq_true_iff.mp paired
    exact congrArg₂ List.cons (overwriting_node head first) (overwriting_nodes rest second)

/-- Putting all spans nowhere leaves a node that is there without places. -/
theorem overwriting_optionalNode : ∀ given : Option Node, Node.pairsOption given = true →
    (overwriting .nowhere).optionalNode given = Node.unplacedOption given
  | none, _ => rfl
  | some inner, paired => congrArg some (overwriting_node inner paired)

/-- Putting all spans of a parameter nowhere leaves it without places. -/
theorem overwriting_param : ∀ given : Param,
    given.name.isSome = given.nameSpan.isSome ∧ given.typeNode.pairs = true →
    (overwriting .nowhere).param given = Node.unplacedParam given
  | ⟨name, nameSpan, typeSpan, typeNode⟩, paired => by
    have both := overwriting_optionalName paired.1
    have type := overwriting_node typeNode paired.2
    change Param.mk ((overwriting .nowhere).optionalName name nameSpan).1
      ((overwriting .nowhere).optionalName name nameSpan).2 .nowhere
      ((overwriting .nowhere).node typeNode) = _
    rw [both, type]
    rfl

/-- Putting all spans of parameters nowhere leaves them without places. -/
theorem overwriting_params : ∀ given : List Param, Node.pairsParams given = true →
    (overwriting .nowhere).params given = Node.unplacedParams given
  | [], _ => rfl
  | head :: rest, paired => by
    obtain ⟨first, second⟩ := List.forall_mem_cons.mp (Node.pairsParams_eq_true_iff.mp paired)
    exact congrArg₂ List.cons (overwriting_param head first)
      (overwriting_params rest (Node.pairsParams_eq_true_iff.mpr second))

end

/-- Putting all spans of an import nowhere leaves it without places. -/
theorem overwriting_importDecl (decl : Import) (paired : decl.pairs = true) :
    (overwriting .nowhere).importDecl decl = decl.unplaced := by
  have both := overwriting_optionalName (eq_of_beq paired)
  change Import.mk decl.path .nowhere
    ((overwriting .nowhere).optionalName decl.aliasName decl.aliasSpan).1
    ((overwriting .nowhere).optionalName decl.aliasName decl.aliasSpan).2 = _
  rw [both]
  rfl

/-- Putting all spans of a field nowhere leaves it without places. -/
theorem overwriting_field (decl : Field) (paired : decl.typeNode.pairs = true) :
    (overwriting .nowhere).field decl = decl.unplaced :=
  congrArg (fun type => Field.mk decl.name .nowhere .nowhere type decl.embedded decl.doc)
    (overwriting_node decl.typeNode paired)

/-- Putting all spans of a method nowhere leaves it without places. -/
theorem overwriting_interfaceMethod (decl : InterfaceMethod) (paired : decl.pairs = true) :
    (overwriting .nowhere).interfaceMethod decl = decl.unplaced := by
  obtain ⟨first, second⟩ := Bool.and_eq_true_iff.mp paired
  exact congrArg₂ (InterfaceMethod.mk decl.name .nowhere .nowhere)
    (overwriting_params decl.params first) (overwriting_params decl.results second)

/-- Members of a list that are visited one by one. -/
theorem mapM_eq_map {α : Type} {visit : α → Id α} {change : α → α} {values : List α}
    (each : ∀ value ∈ values, visit value = change value) :
    (values.mapM visit).run = values.map change := by
  rw [List.idRun_mapM]
  exact List.map_congr_left each

/-- Values of a map that are visited one by one. -/
theorem nameMap_eq_mapValues {α : Type} {visit : α → Id α} {change : α → α} {map : NameMap α}
    (each : ∀ value ∈ map.values, visit value = change value) :
    (nameMap visit map).run = map.mapValues change := by
  change map.withValues (map.values.mapM visit).run = _
  rw [mapM_eq_map each, NameMap.withValues_map]

/-- Putting all spans in a type's shape nowhere leaves the shape without places. -/
theorem overwriting_typeShape : ∀ shape : TypeShape, shape.pairs = true →
    (overwriting .nowhere).typeShape shape = shape.unplaced
  | .struct fields, paired => by
    have each : ∀ field ∈ fields, field.typeNode.pairs = true := by
      simpa [TypeShape.pairs] using paired
    exact congrArg TypeShape.struct (mapM_eq_map fun field member =>
      overwriting_field field (each field member))
  | .interface methods embeds, paired => by
    obtain ⟨first, second⟩ := Bool.and_eq_true_iff.mp paired
    exact congrArg₂ TypeShape.interface (mapM_eq_map fun method member =>
      overwriting_interfaceMethod method (List.all_eq_true.mp first method member))
      (overwriting_nodes embeds second)
  | .other underlying, paired => congrArg TypeShape.other (overwriting_node underlying paired)

/-- Putting all spans of a declared type nowhere leaves it without places. -/
theorem overwriting_typeDecl (decl : TypeDecl) (paired : decl.shape.pairs = true) :
    (overwriting .nowhere).typeDecl decl = decl.unplaced :=
  congrArg (fun shape => TypeDecl.mk decl.name .nowhere .nowhere shape decl.doc)
    (overwriting_typeShape decl.shape paired)

/-- Putting all spans of a function or method nowhere leaves it without places. -/
theorem overwriting_funcDecl (decl : FuncDecl) (paired : decl.pairs = true) :
    (overwriting .nowhere).funcDecl decl = decl.unplaced := by
  obtain ⟨others, body⟩ := Bool.and_eq_true_iff.mp paired
  obtain ⟨others, results⟩ := Bool.and_eq_true_iff.mp others
  obtain ⟨receiver, params⟩ := Bool.and_eq_true_iff.mp others
  have received : (SpanVisitor.option (overwriting .nowhere).param decl.receiver).run =
      decl.receiver.map Node.unplacedParam := by
    cases given : decl.receiver with
    | none => rfl
    | some param =>
      have both := Node.pairsParams_eq_true_iff.mp receiver param (by simp [given])
      exact congrArg some (overwriting_param param both)
  change FuncDecl.mk decl.name .nowhere .nowhere
    (SpanVisitor.option (overwriting .nowhere).param decl.receiver).run
    ((overwriting .nowhere).params decl.params) ((overwriting .nowhere).params decl.results)
    .nowhere ((overwriting .nowhere).optionalNode decl.body) decl.doc = _
  rw [received, overwriting_params decl.params params, overwriting_params decl.results results,
    overwriting_optionalNode decl.body body, FuncDecl.unplaced]

/-- Putting all spans of a variable or constant nowhere leaves it without places. -/
theorem overwriting_valueDecl (decl : ValueDecl) (paired : decl.pairs = true) :
    (overwriting .nowhere).valueDecl decl = decl.unplaced := by
  obtain ⟨type, value⟩ := Bool.and_eq_true_iff.mp paired
  have typed : (SpanVisitor.option (overwriting .nowhere).span decl.typeSpan).run =
      decl.typeSpan.map fun _ => .nowhere := by
    cases decl.typeSpan <;> rfl
  change ValueDecl.mk decl.name .nowhere .nowhere
    (SpanVisitor.option (overwriting .nowhere).span decl.typeSpan).run
    ((overwriting .nowhere).optionalNode decl.typeNode)
    ((overwriting .nowhere).optionalNode decl.value) decl.doc = _
  rw [typed, overwriting_optionalNode decl.typeNode type, overwriting_optionalNode decl.value value,
    ValueDecl.unplaced]

/-- **A walk to nowhere leaves a file without its spans.** -/
theorem overwriting_file {file : SourceFile} (paired : file.Paired) :
    (overwriting .nowhere).file file = file.unplaced := by
  obtain ⟨imports, types, functions, values⟩ := SourceFile.paired_iff.mp paired
  simp only [List.forall_mem_append] at functions values
  change SourceFile.mk file.path file.content file.isTest file.packageName .nowhere
    (file.imports.mapM (overwriting .nowhere).importDecl).run
    (nameMap (overwriting .nowhere).typeDecl file.types).run
    (nameMap (overwriting .nowhere).funcDecl file.functions).run
    (file.methods.mapM (overwriting .nowhere).funcDecl).run
    (nameMap (overwriting .nowhere).valueDecl file.vars).run
    (nameMap (overwriting .nowhere).valueDecl file.consts).run
    (file.blanks.mapM (overwriting .nowhere).valueDecl).run file.modified = _
  rw [mapM_eq_map fun decl member => overwriting_importDecl decl (imports decl member),
    nameMap_eq_mapValues fun decl member => overwriting_typeDecl decl (types decl member),
    nameMap_eq_mapValues fun decl member => overwriting_funcDecl decl (functions.1 decl member),
    mapM_eq_map fun decl member => overwriting_funcDecl decl (functions.2 decl member),
    nameMap_eq_mapValues fun decl member => overwriting_valueDecl decl (values.1.1 decl member),
    nameMap_eq_mapValues fun decl member => overwriting_valueDecl decl (values.1.2 decl member),
    mapM_eq_map fun decl member => overwriting_valueDecl decl (values.2 decl member),
    SourceFile.unplaced]

/-! ## One walk after another -/

/-- **Two walks in a row are one**, by the visitor that does what both do. -/
theorem file_followedBy (first second : SpanVisitor Id) (file : SourceFile) :
    (first.followedBy second).file file = second.file (first.file file) := by
  have both : (first.followedBy second).sure = first.sure.andThen second.sure := rfl
  have walked := (tours_file file).sure (first.followedBy second)
  rw [both, (tours_file file).andThen ((tours_file file).sure first),
    (tours_file (first.file file)).sure second] at walked
  exact (Except.ok.inj walked).symm

/-- **Visitors that answer alike what a file stores, walk alike over the file.** -/
theorem file_congr {visitor visitor' : SpanVisitor Id} {file : SourceFile} (paired : file.Paired)
    (same : ∀ offer ∈ file.stored, visitor.answer offer = visitor'.answer offer) :
    visitor.file file = visitor'.file file := by
  obtain ⟨rebuild, asks, -⟩ := (tours_file file).rebuild paired
  have answers : file.stored.mapM visitor.answer = file.stored.mapM visitor'.answer := by
    change (file.stored.mapM visitor.answer).run = (file.stored.mapM visitor'.answer).run
    rw [List.idRun_mapM, List.idRun_mapM]
    exact List.map_congr_left same
  exact ((asks Id visitor).trans (congrArg (rebuild <$> ·) answers)).trans (asks Id visitor').symm

end SpanVisitor

namespace SourceFile

variable {file : SourceFile}

/-- Walks that put all spans to one place cannot tell a file from what it is without its spans. -/
theorem overwriting_unplaced (paired : file.Paired) (place : Span) :
    (SpanVisitor.overwriting place).file file.unplaced =
    (SpanVisitor.overwriting place).file file := by
  rw [← SpanVisitor.overwriting_file paired, ← SpanVisitor.file_followedBy]
  rfl

/-- A walk that keeps names changes nothing but spans. -/
theorem unplaced_walk (paired : file.Paired) {visitor : SpanVisitor Id}
    (keeps : ∀ name span, visitor.name name span = name) :
    SourceFile.unplaced (visitor.file file) = file.unplaced := by
  have same : visitor.followedBy (.overwriting .nowhere) = .overwriting .nowhere :=
    congrArg (SpanVisitor.mk fun _ => Span.nowhere) (funext fun name => funext (keeps name))
  rw [← SpanVisitor.overwriting_file (paired.walk visitor), ← SpanVisitor.file_followedBy, same,
    SpanVisitor.overwriting_file paired]

/-- Each end of each span that is stored, moved by the distance, can be addressed. -/
def StaysInRange (file : SourceFile) (delta : Int) : Prop :=
  ∀ offer ∈ file.stored, ∀ offset ∈ [offer.place.start, offer.place.stop],
    0 ≤ (offset : Int) + delta ∧ (offset : Int) + delta < 2 ^ 63

/-- Offsets that stay in range are moved by both distances. -/
theorem shiftOffset_shiftOffset {offset : Nat} {first second : Int}
    (inRange : 0 ≤ (offset : Int) + first ∧ (offset : Int) + first < 2 ^ 63)
    (inRange' : 0 ≤ (offset : Int) + (first + second) ∧
      (offset : Int) + (first + second) < 2 ^ 63) :
    shiftOffset second (shiftOffset first offset) = shiftOffset (first + second) offset := by
  have once : shiftOffset first offset = ((offset : Int) + first).toNat :=
    shiftOffset_eq (by omega) (by omega)
  have twice : shiftOffset second ((offset : Int) + first).toNat =
      ((offset : Int) + (first + second)).toNat := shiftOffset_eq (by omega) (by omega)
  have atOnce : shiftOffset (first + second) offset = ((offset : Int) + (first + second)).toNat :=
    shiftOffset_eq (by omega) (by omega)
  rw [once, twice, atOnce]

/-- **Moved by one distance and then by another, a file is moved by their sum**, where all that it
stores stays in range. -/
theorem shifted_shifted (paired : file.Paired) {first second : Int}
    (inRange : file.StaysInRange first) (inRange' : file.StaysInRange (first + second)) :
    (file.shifted first).shifted second = file.shifted (first + second) := by
  have moved : ∀ offer ∈ file.stored,
      (offer.place.shifted first).shifted second = offer.place.shifted (first + second) := by
    intro offer member
    have start := shiftOffset_shiftOffset (inRange offer member _ List.mem_cons_self)
      (inRange' offer member _ List.mem_cons_self)
    have stop := shiftOffset_shiftOffset
      (inRange offer member _ (List.mem_cons_of_mem _ List.mem_cons_self))
      (inRange' offer member _ (List.mem_cons_of_mem _ List.mem_cons_self))
    simp only [Span.shifted, start, stop]
  rw [shifted, shifted, shifted, ← SpanVisitor.file_followedBy]
  refine SpanVisitor.file_congr paired fun offer member => ?_
  have same := moved offer member
  cases offer with
  | span place => exact congrArg Offer.span same
  | name text place => exact congrArg (Offer.name text) same

/-- What a walk shows is what is stored, each name in front of its span. -/
theorem offers_showing (paired : file.Paired) :
    (SpanVisitor.showing.file file).offers = file.stored.flatMap Offer.shown := by
  obtain ⟨rebuild, asks, -⟩ := (SpanVisitor.tours_file file).rebuild paired
  have asked := asks Shown SpanVisitor.showing
  beta_reduce at asked
  rw [asked, Shown.offers_map, Shown.offers_mapM]
  exact congrArg (List.flatMap · file.stored) (funext SpanVisitor.offers_answer)

/-- **A walk reaches every span exactly once**, in any monad: it asks about what the file stores, in
order, and what comes out stores the answers. So files that are the same without their spans are the
same once all spans are put to one place, and moves that stay in range add up. -/
theorem walk_reaches_every_span (paired : file.Paired) :
    (∃ rebuild : List Offer → SourceFile,
      (∀ (m : Type → Type) [Monad m] [LawfulMonad m] (visitor : SpanVisitor m),
        visitor.file file = rebuild <$> file.stored.mapM visitor.answer) ∧
      ∀ answers : List Offer, answers.map Offer.isName = file.stored.map Offer.isName →
        (rebuild answers).stored = answers) ∧
    (SpanVisitor.showing.file file).offers = file.stored.flatMap Offer.shown ∧
    (∀ other : SourceFile, other.Paired → other.unplaced = file.unplaced → ∀ place,
      (SpanVisitor.overwriting place).file other = (SpanVisitor.overwriting place).file file) ∧
    ∀ first second : Int, file.StaysInRange first → file.StaysInRange (first + second) →
      (file.shifted first).shifted second = file.shifted (first + second) := by
  refine ⟨(SpanVisitor.tours_file file).rebuild paired, offers_showing paired,
    fun other pairedOther same place => ?_,
    fun first second inRange inRange' => shifted_shifted paired inRange inRange'⟩
  rw [← overwriting_unplaced pairedOther, same, overwriting_unplaced paired]

/-- A file with an import under another name and a function that calls into it. -/
def showingFile : SourceFile :=
  { blank "main.go"
    "package main\nimport f \"fmt\"\nfunc show(text string) \x7b f.Print(text) \x7d" with
    packageName := "main"
    packageSpan := ⟨8, 12⟩
    imports := [⟨"fmt", ⟨22, 27⟩, some "f", some ⟨20, 21⟩⟩]
    functions := .ofList [("show",
      { name := "show"
        nameSpan := ⟨33, 37⟩
        extent := ⟨28, 68⟩
        receiver := none
        params := [⟨some "text", some ⟨38, 42⟩, ⟨43, 49⟩, .ident "string" ⟨43, 49⟩⟩]
        results := []
        signatureSpan := ⟨37, 50⟩
        body := some (.block ⟨51, 68⟩ [.call (.selector (.ident "f" ⟨53, 54⟩) "Print" ⟨55, 60⟩)
          [.ident "text" ⟨61, 65⟩]])
        doc := none })] }

/-- A walk over such a file. -/
theorem walk_reaches_showingFile :
    showingFile.Paired ∧ (showingFile.shifted 5).Paired ∧
      (showingFile.shifted 5).unplaced = showingFile.unplaced ∧
      showingFile.StaysInRange 5 ∧ showingFile.StaysInRange (5 + -3) ∧
      (∃ rebuild : List Offer → SourceFile,
        SpanVisitor.trace.file showingFile =
          rebuild <$> showingFile.stored.mapM SpanVisitor.trace.answer) ∧
      (SpanVisitor.showing.file showingFile).offers =
        [.name "main" ⟨8, 12⟩, .span ⟨8, 12⟩, .span ⟨22, 27⟩, .name "f" ⟨20, 21⟩, .span ⟨20, 21⟩,
          .name "show" ⟨33, 37⟩, .span ⟨33, 37⟩, .span ⟨28, 68⟩, .name "text" ⟨38, 42⟩,
          .span ⟨38, 42⟩, .span ⟨43, 49⟩, .name "string" ⟨43, 49⟩, .span ⟨43, 49⟩,
          .span ⟨37, 50⟩, .span ⟨51, 68⟩, .name "f" ⟨53, 54⟩, .span ⟨53, 54⟩,
          .name "Print" ⟨55, 60⟩, .span ⟨55, 60⟩, .name "text" ⟨61, 65⟩, .span ⟨61, 65⟩] ∧
      (SpanVisitor.overwriting ⟨1, 1⟩).file (showingFile.shifted 5) =
        (SpanVisitor.overwriting ⟨1, 1⟩).file showingFile ∧
      (showingFile.shifted 5).shifted (-3) = showingFile.shifted (5 + -3) := by
  have paired : showingFile.Paired := by
    refine paired_iff.mpr ⟨?_, ?_, ?_, ?_⟩ <;> decide
  have pairedMoved : (showingFile.shifted 5).Paired := paired.walk _
  have same : (showingFile.shifted 5).unplaced = showingFile.unplaced :=
    unplaced_walk paired fun _ _ => rfl
  have inRange : showingFile.StaysInRange 5 := by
    unfold StaysInRange
    decide
  have inRange' : showingFile.StaysInRange (5 + -3) := by
    unfold StaysInRange
    decide
  obtain ⟨⟨rebuild, asks, -⟩, shown, alike, moves⟩ := walk_reaches_every_span paired
  exact ⟨paired, pairedMoved, same, inRange, inRange', ⟨rebuild, asks _ _⟩, shown.trans rfl,
    alike _ pairedMoved same _, moves 5 (-3) inRange inRange'⟩

end SourceFile

end GoRefactor
