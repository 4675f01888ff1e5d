import GoRefactor.Proofs.Symbol.ItemAt
import GoRefactor.Proofs.Transform.EditedPackages

/-!
# Names before and after edits

The names that a package declares together: at top level, as the members of a type, as the
parameters of a function. Edits that are made keep each declaration, and give a new name to those
that stand where a name was replaced.
-/

namespace GoRefactor

/-- A declared name and where it stands. -/
structure Naming where
  /-- The name. -/
  name : String
  /-- Path of the file. -/
  file : String
  /-- Where the name stands; parameters may have no place. -/
  span : Option Span
  /-- The name is that of an embedded type. -/
  embedded : Bool := false
deriving DecidableEq, Repr

namespace Naming

/-- The name as edits leave it. -/
def after (edits : List Edit) (naming : Naming) : String :=
  (naming.span.bind (Edit.replacementAt (Edit.own edits naming.file))).getD naming.name

/-- Without edits of its file a name stays. -/
theorem after_of_none {edits : List Edit} (naming : Naming)
    (none : Edit.own edits naming.file = []) : naming.after edits = naming.name := by
  rw [after, none]
  cases naming.span <;> rfl

/-- Names stay where their file has no edits. -/
theorem map_after_of_none {edits : List Edit} {path : String} (none : Edit.own edits path = [])
    {namings : List Naming} (here : ∀ naming ∈ namings, naming.file = path) :
    namings.map (after edits) = namings.map name :=
  List.map_congr_left fun naming member => after_of_none naming ((here naming member).symm ▸ none)

end Naming

/-! ## The declared names -/

namespace Node

/-- Name of a named type and where it stands, pointers and type arguments stripped. -/
def mention? : Node → Option (String × Span)
  | .ident name span => some (name, span)
  | .selector (.ident _ _) name span => some (name, span)
  | .unary .deref operand => operand.mention?
  | .index base _ => base.mention?
  | _ => none

/-- The name that is mentioned is that of the type. -/
theorem map_mention? (node : Node) : node.mention?.map Prod.fst = node.baseTypeName := by
  fun_induction mention? node with
  | case1 | case2 => rfl
  | case3 operand ih | case4 base indices ih => exact ih
  | case5 node ident selector deref index =>
    unfold baseTypeName typeReference
    split
    · exact absurd rfl (ident _ _)
    · exact absurd rfl (selector _ _ _ _)
    · exact absurd rfl (deref _)
    · exact absurd rfl (index _ _)
    · rfl

end Node

namespace TypeDecl

/-- The name of a type. -/
def naming (path : String) (decl : TypeDecl) : Naming :=
  ⟨decl.name, path, some decl.nameSpan, false⟩

/-- Names of fields, embedded ones among them, and of the methods that an interface asks for. -/
def memberNamings (path : String) (decl : TypeDecl) : List Naming :=
  decl.fields.map (fun field => ⟨field.name, path, some field.nameSpan, field.embedded⟩) ++
    decl.interfaceMethods.map fun method => ⟨method.name, path, some method.nameSpan, false⟩

end TypeDecl

namespace FuncDecl

/-- The name of a function. -/
def naming (path : String) (decl : FuncDecl) : Naming :=
  ⟨decl.name, path, some decl.nameSpan, false⟩

/-- The name of the receiver's type. -/
def receiverNaming? (path : String) (decl : FuncDecl) : Option Naming :=
  (decl.receiver.bind fun receiver => receiver.typeNode.mention?).map fun mention =>
    ⟨mention.1, path, some mention.2, false⟩

/-- Names of the receiver, parameters and results. -/
def paramNamings (path : String) (decl : FuncDecl) : List Naming :=
  decl.allParams.filterMap fun param => param.name.map fun name =>
    ⟨name, path, param.nameSpan, false⟩

/-- The receiver's type is the one that is named. -/
theorem map_receiverNaming? (path : String) (decl : FuncDecl) :
    (decl.receiverNaming? path).map Naming.name = decl.receiverTypeName := by
  unfold receiverNaming? receiverTypeName
  cases decl.receiver with
  | none => rfl
  | some receiver =>
    simp only [Option.bind_some, Option.map_map]
    exact receiver.typeNode.map_mention?

end FuncDecl

/-- The name of a variable or constant. -/
def ValueDecl.naming (path : String) (decl : ValueDecl) : Naming :=
  ⟨decl.name, path, some decl.nameSpan, false⟩

namespace SourceFile

/-- Names of types, functions, variables and constants of a file. -/
def topNamings (file : SourceFile) : List Naming :=
  file.types.values.map (TypeDecl.naming file.path) ++
    file.functions.values.map (FuncDecl.naming file.path) ++
    file.vars.values.map (ValueDecl.naming file.path) ++
    file.consts.values.map (ValueDecl.naming file.path)

/-- The declarations that a walk visits are those with names of their own at top level, the methods
and the blank ones. -/
theorem length_decls (file : SourceFile) : file.decls.length =
    file.topNamings.length + file.methods.length + file.blanks.length := by
  simp only [decls, topNamings, List.length_append, List.length_map]
  omega

/-- Names of the methods of a file on a type. -/
def methodNamings (file : SourceFile) (typeName : String) : List Naming :=
  (file.methodsOf typeName).map (FuncDecl.naming file.path)

end SourceFile

namespace Package

/-- Names that the files of a package declare at top level. -/
def topNamings (package : Package) : List Naming := package.files.flatMap SourceFile.topNamings

/-- Names of the fields and methods of a type that a file of the package declares. -/
def memberNamings (package : Package) (file : SourceFile) (decl : TypeDecl) : List Naming :=
  decl.memberNamings file.path ++ package.files.flatMap fun file => file.methodNamings decl.name

end Package

/-! ## What is named -/

namespace Naming

/-- The name is that of an item which stands in the file. -/
structure Of (naming : Naming) (file : SourceFile) (item : Item) : Prop where
  standing : item ∈ file.standing
  file : naming.file = file.path
  span : item.nameSpan? = naming.span
  name : item.name? = some naming.name

/-- With a place and a name that is not blank it is one of the items that a file declares. -/
theorem Of.mem_items {naming : Naming} {file : SourceFile} {item : Item} (of : naming.Of file item)
    (placed : naming.span.isSome = true) (proper : naming.name ≠ "_") : item ∈ file.items := by
  obtain ⟨standing, -, span, name⟩ := of
  rw [← span] at placed
  simp only [SourceFile.standing, List.mem_append, List.mem_flatMap, List.mem_cons,
    List.mem_map] at standing
  simp only [SourceFile.items, List.mem_append, List.mem_flatMap, List.mem_map]
  rcases standing with
    (⟨decl, held, rfl | field | method⟩ | ⟨decl, held, rfl | ⟨param, inside, rfl⟩⟩) |
    var | const
  · exact .inl <| .inl <| .inl <| .inl <| .inl <| .inl <| .inr ⟨decl, held, rfl⟩
  · exact .inl <| .inl <| .inl <| .inl <| .inl <| .inr ⟨decl, held, field⟩
  · exact .inl <| .inl <| .inl <| .inl <| .inr ⟨decl, held, method⟩
  · exact .inl <| .inl <| .inl <| .inr ⟨decl, held, rfl⟩
  · have named : param.isNamed = true := by
      rw [Param.isNamed, show param.name = some naming.name from name,
        show param.nameSpan.isSome = true from placed]
      simpa using proper
    exact .inl <| .inl <| .inr ⟨decl, held, param, List.mem_filter.mpr ⟨inside, named⟩, rfl⟩
  · exact .inl <| .inr var
  · exact .inr const

end Naming

namespace SourceFile

/-- What is kept as a function has no receiver. -/
theorem receiver_of_parse {path content : String} {file : SourceFile}
    (parsed : SourceFile.parse path content = .ok file) :
    ∀ decl ∈ file.functions.values, decl.receiver = none := by
  have folded (decls : List TopDecl) (base : SourceFile)
      (bare : ∀ decl ∈ base.functions.values, decl.receiver = none) :
      ∀ decl ∈ (decls.foldl SourceFile.add base).functions.values, decl.receiver = none := by
    induction decls generalizing base with
    | nil => exact bare
    | cons first rest ih =>
      refine ih _ ?_
      cases first with
      | function added =>
        rw [SourceFile.add]
        split
        · exact bare
        · rename_i plain
          intro other member
          obtain ⟨entry, inside, rfl⟩ := List.mem_map.mp member
          rcases NameMap.mem_insert_iff.mp inside with rfl | ⟨former, -⟩
          · simpa [FuncDecl.isMethod] using plain
          · exact bare _ (List.mem_map_of_mem former)
      | importing | type => exact bare
      | var | const =>
        rw [SourceFile.add]
        split
        · exact bare
        · exact bare
  obtain ⟨stream, scanned⟩ := stream_of_parse parsed
  obtain ⟨name, decls, -, rfl⟩ := decls_of_parse parsed scanned
  exact folded decls _ (List.forall_mem_nil _)

/-- A type stands in its file. -/
theorem type_mem_standing {file : SourceFile} {decl : TypeDecl} (held : decl ∈ file.types.values) :
    .type decl ∈ file.standing :=
  List.mem_append_left _ (List.mem_append_left _
    (List.mem_flatMap.mpr ⟨decl, held, List.mem_cons_self⟩))

/-- A type is declared by its file. -/
theorem mem_items_of_type {file : SourceFile} {decl : TypeDecl} (held : decl ∈ file.types.values) :
    .type decl ∈ file.items :=
  List.mem_append_left _ (List.mem_append_left _ (List.mem_append_left _ (List.mem_append_left _
    (List.mem_append_left _ (List.mem_append_left _ (List.mem_append_right _
      (List.mem_map_of_mem held)))))))

/-- A function or method stands in its file. -/
theorem function_mem_standing {file : SourceFile} {decl : FuncDecl}
    (held : decl ∈ file.allFunctions) : .function decl ∈ file.standing :=
  List.mem_append_left _ (List.mem_append_right _
    (List.mem_flatMap.mpr ⟨decl, held, List.mem_cons_self⟩))

/-- What is declared at top level is no member and no parameter. -/
theorem exists_item_of_top {file : SourceFile}
    (bare : ∀ decl ∈ file.functions.values, decl.receiver = none) {naming : Naming}
    (listed : naming ∈ file.topNamings) :
    ∃ item, naming.Of file item ∧ naming.span.isSome = true ∧ item.kind.isMember = false ∧
      item.kind ≠ .parameter := by
  simp only [topNamings, List.mem_append, List.mem_map] at listed
  rcases listed with ((⟨decl, held, rfl⟩ | ⟨decl, held, rfl⟩) | ⟨decl, held, rfl⟩) |
    ⟨decl, held, rfl⟩
  · refine ⟨.type decl, ⟨type_mem_standing held, rfl, rfl, rfl⟩, rfl, ?_⟩
    obtain ⟨name, nameSpan, extent, shape, doc⟩ := decl
    cases shape <;> exact ⟨rfl, fun same => by cases same⟩
  · refine ⟨.function decl, ⟨function_mem_standing (List.mem_append_left _ held), rfl, rfl, rfl⟩,
      rfl, ?_⟩
    have unowned : decl.receiverTypeName = none := by
      rw [FuncDecl.receiverTypeName, bare decl held]
      rfl
    rw [Item.kind, unowned]
    exact ⟨rfl, by decide⟩
  · exact ⟨.var decl, ⟨List.mem_append_right _ (List.mem_append_left _ (List.mem_map_of_mem held)),
      rfl, rfl, rfl⟩, rfl, rfl, fun same => by cases same⟩
  · exact ⟨.const decl, ⟨List.mem_append_right _ (List.mem_append_right _
      (List.mem_map_of_mem held)), rfl, rfl, rfl⟩, rfl, rfl, fun same => by cases same⟩

/-- A member of a type, embedded fields apart, is a field or method with the type as its parent. -/
theorem exists_item_of_member {package : Package} {file : SourceFile} (owned : file ∈ package.files)
    {decl : TypeDecl} (held : decl ∈ file.types.values) {naming : Naming}
    (listed : naming ∈ package.memberNamings file decl) (proper : naming.embedded = false) :
    ∃ home ∈ package.files, ∃ item, naming.Of home item ∧ naming.span.isSome = true ∧
      item.kind.isMember = true ∧ item.parentType = some decl.name := by
  have part {item : Item} (inside : item ∈ (decl.fields.filter fun field =>
      !field.embedded).map (.field decl) ++ decl.interfaceMethods.map (.interfaceMethod decl)) :
      item ∈ file.standing :=
    List.mem_append_left _ (List.mem_append_left _
      (List.mem_flatMap.mpr ⟨decl, held, List.mem_cons_of_mem _ inside⟩))
  simp only [Package.memberNamings, TypeDecl.memberNamings, List.mem_append, List.mem_map,
    List.mem_flatMap, methodNamings] at listed
  rcases listed with (⟨field, inside, rfl⟩ | ⟨method, inside, rfl⟩) | ⟨home, owned', method, inside,
    rfl⟩
  · refine ⟨file, owned, .field decl field, ⟨part (List.mem_append_left _ (List.mem_map_of_mem
      (List.mem_filter.mpr ⟨inside, ?_⟩))), rfl, rfl, rfl⟩, rfl, rfl, rfl⟩
    rw [show field.embedded = false from proper]
    rfl
  · exact ⟨file, owned, .interfaceMethod decl method, ⟨part (List.mem_append_right _
      (List.mem_map_of_mem inside)), rfl, rfl, rfl⟩, rfl, rfl, rfl⟩
  · obtain ⟨inside, receiver⟩ := List.mem_filter.mp inside
    have receiver : method.receiverTypeName = some decl.name := eq_of_beq receiver
    refine ⟨home, owned', .function method, ⟨function_mem_standing (List.mem_append_right _ inside),
      rfl, rfl, rfl⟩, rfl, ?_, receiver⟩
    rw [Item.kind, receiver]
    rfl

/-- An embedded name is that of a field. -/
theorem exists_field_of_embedded {package : Package} {file : SourceFile} {decl : TypeDecl}
    {naming : Naming} (listed : naming ∈ package.memberNamings file decl)
    (embedded : naming.embedded = true) : ∃ field ∈ decl.fields,
      (⟨field.name, file.path, some field.nameSpan, field.embedded⟩ : Naming) = naming := by
  simp only [Package.memberNamings, TypeDecl.memberNamings, List.mem_append, List.mem_map,
    List.mem_flatMap, methodNamings] at listed
  rcases listed with (field | ⟨method, -, rfl⟩) | ⟨home, -, method, -, rfl⟩
  · exact field
  · cases embedded
  · cases embedded

/-- A file declares what it names at top level. -/
theorem declares_of_topNaming {file : SourceFile} (keyed : file.Keyed) {naming : Naming}
    (listed : naming ∈ file.topNamings) : file.declares naming.name = true := by
  have contains {α : Type} {map : NameMap α} {key : α → String} (keyed : map.Keyed key) {value : α}
      (held : value ∈ map.values) : map.contains (key value) = true := by
    obtain ⟨entry, inside, rfl⟩ := List.mem_map.mp held
    exact List.any_eq_true.mpr ⟨entry, inside, beq_iff_eq.mpr (keyed entry inside)⟩
  unfold declares
  simp only [Bool.or_eq_true]
  simp only [topNamings, List.mem_append, List.mem_map] at listed
  rcases listed with ((⟨decl, held, rfl⟩ | ⟨decl, held, rfl⟩) | ⟨decl, held, rfl⟩) |
    ⟨decl, held, rfl⟩
  · exact Or.inl (Or.inl (Or.inl (contains keyed.types held)))
  · exact Or.inl (Or.inl (Or.inr (contains keyed.functions held)))
  · exact Or.inl (Or.inr (contains keyed.vars held))
  · exact Or.inr (contains keyed.consts held)

/-- A parameter of a function has a name and a place, or neither. -/
theorem Paired.param {file : SourceFile} (paired : file.Paired) {decl : FuncDecl}
    (held : decl ∈ file.allFunctions) {param : Param} (inside : param ∈ decl.allParams) :
    param.name.isSome = param.nameSpan.isSome := by
  have pairs : decl.pairs = true := paired.decls (.function decl)
    (List.mem_append_left _ (List.mem_append_right _ (List.mem_map_of_mem held)))
  simp only [FuncDecl.pairs, Bool.and_eq_true, Node.pairsParams_eq_true_iff] at pairs
  obtain ⟨⟨⟨receiver, params⟩, results⟩, -⟩ := pairs
  rcases List.mem_append.mp inside with front | result
  · rcases List.mem_append.mp front with own | other
    · exact (receiver param own).1
    · exact (params param other).1
  · exact (results param result).1

/-- A parameter with a name stands in its file. -/
theorem exists_item_of_param {file : SourceFile} {decl : FuncDecl} (held : decl ∈ file.allFunctions)
    {naming : Naming} (listed : naming ∈ decl.paramNamings file.path) :
    ∃ param ∈ decl.allParams, naming.Of file (.param decl param) := by
  obtain ⟨param, inside, named⟩ := List.mem_filterMap.mp listed
  obtain ⟨name, given, rfl⟩ := Option.map_eq_some_iff.mp named
  refine ⟨param, inside, ⟨?_, rfl, rfl, given⟩⟩
  exact List.mem_append_left _ (List.mem_append_right _ (List.mem_flatMap.mpr
    ⟨decl, held, List.mem_cons_of_mem _ (List.mem_map_of_mem inside)⟩))

end SourceFile

/-- What is found under a name in a package is named at top level. -/
theorem Declaration.DeclaredIn.exists_naming {site : Site} {name : String}
    (declared : site.decl.DeclaredIn site.file name) :
    ∃ naming ∈ site.file.topNamings, naming.name = name ∧
      (naming.file, naming.span) = (site.file.path, some site.nameSpan) := by
  unfold Site.nameSpan
  unfold SourceFile.topNamings
  cases given : site.decl with
  | type decl =>
    rw [given] at declared
    exact ⟨_, List.mem_append_left _ (List.mem_append_left _ (List.mem_append_left _
      (List.mem_map_of_mem declared.1))), declared.2, rfl⟩
  | func decl =>
    rw [given] at declared
    exact ⟨_, List.mem_append_left _ (List.mem_append_left _ (List.mem_append_right _
      (List.mem_map_of_mem declared.1))), declared.2, rfl⟩
  | value decl =>
    rw [given] at declared
    rcases List.mem_append.mp declared.1 with var | const
    · exact ⟨_, List.mem_append_left _ (List.mem_append_right _ (List.mem_map_of_mem var)),
        declared.2, rfl⟩
    · exact ⟨_, List.mem_append_right _ (List.mem_map_of_mem const), declared.2, rfl⟩

/-! ## The names after edits -/

namespace SpanVisitor

variable {visitor : SpanVisitor (Except Fault)}

/-- A visit takes the mention of a type to that of its image. -/
theorem mention?_of_node : ∀ {node image : Node}, visitor.node node = .ok image →
    Option.Rel (fun mention seen => visitor.named mention.1 mention.2 = .ok seen) node.mention?
      image.mention?
  | .ident name span, image, visited => by
    rw [SpanVisitor.node] at visited
    obtain ⟨⟨name', span'⟩, named, visited⟩ := bind_eq_ok.mp visited
    cases visited
    exact .some named
  | .selector base name span, image, visited => by
    rw [SpanVisitor.node] at visited
    obtain ⟨base', inner, visited⟩ := bind_eq_ok.mp visited
    obtain ⟨⟨name', span'⟩, named, visited⟩ := bind_eq_ok.mp visited
    cases visited
    have same := ctorIdx_of_node inner
    cases base with
    | ident =>
      cases base' <;> first | exact .some named | simp [Node.ctorIdx] at same
    | _ => cases base' <;> first | exact .none | simp [Node.ctorIdx] at same
  | .unary op operand, image, visited => by
    rw [SpanVisitor.node] at visited
    obtain ⟨operand', inner, visited⟩ := bind_eq_ok.mp visited
    cases visited
    cases op with
    | deref =>
      rw [Node.mention?, Node.mention?]
      exact mention?_of_node inner
    | _ => exact .none
  | .index base indices, image, visited => by
    rw [SpanVisitor.node] at visited
    obtain ⟨base', inner, visited⟩ := bind_eq_ok.mp visited
    obtain ⟨indices', -, visited⟩ := bind_eq_ok.mp visited
    cases visited
    rw [Node.mention?, Node.mention?]
    exact mention?_of_node inner
  | .call _ _, image, visited | .composite _ _, image, visited | .keyValue _ _, image, visited
  | .binary _ _, image, visited | .typeAssert _ _, image, visited | .typeExpr _ _, image, visited
  | .literal _, image, visited | .funcLit _ _ _, image, visited | .block _ _, image, visited
  | .define _ _ _, image, visited | .assign _ _, image, visited | .branch _ _ _, image, visited
  | .list _, image, visited => by
    have same := ctorIdx_of_node visited
    cases image <;> first | exact .none | simp [Node.ctorIdx] at same

end SpanVisitor

/-- Edits of a file give a visited name the new one. -/
theorem Naming.eq_after {edits : List Edit} {path name name' : String} {span span' : Span}
    (embedded : Bool)
    (visited : (Edit.remap (Edit.own edits path)).named name span = .ok (name', span')) :
    name' = after edits ⟨name, path, some span, embedded⟩ := by
  have renamed := (SpanVisitor.named_eq_ok_iff.mp visited).1
  rw [Edit.remap_name] at renamed
  exact (Except.ok.inj renamed).symm

/-- What edits make of a type. -/
structure TypeDecl.Renamed (edits : List Edit) (path : String) (decl image : TypeDecl) : Prop where
  name : image.name = (decl.naming path).after edits
  members : (image.memberNamings path).map Naming.name =
    (decl.memberNamings path).map (Naming.after edits)

/-- What edits make of a function. -/
structure FuncDecl.Renamed (edits : List Edit) (path : String) (decl image : FuncDecl) : Prop where
  name : image.name = (decl.naming path).after edits
  receiver : image.receiverTypeName = (decl.receiverNaming? path).map (Naming.after edits)
  params : (image.paramNamings path).map Naming.name =
    (decl.paramNamings path).map (Naming.after edits)

/-- What edits make of a variable or constant. -/
def ValueDecl.Renamed (edits : List Edit) (path : String) (decl image : ValueDecl) : Prop :=
  image.name = (decl.naming path).after edits

/-- What edits make of declarations that are kept by name. -/
def MapRenamed {α : Type} (renamed : α → α → Prop) (name : α → String) (map image : NameMap α) :
    Prop :=
  ∃ images, List.Forall₂ renamed map.values images ∧ image = NameMap.fileBy name images

/-- What edits make of the names that a file declares. -/
structure SourceFile.Renamed (edits : List Edit) (file image : SourceFile) : Prop where
  path : image.path = file.path
  types : MapRenamed (TypeDecl.Renamed edits file.path) TypeDecl.name file.types image.types
  functions : MapRenamed (FuncDecl.Renamed edits file.path) FuncDecl.name file.functions
    image.functions
  methods : List.Forall₂ (FuncDecl.Renamed edits file.path) file.methods image.methods
  vars : MapRenamed (ValueDecl.Renamed edits file.path) ValueDecl.name file.vars image.vars
  consts : MapRenamed (ValueDecl.Renamed edits file.path) ValueDecl.name file.consts image.consts

section Visited

variable {edits : List Edit} {path : String}

/-- A visited type is renamed. -/
theorem TypeDecl.renamed_of_visited {decl image : TypeDecl}
    (visited : (Edit.remap (Edit.own edits path)).typeDecl decl = .ok image) :
    decl.Renamed edits path image := by
  refine ⟨Naming.eq_after false (SpanVisitor.named_of_typeDecl visited), ?_⟩
  obtain ⟨name, nameSpan, extent, shape, doc⟩ := decl
  obtain ⟨_, -, visited⟩ := bind_eq_ok.mp visited
  obtain ⟨_, -, visited⟩ := bind_eq_ok.mp visited
  obtain ⟨shape', shaped, given⟩ := bind_eq_ok.mp visited
  cases given
  cases shape with
  | struct fields =>
    obtain ⟨fields', each, given⟩ := bind_eq_ok.mp shaped
    cases given
    simp only [memberNamings, TypeDecl.fields, interfaceMethods, List.map_nil, List.append_nil,
      List.map_map]
    refine map_eq_map_of_forall₂ _ _ (fun field field' one => ?_) (mapM_eq_ok_iff.mp each)
    obtain ⟨_, named, one⟩ := bind_eq_ok.mp one
    obtain ⟨_, -, one⟩ := bind_eq_ok.mp one
    obtain ⟨_, -, one⟩ := bind_eq_ok.mp one
    cases one
    exact Naming.eq_after field.embedded named
  | interface methods embeds =>
    obtain ⟨methods', each, shaped⟩ := bind_eq_ok.mp shaped
    obtain ⟨_, -, given⟩ := bind_eq_ok.mp shaped
    cases given
    simp only [memberNamings, TypeDecl.fields, interfaceMethods, List.map_nil, List.nil_append,
      List.map_map]
    refine map_eq_map_of_forall₂ _ _ (fun method method' one => ?_) (mapM_eq_ok_iff.mp each)
    obtain ⟨_, named, one⟩ := bind_eq_ok.mp one
    obtain ⟨_, -, one⟩ := bind_eq_ok.mp one
    obtain ⟨_, -, one⟩ := bind_eq_ok.mp one
    obtain ⟨_, -, one⟩ := bind_eq_ok.mp one
    cases one
    exact Naming.eq_after false named
  | other underlying =>
    obtain ⟨_, -, given⟩ := bind_eq_ok.mp shaped
    cases given
    rfl

/-- A visited parameter keeps having a name or none. -/
theorem Param.name_of_visited {param image : Param}
    (visited : (Edit.remap (Edit.own edits path)).param param = .ok image) :
    image.name = param.name.map fun name =>
      Naming.after edits ⟨name, path, param.nameSpan, false⟩ := by
  obtain ⟨name, nameSpan, typeSpan, typeNode⟩ := param
  rw [SpanVisitor.param] at visited
  obtain ⟨⟨name', nameSpan'⟩, named, visited⟩ := bind_eq_ok.mp visited
  obtain ⟨_, -, visited⟩ := bind_eq_ok.mp visited
  obtain ⟨_, -, visited⟩ := bind_eq_ok.mp visited
  cases visited
  cases name with
  | none =>
    cases named
    rfl
  | some name =>
    cases nameSpan with
    | none =>
      cases named
      rfl
    | some nameSpan =>
      rw [SpanVisitor.optionalName, bind_eq_ok] at named
      obtain ⟨⟨name', nameSpan'⟩, named, given⟩ := named
      cases given
      exact congrArg some (Naming.eq_after false named)

/-- Visited parameters go by their new names. -/
theorem Param.names_of_visited {params images : List Param}
    (visited : List.Forall₂ (fun param seen => (Edit.remap (Edit.own edits path)).param param =
      .ok seen) params images) :
    images.filterMap Param.name = (params.filterMap fun param => param.name.map fun name =>
      (⟨name, path, param.nameSpan, false⟩ : Naming)).map (Naming.after edits) := by
  induction visited with
  | nil => rfl
  | cons first _ ih =>
    rw [List.filterMap_cons, List.filterMap_cons, ih, name_of_visited first]
    cases Param.name _ <;> rfl

/-- A visited function is renamed. -/
theorem FuncDecl.renamed_of_visited {decl image : FuncDecl}
    (visited : (Edit.remap (Edit.own edits path)).funcDecl decl = .ok image) :
    decl.Renamed edits path image := by
  have name := Naming.eq_after false (SpanVisitor.named_of_funcDecl visited)
  obtain ⟨_, -, visited⟩ := bind_eq_ok.mp visited
  obtain ⟨_, -, visited⟩ := bind_eq_ok.mp visited
  obtain ⟨receiver, received, visited⟩ := bind_eq_ok.mp visited
  obtain ⟨params, taken, visited⟩ := bind_eq_ok.mp visited
  obtain ⟨results, returned, visited⟩ := bind_eq_ok.mp visited
  obtain ⟨_, -, visited⟩ := bind_eq_ok.mp visited
  obtain ⟨_, -, visited⟩ := bind_eq_ok.mp visited
  cases visited
  -- The receiver is visited if it is there.
  have owned : Option.Rel (fun param seen => (Edit.remap (Edit.own edits path)).param param =
      .ok seen) decl.receiver receiver := by
    cases given : decl.receiver with
    | none =>
      rw [given] at received
      cases received
      exact .none
    | some param =>
      rw [given, SpanVisitor.option] at received
      cases seen : (Edit.remap (Edit.own edits path)).param param with
      | error fault =>
        rw [seen] at received
        cases received
      | ok param' =>
        rw [seen] at received
        cases received
        exact .some seen
  refine ⟨name, ?_, ?_⟩
  · unfold receiverTypeName receiverNaming?
    simp only
    generalize decl.receiver = given at owned
    cases owned with
    | none => rfl
    | @some param param' seen =>
      obtain ⟨_, _, _, typeNode⟩ := param
      rw [SpanVisitor.param] at seen
      obtain ⟨_, -, seen⟩ := bind_eq_ok.mp seen
      obtain ⟨_, -, seen⟩ := bind_eq_ok.mp seen
      obtain ⟨typeNode', typed, seen⟩ := bind_eq_ok.mp seen
      cases seen
      have mentioned := SpanVisitor.mention?_of_node typed
      rw [Option.bind_some, Option.bind_some, ← Node.map_mention?]
      generalize typeNode.mention? = mention at mentioned
      generalize typeNode'.mention? = mention' at mentioned
      cases mentioned with
      | none => rfl
      | some named => exact congrArg some (Naming.eq_after false named)
  · unfold paramNamings
    have visited : List.Forall₂ (fun param seen =>
        (Edit.remap (Edit.own edits path)).param param = .ok seen)
        (decl.receiver.toList ++ decl.params ++ decl.results)
          (receiver.toList ++ params ++ results) := by
      refine List.rel_append (List.rel_append ?_ (SpanVisitor.params_eq_ok_iff.mp taken))
        (SpanVisitor.params_eq_ok_iff.mp returned)
      generalize decl.receiver = given at owned
      cases owned with
      | none => exact .nil
      | some seen => exact .cons seen .nil
    refine Eq.trans ?_ (Param.names_of_visited visited)
    rw [List.map_filterMap]
    refine List.filterMap_congr fun param _ => ?_
    cases param.name <;> rfl

/-- Visited declarations that are kept by name are renamed. -/
theorem SourceFile.MapVisited.renamed {α : Type} {visit : α → Except Fault α}
    {renamed : α → α → Prop} {name : α → String} {map image : NameMap α}
    (visited : MapVisited visit name map image)
    (each : ∀ {value seen}, visit value = .ok seen → renamed value seen) :
    MapRenamed renamed name map image := by
  obtain ⟨images, matched, same⟩ := visited
  exact ⟨images, matched.imp fun _ _ => each, same⟩

end Visited

section Untouched

variable {edits : List Edit} {path : String} (none : Edit.own edits path = [])
include none

/-- Types of a file without edits keep their names. -/
theorem TypeDecl.renamed_of_none (decl : TypeDecl) : decl.Renamed edits path decl := by
  refine ⟨(Naming.after_of_none (decl.naming path) none).symm,
    (Naming.map_after_of_none none fun naming member => ?_).symm⟩
  rcases List.mem_append.mp member with field | method
  · obtain ⟨field, -, rfl⟩ := List.mem_map.mp field
    rfl
  · obtain ⟨method, -, rfl⟩ := List.mem_map.mp method
    rfl

/-- Without edits to its file a function is its own renamed image. -/
theorem FuncDecl.renamed_of_none (decl : FuncDecl) : decl.Renamed edits path decl := by
  refine ⟨(Naming.after_of_none (decl.naming path) none).symm, ?_, ?_⟩
  · rw [← decl.map_receiverNaming? path]
    unfold receiverNaming?
    cases decl.receiver.bind fun receiver => receiver.typeNode.mention? with
    | none => rfl
    | some mention =>
      exact congrArg some
        (Naming.after_of_none ⟨mention.1, path, some mention.2, false⟩ none).symm
  · refine (Naming.map_after_of_none none fun naming member => ?_).symm
    obtain ⟨param, -, named⟩ := List.mem_filterMap.mp member
    obtain ⟨name, -, rfl⟩ := Option.map_eq_some_iff.mp named
    rfl

/-- So do variables and constants. -/
theorem ValueDecl.renamed_of_none (decl : ValueDecl) : decl.Renamed edits path decl :=
  (Naming.after_of_none (decl.naming path) none).symm

end Untouched

/-- Declarations that are kept under their names are renamed if each is. -/
theorem MapRenamed.refl {α : Type} {renamed : α → α → Prop} {name : α → String} {map : NameMap α}
    (keyed : map.Keyed name) (each : ∀ value, renamed value value) :
    MapRenamed renamed name map map :=
  ⟨map.values, List.forall₂_same.mpr fun value _ => each value, (keyed.fileBy_eq (.refl _)).symm⟩

/-- **What edits make of a file renames what it declares.** -/
theorem SourceFile.renamed_of_makes {edits : List Edit} {file image : SourceFile}
    (keyed : file.Keyed) (made : Edit.Makes (Edit.own edits file.path) file image) :
    file.Renamed edits image := by
  rcases made with ⟨none, rfl⟩ | ⟨moved, applied, rfl⟩
  · exact ⟨rfl, .refl keyed.types (TypeDecl.renamed_of_none none),
      .refl keyed.functions (FuncDecl.renamed_of_none none),
      List.forall₂_same.mpr fun decl _ => decl.renamed_of_none none,
      .refl keyed.vars (ValueDecl.renamed_of_none none),
      .refl keyed.consts (ValueDecl.renamed_of_none none)⟩
  · obtain ⟨visited, path, -⟩ := Edit.applyToFile_eq_ok.mp applied
    exact ⟨path, visited.types.renamed TypeDecl.renamed_of_visited,
      visited.functions.renamed FuncDecl.renamed_of_visited,
      visited.methods.imp fun _ _ => FuncDecl.renamed_of_visited,
      visited.vars.renamed fun seen => Naming.eq_after false (SpanVisitor.named_of_valueDecl seen),
      visited.consts.renamed fun seen =>
        Naming.eq_after false (SpanVisitor.named_of_valueDecl seen)⟩

/-- Where the new names are distinct, the new map holds what the declarations became, in another
order. -/
theorem MapRenamed.exists_perm {α : Type} {renamed : α → α → Prop} {name : α → String}
    {map image : NameMap α} (made : MapRenamed renamed name map image) {new : α → String}
    (named : ∀ {value seen}, renamed value seen → name seen = new value)
    (distinct : (map.values.map new).Nodup) :
    ∃ images, List.Forall₂ renamed map.values images ∧ image.values.Perm images := by
  obtain ⟨images, matched, rfl⟩ := made
  refine ⟨images, matched, NameMap.values_fileBy ?_⟩
  rwa [map_eq_map_of_forall₂ new name (fun _ _ => named) matched]

/-- What a visited file declares was declared before, and stands where the edits move it. -/
theorem SourceFile.VisitedTo.exists_naming {edits : List Edit} {file image : SourceFile}
    (visited : file.VisitedTo (Edit.remap (Edit.own edits file.path)) image) {seen : Naming}
    (listed : seen ∈ image.topNamings) : ∃ naming ∈ file.topNamings,
      seen.name = naming.after edits ∧ naming.file = file.path ∧
        ∃ span span', naming.span = some span ∧ seen.span = some span' ∧
          (Edit.remap (Edit.own edits file.path)).span span = .ok span' := by
  have origin {name name' : String} {span span' : Span}
      (named : (Edit.remap (Edit.own edits file.path)).named name span = .ok (name', span')) :
      name' = Naming.after edits ⟨name, file.path, some span, false⟩ ∧ file.path = file.path ∧
        ∃ before after, some span = some before ∧ some span' = some after ∧
          (Edit.remap (Edit.own edits file.path)).span before = .ok after :=
    ⟨Naming.eq_after false named, rfl, span, span', rfl, rfl,
      (SpanVisitor.named_eq_ok_iff.mp named).2⟩
  simp only [topNamings, List.mem_append, List.mem_map] at listed ⊢
  rcases listed with ((⟨image, held, rfl⟩ | ⟨image, held, rfl⟩) | ⟨image, held, rfl⟩) |
    ⟨image, held, rfl⟩
  · obtain ⟨decl, inside, seen⟩ := visited.types.origin held
    exact ⟨_, .inl (.inl (.inl ⟨decl, inside, rfl⟩)), origin (SpanVisitor.named_of_typeDecl seen)⟩
  · obtain ⟨decl, inside, seen⟩ := visited.functions.origin held
    exact ⟨_, .inl (.inl (.inr ⟨decl, inside, rfl⟩)), origin (SpanVisitor.named_of_funcDecl seen)⟩
  · obtain ⟨decl, inside, seen⟩ := visited.vars.origin held
    exact ⟨_, .inl (.inr ⟨decl, inside, rfl⟩), origin (SpanVisitor.named_of_valueDecl seen)⟩
  · obtain ⟨decl, inside, seen⟩ := visited.consts.origin held
    exact ⟨_, .inr ⟨decl, inside, rfl⟩, origin (SpanVisitor.named_of_valueDecl seen)⟩

end GoRefactor
