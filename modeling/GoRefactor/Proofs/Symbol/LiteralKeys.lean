import GoRefactor.Proofs.Symbol.Clauses

/-!
# Keys of inline struct literals

A struct type that is written out in a composite literal has no inferred type, and neither has a
slice, array or map of such structs. So the keys of these structs are not taken for names of fields:
a key that is an identifier is visited like an index or a key of a map, and stands for whatever the
name stands for around the literal.
-/

namespace GoRefactor

namespace Node

/-! ## Inline structs of a literal -/

/-- What an element of a composite literal is apart from its key. -/
def elementValue : Node → Node
  | .keyValue _ value => value
  | elem => elem

/-- Elements of a literal that leaves its type out, or of one behind the address operator. -/
def bareElems : Node → List Node
  | .composite none elems => elems
  | .unary .ref (.composite none elems) => elems
  | _ => []

/-- Elements of the key of an element, if the key leaves its type out. -/
def keyElems : Node → List Node
  | .keyValue (.composite none elems) _ => elems
  | _ => []

/-- Entries of the inline structs in a composite literal with a type and some elements: those of the
literal itself if its type is a struct type, and those of the elements, and keys, that leave their
type out if it is a slice, array or map of inline structs, at any depth. -/
def structEntries : Node → List Node → List Node
  | .typeExpr .struct _, elems => elems
  | .typeExpr .slice [element], elems =>
    elems.flatMap fun elem => element.structEntries elem.elementValue.bareElems
  | .typeExpr .array [_, element], elems =>
    elems.flatMap fun elem => element.structEntries elem.elementValue.bareElems
  | .typeExpr .map [key, value], elems =>
    elems.flatMap fun elem =>
      key.structEntries elem.keyElems ++ value.structEntries elem.elementValue.bareElems
  | .unary .deref operand, elems => operand.structEntries elems
  | _, _ => []

/-- The own elements of a plain node are plain. -/
theorem plain_bareElems {node : Node} (plain : node.plain = true) :
    Node.plainAll node.bareElems = true := by
  unfold bareElems
  split
  · exact plain
  · exact plain
  · rfl

/-- The value of a plain element is plain. -/
theorem plain_elementValue {elem : Node} (plain : elem.plain = true) :
    elem.elementValue.plain = true := by
  unfold elementValue
  split
  · exact (Bool.and_eq_true_iff.mp plain).2
  · exact plain

/-- The elements of the key of a plain element are plain. -/
theorem plain_keyElems {elem : Node} (plain : elem.plain = true) :
    Node.plainAll elem.keyElems = true := by
  unfold keyElems
  split
  · exact (Bool.and_eq_true_iff.mp plain).1
  · rfl

end Node

namespace Resolver

open Walking

variable {resolver : Resolver}

/-! ## Visits of the entries -/

/-- From all scopes, some visits lead to others, below the same names under a condition. -/
def Reaches (whole part : Scopes → List Visit) (plain : Prop) : Prop :=
  ∀ scopes, ∃ inner, part inner ⊆ whole scopes ∧ (plain → inner = scopes)

namespace Reaches

variable {whole part rest : Scopes → List Visit} {plain plain' wholly : Prop}

/-- Visits lead to those that they lead to in turn. -/
theorem trans (first : Reaches whole part plain) (second : Reaches part rest plain')
    (both : wholly → plain ∧ plain') : Reaches whole rest wholly := by
  intro scopes
  obtain ⟨middle, leads, kept⟩ := first scopes
  obtain ⟨inner, leads', kept'⟩ := second middle
  exact ⟨inner, List.Subset.trans leads' leads, fun holds =>
    (kept' (both holds).2).trans (kept (both holds).1)⟩

/-- Visits from the same scopes are among others. -/
theorem of_subset (leads : ∀ scopes, part scopes ⊆ whole scopes) : Reaches whole part plain :=
  fun scopes => ⟨scopes, leads scopes, fun _ => rfl⟩

end Reaches

/-- A visit of a plain node leaves the names bound around it as they are. -/
theorem scopesAfter_of_plain (mode : VisitMode) {node : Node} (plain : node.plain = true)
    (scopes : Scopes) : scopesAfter (resolver.visit mode node) scopes = scopes := by
  obtain ⟨after, uses, emits, -, restores, -⟩ := @walks_visit resolver mode node scopes
  rw [(eq_of_emits emits).1, restores plain]

/-- A visit of nodes in order leads to each of them. -/
theorem reaches_each (mode : VisitMode) {nodes : List Node} {node : Node} (listed : node ∈ nodes) :
    Reaches (resolver.visitsAll mode nodes) (resolver.visits mode node)
      (Node.plainAll nodes = true) := by
  induction nodes with
  | nil => cases listed
  | cons head rest ih =>
    intro scopes
    rw [visitsAll, Node.plainAll, Bool.and_eq_true]
    rcases List.mem_cons.mp listed with rfl | later
    · exact ⟨scopes, List.subset_append_left _ _, fun _ => rfl⟩
    · obtain ⟨inner, leads, kept⟩ := ih later (scopesAfter (resolver.visit mode head) scopes)
      exact ⟨inner, List.Subset.trans leads (List.subset_append_right _ _),
        fun ⟨here, others⟩ => (kept others).trans (scopesAfter_of_plain mode here scopes)⟩

/-- A visit that knows the type of an element that leaves it out leads to the element's own
elements. -/
theorem reaches_bareElems {mode : VisitMode}
    (known : ∀ elems, mode.operand .ref (.composite none elems) = .element mode.literalType)
    (node : Node) {plain : Prop} :
    Reaches (resolver.visits mode node)
      (resolver.visitsAll (.entry mode.literalType) node.bareElems)
      plain := by
  refine .of_subset fun scopes => ?_
  unfold Node.bareElems
  split
  · rw [visits]
    exact List.subset_cons_self _ _
  · rw [visits, known, visits]
    exact List.subset_cons_of_subset _ (List.subset_cons_self _ _)
  · exact List.nil_subset _

section Undeclared

variable {given : Option GoType} (undeclared : given.bind GoType.name? = none)
include undeclared

/-- A key names no field of a literal whose type is not a declared one. -/
theorem fieldOfKey?_of_undeclared (key : Node) : fieldOfKey? given key = none := by
  unfold fieldOfKey?
  split
  · rw [undeclared, Option.map_none]
  · rfl

/-- Such a literal leads to the key of an entry. -/
theorem reaches_key (key value : Node) {plain : Prop} :
    Reaches (resolver.visits (.entry given) (.keyValue key value))
      (resolver.visits (.key (given.bind GoType.literalKey)) key) plain := by
  refine .of_subset fun scopes => ?_
  rw [visits]
  dsimp only
  rw [fieldOfKey?_of_undeclared undeclared]
  exact List.subset_cons_of_subset _ (List.subset_append_left _ _)

/-- It leads to the value of an entry. -/
theorem reaches_value (key value : Node) :
    Reaches (resolver.visits (.entry given) (.keyValue key value))
      (resolver.visits (.element (given.bind GoType.literalElement)) value) (key.plain = true) := by
  intro scopes
  refine ⟨scopesAfter (resolver.visit (.key (given.bind GoType.literalKey)) key) scopes, ?_,
    fun plain => scopesAfter_of_plain _ plain scopes⟩
  rw [visits]
  dsimp only
  rw [fieldOfKey?_of_undeclared undeclared]
  exact List.subset_cons_of_subset _ (List.subset_append_right _ _)

/-- It leads to what the elements of its elements lead to, where these leave their type out. -/
theorem reaches_inElement {elems : List Node} {elem : Node} (listed : elem ∈ elems)
    {part : Scopes → List Visit}
    (leads : Reaches
      (resolver.visitsAll (.entry (given.bind GoType.literalElement)) elem.elementValue.bareElems)
      part (Node.plainAll elem.elementValue.bareElems = true)) :
    Reaches (resolver.visitsAll (.entry given) elems) part (Node.plainAll elems = true) := by
  have value : Reaches (resolver.visits (.entry given) elem)
      (resolver.visitsAll (.entry (given.bind GoType.literalElement)) elem.elementValue.bareElems)
      (elem.plain = true) := by
    unfold Node.elementValue
    split
    · rename_i key value
      exact (reaches_value undeclared key value).trans (reaches_bareElems (fun _ => rfl) value)
        fun plain => ⟨(Bool.and_eq_true_iff.mp plain).1, plain⟩
    · exact reaches_bareElems (fun _ => rfl) elem
  refine (reaches_each (.entry given) listed).trans (value.trans leads fun plain => ⟨plain, ?_⟩)
    fun plain => ⟨plain, Node.plainAll_iff.mp plain elem listed⟩
  exact Node.plain_bareElems (Node.plain_elementValue plain)

/-- It leads to what the elements of its keys lead to, where these leave their type out. -/
theorem reaches_inKey {elems : List Node} {elem : Node} (listed : elem ∈ elems)
    {part : Scopes → List Visit}
    (leads : Reaches (resolver.visitsAll (.entry (given.bind GoType.literalKey)) elem.keyElems)
      part (Node.plainAll elem.keyElems = true)) :
    Reaches (resolver.visitsAll (.entry given) elems) part (Node.plainAll elems = true) := by
  have key : Reaches (resolver.visits (.entry given) elem)
      (resolver.visitsAll (.entry (given.bind GoType.literalKey)) elem.keyElems)
      (elem.plain = true) := by
    unfold Node.keyElems
    split
    · rename_i elems value
      refine (reaches_key undeclared (.composite none elems) value).trans
        (.of_subset fun scopes => ?_) fun plain => ⟨plain, plain⟩
      rw [visits]
      exact List.subset_cons_self _ _
    · exact .of_subset fun _ => List.nil_subset _
  exact (reaches_each (.entry given) listed).trans
    (key.trans leads fun plain => ⟨plain, Node.plain_keyElems plain⟩)
    fun plain => ⟨plain, Node.plainAll_iff.mp plain elem listed⟩

end Undeclared

/-- A slice type is inferred if the type of its elements is. -/
theorem typeOf_slice (resolver : Resolver) (element : Node) :
    resolver.typeOf (.typeExpr .slice [element]) = (resolver.typeOf element).map .slice := by
  simp [typeOf, ModuleScope.typeOf, ModuleScope.typesOf]

/-- An array type is inferred like a slice type. -/
theorem typeOf_array (resolver : Resolver) (length element : Node) :
    resolver.typeOf (.typeExpr .array [length, element]) =
      (resolver.typeOf element).map .slice := by
  simp [typeOf, ModuleScope.typeOf, ModuleScope.typesOf]

/-- A slice is no declared type, and its elements have the type that it is made from. -/
theorem elements_of_slice (type : Option GoType) :
    (type.map GoType.slice).bind GoType.name? = none ∧
      (type.map GoType.slice).bind GoType.literalElement = type := by
  cases type <;> exact ⟨rfl, rfl⟩

/-- A map is no declared type, and its keys and values have the types that are written for them. -/
theorem typeOf_map (resolver : Resolver) (key value : Node) :
    (resolver.typeOf (.typeExpr .map [key, value])).bind GoType.name? = none ∧
      (resolver.typeOf (.typeExpr .map [key, value])).bind GoType.literalKey =
        resolver.typeOf key ∧
      (resolver.typeOf (.typeExpr .map [key, value])).bind GoType.literalElement =
        resolver.typeOf value := by
  simp only [typeOf, ModuleScope.typeOf, ModuleScope.typesOf]
  cases resolver.scope.typeOf resolver.package resolver.file key <;>
    cases resolver.scope.typeOf resolver.package resolver.file value <;>
    exact ⟨rfl, rfl, rfl⟩

/-- **The entries of inline structs are visited without a type.** -/
theorem reaches_structEntry {type : Node} {elems : List Node} {entry : Node}
    (inline : entry ∈ type.structEntries elems) :
    Reaches (resolver.visitsAll (.entry (resolver.typeOf type)) elems)
      (resolver.visits (.entry none) entry) (Node.plainAll elems = true) := by
  induction type, elems using Node.structEntries.induct with
  | case1 fields elems => exact reaches_each (.entry none) inline
  | case2 element elems ih =>
    rw [Node.structEntries] at inline
    obtain ⟨elem, listed, inside⟩ := List.mem_flatMap.mp inline
    rw [typeOf_slice]
    obtain ⟨undeclared, typed⟩ := elements_of_slice (resolver.typeOf element)
    refine reaches_inElement undeclared listed ?_
    rw [typed]
    exact ih elem inside
  | case3 length element elems ih =>
    rw [Node.structEntries] at inline
    obtain ⟨elem, listed, inside⟩ := List.mem_flatMap.mp inline
    rw [typeOf_array]
    obtain ⟨undeclared, typed⟩ := elements_of_slice (resolver.typeOf element)
    refine reaches_inElement undeclared listed ?_
    rw [typed]
    exact ih elem inside
  | case4 key value elems ihKey ihValue =>
    rw [Node.structEntries] at inline
    obtain ⟨elem, listed, inside⟩ := List.mem_flatMap.mp inline
    obtain ⟨undeclared, keyed, typed⟩ := resolver.typeOf_map key value
    rcases List.mem_append.mp inside with inKey | inValue
    · refine reaches_inKey undeclared listed ?_
      rw [keyed]
      exact ihKey elem inKey
    · refine reaches_inElement undeclared listed ?_
      rw [typed]
      exact ihValue elem inValue
  | case5 operand elems ih => exact ih inline
  | case6 type elems =>
    rw [Node.structEntries] at inline <;> first | assumption | cases inline

/-! ## What a key stands for -/

/-- Number of the symbol that a bare name stands for below some scopes: of what it is bound to, or,
where it is not bound and no import goes by it, of what the file sees declared under it. -/
def symbolOf? (resolver : Resolver) (scopes : Scopes) (name : String) : Option Nat :=
  if name == "_" then none
  else
    match scopes.find? name with
    | some bound => bound.symbol
    | none =>
      if (resolver.file.importNamed name).isSome then none
      else
        ((resolver.declared name).bind fun site =>
          resolver.symbols.atOrigin site.file.path site.nameSpan).map (·.id)

/-- **What a bare name stands for** where the package declares it: what is bound to it, or else, if
no import goes by it, what the package declares. -/
theorem symbolOf?_eq_some_iff {scopes : Scopes} {name : String}
    (proper : name ≠ "_") {site : Site}
    (found : resolver.scope.lookup resolver.package name = some site) {declared : Symbol}
    (stands : resolver.symbols.atOrigin site.file.path site.nameSpan = some declared) {id : Nat} :
    resolver.symbolOf? scopes name = some id ↔
      match scopes.find? name with
      | some bound => bound.symbol = some id
      | none => resolver.file.importNamed name = none ∧ id = declared.id := by
  unfold symbolOf?
  rw [if_neg (by simpa using proper)]
  cases scopes.find? name with
  | some bound => exact Iff.rfl
  | none =>
    dsimp only
    cases resolver.file.importNamed name with
    | some decl => simp
    | none =>
      rw [Resolver.declared, ModuleScope.lookupInFile, found]
      simp [stands, eq_comm]

/-- A visit of a bare name finds what the name stands for. -/
theorem finds_iff {mode : VisitMode} {name : String} {span : Span} {scopes : Scopes} {id : Nat} :
    (∃ kind, .found id span kind ∈ resolver.usesAt ⟨mode, .ident name span, scopes⟩) ↔
      resolver.symbolOf? scopes name = some id := by
  suffices walk : ∃ uses, Emits (fun _ => True) (resolver.visit mode (.ident name span)) scopes ()
      scopes uses ∧ ((∃ kind, .found id span kind ∈ uses) ↔
        resolver.symbolOf? scopes name = some id) by
    obtain ⟨uses, emits, finds⟩ := walk
    rw [usesAt, (eq_of_emits emits).2]
    exact finds
  rw [visit, Resolver.name, symbolOf?]
  split
  · exact ⟨[], .pure () scopes, by simp⟩
  · suffices following : ∃ uses, Emits (fun _ => True) _ scopes () scopes uses ∧ _ by
      obtain ⟨uses, emits, finds⟩ := following
      exact ⟨uses, .get (fun _ => rfl) emits, finds⟩
    dsimp only
    cases scopes.find? name with
    | some bound =>
      dsimp only
      cases bound.symbol with
      | none => exact ⟨[], .pure () scopes, by simp⟩
      | some symbol => exact ⟨[_], .note trivial scopes, by simp [eq_comm]⟩
    | none =>
      dsimp only
      split
      · exact ⟨[], .pure () scopes, by simp⟩
      · cases resolver.declared name with
        | some site =>
          dsimp only
          rw [noteSite, noteOrigin, Option.bind_some]
          cases resolver.symbols.atOrigin site.file.path site.nameSpan with
          | none => exact ⟨[], .pure () scopes, by simp⟩
          | some symbol => exact ⟨[_], .note trivial scopes, by simp [eq_comm]⟩
        | none =>
          dsimp only
          split
          · exact ⟨[], .pure () scopes, by simp⟩
          · exact ⟨[.unresolved], .note trivial scopes, by simp⟩

end Resolver

/-- **Keys of inline struct literals.** A composite literal of a file holds an inline struct, as the
literal itself or within slices, arrays and maps that leave their element type out, and an entry of
that struct has a key that is an identifier. Then the walk over the file visits the key like any
other bare name, below the names bound around the literal if these are kept, and the index refers
from the key to a symbol exactly if the name stands for the symbol there: to the parameter or
package-level declaration of that name, not to the field. -/
theorem inline_struct_key {path : String} {sources : List (String × String)} {module : Module}
    {options : IndexOptions} {index : Index} (loaded : Module.ofSources path sources = .ok module)
    (built : (module.index options).run = .ok (.ok index)) {resolver : Resolver}
    (walked : resolver ∈ module.resolvers options index.symbols) {literal : Visit}
    (arrives : literal ∈ resolver.fileVisits) {type : Node} {elems : List Node}
    (typed : literal.node = .composite (some type) elems) {name : String} {span : Span}
    {value : Node} (inline : .keyValue (.ident name span) value ∈ type.structEntries elems) :
    ∃ scopes, (literal.node.plain = true → scopes = literal.scopes) ∧
      ⟨.key none, .ident name span, scopes⟩ ∈ resolver.fileVisits ∧
      ∀ target ∈ index.symbols.toList, (index.RefersAt resolver.file.path span target.id ↔
        target.declaredAt resolver.file.path span = false ∧
          resolver.symbolOf? scopes name = some target.id) := by
  obtain ⟨mode, node, around⟩ := literal
  subst typed
  obtain ⟨fileHeld, -, -⟩ := Module.file_of_mem_resolvers walked
  obtain ⟨scopes, leads, kept⟩ := Resolver.reaches_structEntry inline
    (Walking.scopesAfter (resolver.visit .type type) around)
  have here : ⟨.key none, .ident name span, scopes⟩ ∈ resolver.fileVisits := by
    refine resolver.closed_fileVisits _ arrives ?_
    rw [Resolver.visits]
    refine List.mem_cons_of_mem _ (List.mem_append_right _ (leads ?_))
    rw [Resolver.visits]
    exact List.mem_cons_of_mem _ (List.mem_append_left _ (List.mem_singleton_self _))
  refine ⟨scopes, fun plain => ?_, here, fun target known => ?_⟩
  · obtain ⟨plainType, plainElems⟩ := Bool.and_eq_true_iff.mp plain
    rw [kept plainElems, Resolver.scopesAfter_of_plain .type plainType]
  · rw [Module.refersAt_iff built walked
      (SourceFile.tidy_of_parse (Module.scanned_of_ofSources loaded _ fileHeld)) here
      (List.mem_singleton_self span) known, Resolver.finds_iff]

/-- Type and elements of a composite literal that has its type. -/
def Node.typedLiteral? : Node → Option (Node × List Node)
  | .composite (some type) elems => some (type, elems)
  | _ => none

/-- A node with the type and elements of a composite literal is one. -/
theorem Node.eq_of_typedLiteral? {node : Node} {parts : Node × List Node}
    (found : node.typedLiteral? = some parts) : node = .composite (some parts.1) parts.2 := by
  unfold typedLiteral? at found
  split at found
  · cases found
    rfl
  · cases found

/-- Name, place and value of an entry whose key is an identifier. -/
def Node.namedEntry? : Node → Option ((String × Span) × Node)
  | .keyValue key value => key.ident?.map fun named => (named, value)
  | _ => none

/-- An entry with the name and place of its key has that key. -/
theorem Node.eq_of_namedEntry? {node : Node} {entry : (String × Span) × Node}
    (found : node.namedEntry? = some entry) :
    node = .keyValue (.ident entry.1.1 entry.1.2) entry.2 := by
  unfold namedEntry? at found
  split at found
  · obtain ⟨named, ident, rfl⟩ := Option.map_eq_some_iff.mp found
    rw [eq_of_ident? ident]
  · cases found

/-- The index of a module with one file refers from a key of an inline struct in the file to a
symbol of some kind. -/
def InlineKeyRefers (content : String) (kind : SymbolKind) : Prop :=
  ∃ module index resolver literal type elems name span value target,
    Module.ofSources "m" [("p/a.go", content)] = .ok module ∧
    (module.index (.withPrivate true)).run = .ok (.ok index) ∧
    resolver ∈ module.resolvers (.withPrivate true) index.symbols ∧
    literal ∈ resolver.fileVisits ∧ literal.node = .composite (some type) elems ∧
    .keyValue (.ident name span) value ∈ type.structEntries elems ∧
    target ∈ index.symbols.toList ∧ target.kind = kind ∧
    index.RefersAt resolver.file.path span target.id

/-- Keys of inline structs are taken for uses of a variable of the package and of a parameter. -/
theorem inline_struct_key_is_captured :
    InlineKeyRefers "package p\n\nvar K = 1\n\nvar S = struct\x7b K int \x7d\x7b K: 2 \x7d\n"
        .var ∧
      InlineKeyRefers
      "package p\n\nfunc f(K int) \x7b\n\t_ = []struct\x7b K int \x7d\x7b\x7b K: 2 \x7d\x7d\n\x7d\n"
        .parameter := by
  have settled {content : String} {kind : SymbolKind}
      (evaluated : checkOk (Module.ofSources "m" [("p/a.go", content)]) (fun module =>
        checkOk (module.index (.withPrivate true)).run fun ending =>
          checkOk ending fun index =>
            (module.resolvers (.withPrivate true) index.symbols).any fun resolver =>
              resolver.fileVisits.any fun literal => literal.node.plain &&
                literal.node.typedLiteral?.any fun parts =>
                  (parts.1.structEntries parts.2).any fun node => node.namedEntry?.any fun entry =>
                    index.symbols.toList.any fun target => target.kind == kind &&
                      !target.declaredAt resolver.file.path entry.1.2 &&
                        resolver.symbolOf? literal.scopes entry.1.1 == some target.id) = true) :
      InlineKeyRefers content kind := by
    obtain ⟨module, loaded, checked⟩ := exists_of_checkOk evaluated
    obtain ⟨ending, built, ended⟩ := exists_of_checkOk checked
    obtain ⟨index, rfl, keyed⟩ := exists_of_checkOk ended
    obtain ⟨resolver, walked, keyed⟩ := List.any_eq_true.mp keyed
    simp only [Bool.and_eq_true, List.any_eq_true, Option.any_eq_true, Bool.not_eq_true',
      beq_iff_eq] at keyed
    obtain ⟨literal, arrives, plain, parts, typed, node, inline, entry, named, target, known,
      ⟨kindOf, apart⟩, stands⟩ := keyed
    rw [Node.eq_of_namedEntry? named] at inline
    have shape := Node.eq_of_typedLiteral? typed
    obtain ⟨scopes, kept, -, exactly⟩ := inline_struct_key loaded built walked arrives shape inline
    rw [kept plain] at exactly
    exact ⟨module, index, resolver, literal, _, _, _, _, _, target, loaded, built, walked, arrives,
      shape, inline, known, kindOf, (exactly target known).mpr ⟨apart, stands⟩⟩
  exact ⟨settled (by decide +kernel), settled (by decide +kernel)⟩

end GoRefactor
