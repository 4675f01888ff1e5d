import GoRefactor.Go.Parser.File
import GoRefactor.Go.Walk

/-!
# What a file stores

The spans of a file, listed from its parts: those of declarations, of parameters at any depth and of
all kinds of nodes, each with the name that stands next to it.

A parameter has a name and a place where the name stands, or neither; so has the alias of an import.
A walk over spans visits such a name only where both are there, so it could pass over a place that
has no name. In a tree in which names and places go together there is no such place.
-/

namespace GoRefactor

/-- What a walk shows its visitor. -/
inductive Offer where
  /-- A span. -/
  | span (span : Span)
  /-- A name and the span that addresses it. -/
  | name (name : String) (span : Span)

namespace Offer

/-- The span that is shown. -/
def place : Offer → Span
  | .span shown => shown
  | .name _ shown => shown

/-- The name that is shown, with its span. -/
def named? : Offer → Option (String × Span)
  | .span _ => none
  | .name text shown => some (text, shown)

/-- The span stands next to a name. -/
def isName : Offer → Bool
  | .span _ => false
  | .name _ _ => true

/-- What is stored of a name and its span, when one of them may be missing. -/
def ofOptional : Option String → Option Span → List Offer
  | some text, some place => [.name text place]
  | none, some place => [.span place]
  | _, none => []

/-- What a walk shows of what is stored: a name first, with the span as it is. -/
def shown : Offer → List Offer
  | .span place => [.span place]
  | .name text place => [.name text place, .span place]

end Offer

/-! ## Names with their places -/

mutual

/-- Every parameter in the tree has a name and a place, or neither. -/
def Node.pairs : Node → Bool
  | .ident _ _ => true
  | .selector base _ _ => base.pairs
  | .call func args => func.pairs && Node.pairsAll args
  | .composite type elems => Node.pairsOption type && Node.pairsAll elems
  | .keyValue key value => key.pairs && value.pairs
  | .unary _ operand => operand.pairs
  | .binary left right => left.pairs && right.pairs
  | .index base indices => base.pairs && Node.pairsAll indices
  | .typeAssert base type => base.pairs && Node.pairsOption type
  | .typeExpr _ parts => Node.pairsAll parts
  | .literal _ => true
  | .funcLit params results body =>
    Node.pairsParams params && Node.pairsParams results && body.pairs
  | .block _ stmts => Node.pairsAll stmts
  | .define _ type values => Node.pairsOption type && Node.pairsAll values
  | .assign targets values => Node.pairsAll targets && Node.pairsAll values
  | .branch header body alt => Node.pairsAll header && body.pairs && Node.pairsOption alt
  | .list items => Node.pairsAll items

/-- The same for trees in order. -/
def Node.pairsAll : List Node → Bool
  | [] => true
  | head :: rest => head.pairs && Node.pairsAll rest

/-- The same for a tree that may be left out. -/
def Node.pairsOption : Option Node → Bool
  | none => true
  | some node => node.pairs

/-- The same for parameters, their own names included. -/
def Node.pairsParams : List Param → Bool
  | [] => true
  | ⟨name, nameSpan, _, typeNode⟩ :: rest =>
    (name.isSome == nameSpan.isSome) && typeNode.pairs && Node.pairsParams rest

end

namespace Node

@[simp]
theorem pairsAll_eq_true_iff {nodes : List Node} :
    pairsAll nodes = true ↔ ∀ node ∈ nodes, node.pairs = true := by
  induction nodes with
  | nil => simp [pairsAll]
  | cons head rest ih => simp [pairsAll, ih]

/-- Parameters pair up one by one. -/
@[simp]
theorem pairsParams_eq_true_iff {params : List Param} :
    pairsParams params = true ↔ ∀ param ∈ params,
      param.name.isSome = param.nameSpan.isSome ∧ param.typeNode.pairs = true := by
  induction params with
  | nil => simp [pairsParams]
  | cons head rest ih =>
    obtain ⟨name, nameSpan, typeSpan, typeNode⟩ := head
    simp [pairsParams, ih]

end Node

/-! ## Declarations -/

/-- The alias has a name and a place, or neither. -/
def Import.pairs (decl : Import) : Bool := decl.aliasName.isSome == decl.aliasSpan.isSome

/-- Names and places of parameters go together. -/
def InterfaceMethod.pairs (method : InterfaceMethod) : Bool :=
  Node.pairsParams method.params && Node.pairsParams method.results

/-- Names and places of parameters go together in all that a type is made of. -/
def TypeShape.pairs : TypeShape → Bool
  | .struct fields => Node.pairsAll (fields.map (·.typeNode))
  | .interface methods embeds => methods.all InterfaceMethod.pairs && Node.pairsAll embeds
  | .other underlying => underlying.pairs

/-- Names and places of parameters go together in a function or method. -/
def FuncDecl.pairs (decl : FuncDecl) : Bool :=
  Node.pairsParams decl.receiver.toList && Node.pairsParams decl.params &&
    Node.pairsParams decl.results && Node.pairsOption decl.body

/-- Names and places of parameters go together in the type and value of a variable or constant. -/
def ValueDecl.pairs (decl : ValueDecl) : Bool :=
  Node.pairsOption decl.typeNode && Node.pairsOption decl.value

/-- Names and places go together in a declaration. -/
def TopDecl.pairs : TopDecl → Bool
  | .importing decl => decl.pairs
  | .type decl => decl.shape.pairs
  | .function decl => decl.pairs
  | .var decl => decl.pairs
  | .const decl => decl.pairs

namespace SourceFile

/-- The declarations of a file that a walk visits. -/
def decls (file : SourceFile) : List TopDecl :=
  file.types.values.map .type ++ (file.functions.values ++ file.methods).map .function ++
    (file.vars.values ++ file.consts.values ++ file.blanks).map .var

/-- Names and places go together in all declarations of a file. -/
structure Paired (file : SourceFile) : Prop where
  /-- Imports. -/
  imports : ∀ decl ∈ file.imports, decl.pairs = true
  /-- All other declarations. -/
  decls : ∀ decl ∈ file.decls, decl.pairs = true

/-- Names and places go together in types, functions, variables and constants. -/
theorem paired_iff {file : SourceFile} : file.Paired ↔
    (∀ decl ∈ file.imports, decl.pairs = true) ∧
    (∀ decl ∈ file.types.values, decl.shape.pairs = true) ∧
    (∀ decl ∈ file.functions.values ++ file.methods, decl.pairs = true) ∧
    ∀ decl ∈ file.vars.values ++ file.consts.values ++ file.blanks, decl.pairs = true := by
  constructor
  · intro paired
    refine ⟨paired.imports, fun decl member => ?_, fun decl member => ?_, fun decl member => ?_⟩
    · exact paired.decls (.type decl)
        (List.mem_append_left _ (List.mem_append_left _ (List.mem_map_of_mem member)))
    · exact paired.decls (.function decl)
        (List.mem_append_left _ (List.mem_append_right _ (List.mem_map_of_mem member)))
    · exact paired.decls (.var decl) (List.mem_append_right _ (List.mem_map_of_mem member))
  · rintro ⟨imports, types, functions, values⟩
    refine ⟨imports, fun decl member => ?_⟩
    simp only [decls, List.mem_append, List.mem_map] at member
    rcases member with (⟨type, held, rfl⟩ | ⟨function, held, rfl⟩) | ⟨value, held, rfl⟩
    · exact types type held
    · exact functions function (List.mem_append.mpr held)
    · exact values value (by simpa only [List.mem_append] using held)

end SourceFile

/-! ## Stored in a tree -/

mutual

/-- The spans of a tree with the names next to them. -/
def Node.stored : Node → List Offer
  | .ident name span => [.name name span]
  | .selector base name span => base.stored ++ [.name name span]
  | .call func args => func.stored ++ Node.storedAll args
  | .composite type elems => Node.storedOption type ++ Node.storedAll elems
  | .keyValue key value => key.stored ++ value.stored
  | .unary _ operand => operand.stored
  | .binary left right => left.stored ++ right.stored
  | .index base indices => base.stored ++ Node.storedAll indices
  | .typeAssert base type => base.stored ++ Node.storedOption type
  | .typeExpr _ parts => Node.storedAll parts
  | .literal span => [.span span]
  | .funcLit params results body =>
    Node.storedParams params ++ (Node.storedParams results ++ body.stored)
  | .block span stmts => [.span span] ++ Node.storedAll stmts
  | .define names type values =>
    (names.flatMap fun binding => [.name binding.name binding.span]) ++
      (Node.storedOption type ++ Node.storedAll values)
  | .assign targets values => Node.storedAll targets ++ Node.storedAll values
  | .branch header body alt =>
    Node.storedAll header ++ (body.stored ++ Node.storedOption alt)
  | .list items => Node.storedAll items

/-- The same of trees in order. -/
def Node.storedAll : List Node → List Offer
  | [] => []
  | head :: rest => head.stored ++ Node.storedAll rest

/-- The same of a tree that may be left out. -/
def Node.storedOption : Option Node → List Offer
  | none => []
  | some node => node.stored

/-- The same of a parameter. -/
def Node.storedParam : Param → List Offer
  | ⟨name, nameSpan, typeSpan, typeNode⟩ =>
    Offer.ofOptional name nameSpan ++ ([.span typeSpan] ++ typeNode.stored)

/-- The same of parameters. -/
def Node.storedParams : List Param → List Offer
  | [] => []
  | head :: rest => Node.storedParam head ++ Node.storedParams rest

end

/-! ## Stored in declarations -/

/-- The spans of an import: its path, then its alias. -/
def Import.stored (decl : Import) : List Offer :=
  [.span decl.pathSpan] ++ Offer.ofOptional decl.aliasName decl.aliasSpan

/-- The spans of a field. -/
def Field.stored (decl : Field) : List Offer :=
  [.name decl.name decl.nameSpan] ++ ([.span decl.typeSpan] ++ decl.typeNode.stored)

/-- The spans of a method of an interface. -/
def InterfaceMethod.stored (decl : InterfaceMethod) : List Offer :=
  [.name decl.name decl.nameSpan] ++ ([.span decl.signatureSpan] ++
    (Node.storedParams decl.params ++ Node.storedParams decl.results))

/-- The spans of the shape of a type. -/
def TypeShape.stored : TypeShape → List Offer
  | .struct fields => fields.flatMap Field.stored
  | .interface methods embeds => methods.flatMap InterfaceMethod.stored ++ Node.storedAll embeds
  | .other underlying => underlying.stored

/-- The spans of a declared type. -/
def TypeDecl.stored (decl : TypeDecl) : List Offer :=
  [.name decl.name decl.nameSpan] ++ ([.span decl.extent] ++ decl.shape.stored)

/-- The spans of a function or method. -/
def FuncDecl.stored (decl : FuncDecl) : List Offer :=
  [.name decl.name decl.nameSpan] ++ ([.span decl.extent] ++
    (decl.receiver.toList.flatMap Node.storedParam ++ (Node.storedParams decl.params ++
      (Node.storedParams decl.results ++
        ([.span decl.signatureSpan] ++ Node.storedOption decl.body)))))

/-- The spans of a variable or constant. -/
def ValueDecl.stored (decl : ValueDecl) : List Offer :=
  [.name decl.name decl.nameSpan] ++ ([.span decl.extent] ++
    (decl.typeSpan.toList.flatMap (fun span => [.span span]) ++
      (Node.storedOption decl.typeNode ++ Node.storedOption decl.value)))

/-- The spans of a file: package clause, imports, types, functions, methods, variables, constants
and blank declarations. -/
def SourceFile.stored (file : SourceFile) : List Offer :=
  [.name file.packageName file.packageSpan] ++ (file.imports.flatMap Import.stored ++
    (file.types.values.flatMap TypeDecl.stored ++
      (file.functions.values.flatMap FuncDecl.stored ++ (file.methods.flatMap FuncDecl.stored ++
        (file.vars.values.flatMap ValueDecl.stored ++
          (file.consts.values.flatMap ValueDecl.stored ++
            file.blanks.flatMap ValueDecl.stored))))))

end GoRefactor
