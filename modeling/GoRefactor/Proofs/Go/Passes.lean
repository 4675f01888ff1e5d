import GoRefactor.Go.File
import Mathlib.Data.List.Basic

/-!
# The names that a walk passes

A walk over a tree passes the names in it that may stand for something: identifiers and members,
bindings apart. A type that several fields or parameters share stands in the tree once for each of
them. Where it is a part of a type it is passed as often; a list of parameters passes it once.

A tree is tidy when nothing else is passed twice: different parts of it have no name in common, and
the parts of a type that have one are the same.
-/

namespace GoRefactor

mutual

/-- Places of the names that a walk over a node passes, in order. -/
def Node.passes : Node → List Span
  | .ident _ span => [span]
  | .selector base _ span => base.passes ++ [span]
  | .call func args => func.passes ++ Node.passesAll args
  | .composite type elems => Node.passesOption type ++ Node.passesAll elems
  | .keyValue key value => key.passes ++ value.passes
  | .unary _ operand => operand.passes
  | .binary left right => left.passes ++ right.passes
  | .index base indices => base.passes ++ Node.passesAll indices
  | .typeAssert base type => base.passes ++ Node.passesOption type
  | .typeExpr _ parts => Node.passesAll parts
  | .literal _ => []
  | .funcLit params results body =>
    Node.passesParams none params ++ (Node.passesParams none results ++ body.passes)
  | .block _ stmts => Node.passesAll stmts
  | .define _ type values => Node.passesOption type ++ Node.passesAll values
  | .assign targets values => Node.passesAll targets ++ Node.passesAll values
  | .branch header body alt =>
    Node.passesAll header ++ (body.passes ++ Node.passesOption alt)
  | .list items => Node.passesAll items

/-- The same for nodes in order. -/
def Node.passesAll : List Node → List Span
  | [] => []
  | head :: rest => head.passes ++ Node.passesAll rest

/-- The same for a node that may be left out. -/
def Node.passesOption : Option Node → List Span
  | none => []
  | some node => node.passes

/-- The same for the types of parameters: neighbours that share a type pass it once. -/
def Node.passesParams (previous : Option Span) : List Param → List Span
  | [] => []
  | ⟨_, _, typeSpan, typeNode⟩ :: rest =>
    (if previous == some typeSpan then [] else typeNode.passes) ++
      Node.passesParams (some typeSpan) rest

end

mutual

/-- A walk over the node leaves the names bound around it as they are. -/
def Node.plain : Node → Bool
  | .define _ _ _ => false
  | .selector base _ _ => base.plain
  | .call func args => func.plain && Node.plainAll args
  | .composite type elems => Node.plainOption type && Node.plainAll elems
  | .keyValue key value => key.plain && value.plain
  | .unary _ operand => operand.plain
  | .binary left right => left.plain && right.plain
  | .index base indices => base.plain && Node.plainAll indices
  | .typeAssert base type => base.plain && Node.plainOption type
  | .typeExpr _ parts => Node.plainAll parts
  | .funcLit params results _ => Node.plainParams params && Node.plainParams results
  | .assign targets values => Node.plainAll targets && Node.plainAll values
  | .list items => Node.plainAll items
  | .ident _ _ | .literal _ | .block _ _ | .branch _ _ _ => true

/-- The same for nodes in order. -/
def Node.plainAll : List Node → Bool
  | [] => true
  | head :: rest => head.plain && Node.plainAll rest

/-- The same for a node that may be left out. -/
def Node.plainOption : Option Node → Bool
  | none => true
  | some node => node.plain

/-- The same for the types of parameters. -/
def Node.plainParams : List Param → Bool
  | [] => true
  | ⟨_, _, _, typeNode⟩ :: rest => typeNode.plain && Node.plainParams rest

end

/-- The nodes are the same, or have no name in common. -/
def Node.Kin (left right : Node) : Prop := left = right ∨ left.passes.Disjoint right.passes

mutual

/-- No name is passed twice, shared types apart. -/
def Node.Tidy : Node → Prop
  | .ident _ _ | .literal _ => True
  | .selector base _ span => base.Tidy ∧ base.passes.Disjoint [span]
  | .call func args =>
    func.Tidy ∧ Node.TidyAll args ∧ func.passes.Disjoint (Node.passesAll args)
  | .composite type elems =>
    Node.TidyOption type ∧ Node.TidyAll elems ∧
      (Node.passesOption type).Disjoint (Node.passesAll elems)
  | .keyValue key value => key.Tidy ∧ value.Tidy ∧ key.passes.Disjoint value.passes
  | .unary _ operand => operand.Tidy
  | .binary left right => left.Tidy ∧ right.Tidy ∧ left.passes.Disjoint right.passes
  | .index base indices =>
    base.Tidy ∧ Node.TidyAll indices ∧ base.passes.Disjoint (Node.passesAll indices)
  | .typeAssert base type =>
    base.Tidy ∧ Node.TidyOption type ∧ base.passes.Disjoint (Node.passesOption type)
  | .typeExpr form parts => if form = .array then Node.TidyAll parts else Node.TidyParts parts
  | .funcLit params results body =>
    Node.TidyParams none params ∧ Node.TidyParams none results ∧ body.Tidy ∧
      (Node.passesParams none params).Disjoint (Node.passesParams none results ++ body.passes) ∧
      (Node.passesParams none results).Disjoint body.passes
  | .block _ stmts => Node.TidyAll stmts
  | .define _ type values =>
    Node.TidyOption type ∧ Node.TidyAll values ∧
      (Node.passesOption type).Disjoint (Node.passesAll values)
  | .assign targets values =>
    Node.TidyAll targets ∧ Node.TidyAll values ∧
      (Node.passesAll targets).Disjoint (Node.passesAll values)
  | .branch header body alt =>
    Node.TidyAll header ∧ body.Tidy ∧ Node.TidyOption alt ∧
      (Node.passesAll header).Disjoint (body.passes ++ Node.passesOption alt) ∧
      body.passes.Disjoint (Node.passesOption alt)
  | .list items => Node.TidyAll items

/-- Nodes in order are tidy, and have no names in common. -/
def Node.TidyAll : List Node → Prop
  | [] => True
  | head :: rest => head.Tidy ∧ Node.TidyAll rest ∧ head.passes.Disjoint (Node.passesAll rest)

/-- Parts of a type are tidy, bind no names, and have none in common unless they are the same. -/
def Node.TidyParts : List Node → Prop
  | [] => True
  | head :: rest =>
    head.Tidy ∧ head.plain = true ∧ Node.TidyParts rest ∧ ∀ other ∈ rest, head.Kin other

/-- A node that may be left out is tidy. -/
def Node.TidyOption : Option Node → Prop
  | none => True
  | some node => node.Tidy

/-- Types of parameters are tidy, as far as they are passed. -/
def Node.TidyParams (previous : Option Span) : List Param → Prop
  | [] => True
  | ⟨_, _, typeSpan, typeNode⟩ :: rest =>
    (if previous == some typeSpan then True
      else typeNode.Tidy ∧ typeNode.passes.Disjoint (Node.passesParams (some typeSpan) rest)) ∧
      Node.TidyParams (some typeSpan) rest

end

namespace Node

/-- Nodes in order pass what each of them passes. -/
theorem passesAll_eq_flatMap (nodes : List Node) : passesAll nodes = nodes.flatMap passes := by
  induction nodes with
  | nil => rfl
  | cons head rest ih => rw [passesAll, ih, List.flatMap_cons]

/-- Nodes in order pass what one of them passes. -/
theorem passes_subset_passesAll {node : Node} {nodes : List Node} (member : node ∈ nodes) :
    node.passes ⊆ passesAll nodes := by
  intro span here
  rw [passesAll_eq_flatMap]
  exact List.mem_flatMap.mpr ⟨node, member, here⟩

/-- Nodes behind nodes pass what they pass. -/
theorem passesAll_append (first second : List Node) :
    passesAll (first ++ second) = passesAll first ++ passesAll second := by
  rw [passesAll_eq_flatMap, List.flatMap_append, ← passesAll_eq_flatMap, ← passesAll_eq_flatMap]

/-- A node that may be left out passes what a list of it passes. -/
theorem passesOption_eq (node : Option Node) : passesOption node = passesAll node.toList := by
  cases node with
  | none => rfl
  | some node => exact (List.append_nil _).symm

/-- A node that may be left out is tidy exactly when a list of it is. -/
theorem tidyOption_iff {node : Option Node} : TidyOption node ↔ TidyAll node.toList := by
  cases node with
  | none => exact Iff.rfl
  | some node => exact ⟨fun tidy => ⟨tidy, trivial, List.disjoint_nil_right _⟩, And.left⟩

/-- Parts are tidy exactly when each is and any two are kin. -/
theorem tidyParts_iff {parts : List Node} :
    TidyParts parts ↔
      (∀ part ∈ parts, part.Tidy ∧ part.plain = true) ∧ parts.Pairwise Kin := by
  induction parts with
  | nil => simp [TidyParts]
  | cons head rest ih =>
    rw [TidyParts, ih, List.forall_mem_cons, List.pairwise_cons]
    constructor
    · rintro ⟨tidy, plain, ⟨each, kin⟩, apart⟩
      exact ⟨⟨⟨tidy, plain⟩, each⟩, apart, kin⟩
    · rintro ⟨⟨⟨tidy, plain⟩, each⟩, apart, kin⟩
      exact ⟨tidy, plain, ⟨each, kin⟩, apart⟩

end Node

/-! ## Declarations -/

namespace InterfaceMethod

/-- Places of the names that a walk over a method of an interface passes. -/
def passes (method : InterfaceMethod) : List Span :=
  Node.passesParams none method.params ++ Node.passesParams none method.results

/-- No name is passed twice, shared types apart. -/
def Tidy (method : InterfaceMethod) : Prop :=
  Node.TidyParams none method.params ∧ Node.TidyParams none method.results ∧
    (Node.passesParams none method.params).Disjoint (Node.passesParams none method.results)

end InterfaceMethod

namespace TypeShape

/-- Places of the names that a walk over a declared type passes. -/
def passes : TypeShape → List Span
  | .struct fields => Node.passesAll (fields.map (·.typeNode))
  | .interface methods embeds => methods.flatMap InterfaceMethod.passes ++ Node.passesAll embeds
  | .other underlying => underlying.passes

/-- No name is passed twice, shared types apart. -/
def Tidy : TypeShape → Prop
  | .struct fields => Node.TidyParts (fields.map (·.typeNode))
  | .interface methods embeds =>
    (∀ method ∈ methods, method.Tidy) ∧
      methods.Pairwise (fun left right => left.passes.Disjoint right.passes) ∧
      Node.TidyAll embeds ∧
      (methods.flatMap InterfaceMethod.passes).Disjoint (Node.passesAll embeds)
  | .other underlying => underlying.Tidy

end TypeShape

namespace FuncDecl

/-- Places of the names that a walk over a function passes. -/
def passes (decl : FuncDecl) : List Span :=
  Node.passesAll (decl.receiver.map (·.typeNode)).toList ++
    (Node.passesParams none decl.params ++
      (Node.passesParams none decl.results ++ Node.passesOption decl.body))

/-- No name is passed twice, shared types apart. -/
def Tidy (decl : FuncDecl) : Prop :=
  Node.TidyAll (decl.receiver.map (·.typeNode)).toList ∧ Node.TidyParams none decl.params ∧
    Node.TidyParams none decl.results ∧ Node.TidyOption decl.body ∧
    (Node.passesAll (decl.receiver.map (·.typeNode)).toList).Disjoint
      (Node.passesParams none decl.params ++
        (Node.passesParams none decl.results ++ Node.passesOption decl.body)) ∧
    (Node.passesParams none decl.params).Disjoint
      (Node.passesParams none decl.results ++ Node.passesOption decl.body) ∧
    (Node.passesParams none decl.results).Disjoint (Node.passesOption decl.body)

end FuncDecl

namespace ValueDecl

/-- Places of the names that a walk over a variable or constant passes. -/
def passes (decl : ValueDecl) : List Span :=
  Node.passesOption decl.typeNode ++ Node.passesOption decl.value

/-- No name is passed twice, shared types apart. -/
def Tidy (decl : ValueDecl) : Prop :=
  Node.TidyOption decl.typeNode ∧ Node.TidyOption decl.value ∧
    (Node.passesOption decl.typeNode).Disjoint (Node.passesOption decl.value)

end ValueDecl

namespace SourceFile

/-- For each declaration of a file, the names that a walk over it passes. -/
def declPasses (file : SourceFile) : List (List Span) :=
  file.types.values.map (·.shape.passes) ++
    (file.functions.values ++ file.methods).map FuncDecl.passes ++
    (file.vars.values ++ file.consts.values ++ file.blanks).map ValueDecl.passes

/-- Places of the names that a walk over a file passes, declaration by declaration. -/
def passes (file : SourceFile) : List Span := file.declPasses.flatten

/-- No name of a file is passed twice, shared types apart. -/
structure Tidy (file : SourceFile) : Prop where
  types : ∀ decl ∈ file.types.values, decl.shape.Tidy
  functions : ∀ decl ∈ file.functions.values ++ file.methods, decl.Tidy
  values : ∀ decl ∈ file.vars.values ++ file.consts.values ++ file.blanks, decl.Tidy
  /-- Different declarations have no names in common. -/
  apart : file.declPasses.Pairwise List.Disjoint

end SourceFile

end GoRefactor
