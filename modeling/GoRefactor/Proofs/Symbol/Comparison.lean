import GoRefactor.Proofs.Go.Mentions
import GoRefactor.Proofs.Symbol.Visit

/-!
# Comparing walks

A walk looks names up in a table of symbols, and what it settles depends on the table. Which way it
takes through a tree depends on the table hardly at all: scopes, types and packages are the same
whatever symbols there are. So two walks over one tree with two tables can be compared step by
step.

`Resolver.Comparable` says what has to hold of single steps, and `Resolver.Together` what it means
for two walks to go side by side.
-/

namespace GoRefactor

/-! ## Order of the text -/

/-- Items that correspond and start at the same offsets correspond in the order of the text. -/
theorem forall₂_inTextOrder {α β : Type} {start : α → Nat} {start' : β → Nat}
    {R : α → β → Prop} (starts : ∀ item item', R item item' → start item = start' item')
    {items : List α} {items' : List β} (matched : List.Forall₂ R items items') :
    List.Forall₂ R (inTextOrder start items) (inTextOrder start' items') := by
  unfold inTextOrder
  induction matched with
  | nil => exact .nil
  | @cons item item' rest rest' first _ ih =>
    rw [sortBy, sortBy]
    generalize sortBy _ rest = sorted at ih ⊢
    generalize sortBy _ rest' = sorted' at ih ⊢
    induction ih with
    | nil => exact .cons first .nil
    | @cons head head' tail tail' one others inner =>
      rw [insertBy, insertBy, starts item item' first, starts head head' one]
      split
      · exact .cons first (.cons one others)
      · exact .cons one inner

/-! ## Types do not depend on symbols -/

/-- The same names are bound, to values of the same types. -/
def Scopes.SameTypes (left right : Scopes) : Prop :=
  ∀ name, (left.find? name).map Local.type = (right.find? name).map Local.type

namespace Scopes.SameTypes

variable {left right : Scopes}

/-- The same names are bound. -/
theorem isSome_eq (same : left.SameTypes right) (name : String) :
    (left.find? name).isSome = (right.find? name).isSome := by
  rw [← Option.isSome_map (f := Local.type), same name, Option.isSome_map]

end Scopes.SameTypes

namespace ModuleScope

variable (scope : ModuleScope) {package : String} {file : SourceFile} {left right : Scopes}

/-- What a base names is a package in both scopes, or in none. -/
theorem packageNamed_congr (same : left.SameTypes right) (base : Node) :
    scope.packageNamed ⟨package, file, left⟩ base =
      scope.packageNamed ⟨package, file, right⟩ base := by
  cases base with
  | ident qualifier span =>
    unfold packageNamed
    simp only [same.isSome_eq qualifier]
  | _ => rfl

/-- Types of expressions depend on the types of names only. -/
theorem exprTypeWithin_congr (same : left.SameTypes right) (fuel : Nat) :
    (∀ expr, scope.exprTypeWithin fuel ⟨package, file, left⟩ expr =
      scope.exprTypeWithin fuel ⟨package, file, right⟩ expr) ∧
    ∀ func args, scope.callResultsWithin fuel ⟨package, file, left⟩ func args =
      scope.callResultsWithin fuel ⟨package, file, right⟩ func args := by
  induction fuel with
  | zero => exact ⟨fun _ => rfl, fun _ _ => rfl⟩
  | succ fuel ih =>
    obtain ⟨typed, called⟩ := ih
    constructor
    · intro expr
      cases expr with
      | ident name span =>
        have bound := same name
        rw [exprTypeWithin, exprTypeWithin]
        cases here : left.find? name <;> cases there : right.find? name <;>
          simp_all
      | selector base name span =>
        rw [exprTypeWithin, exprTypeWithin, scope.packageNamed_congr same base, typed base]
      | call func args => rw [exprTypeWithin, exprTypeWithin, called func args]
      | composite type elems => cases type <;> rfl
      | unary op operand => rw [exprTypeWithin, exprTypeWithin, typed operand]
      | index base indices => rw [exprTypeWithin, exprTypeWithin, typed base]
      | typeAssert base type => cases type <;> rfl
      | _ => rfl
    · intro func args
      cases func with
      | ident name span =>
        rw [callResultsWithin, callResultsWithin]
        simp only [same.isSome_eq name]
        have first : args.head?.bind (scope.exprTypeWithin fuel ⟨package, file, left⟩) =
            args.head?.bind (scope.exprTypeWithin fuel ⟨package, file, right⟩) :=
          congrArg args.head?.bind (funext typed)
        rw [first]
      | selector base name span =>
        rw [callResultsWithin, callResultsWithin, scope.packageNamed_congr same base, typed base]
      | _ => rfl

/-- The type of an expression depends on the types of names only. -/
theorem exprType_congr (same : left.SameTypes right) (expr : Node) :
    scope.exprType ⟨package, file, left⟩ expr = scope.exprType ⟨package, file, right⟩ expr :=
  (scope.exprTypeWithin_congr same inferenceSteps).1 expr

/-- So do the types of the results of a call. -/
theorem callResults_congr (same : left.SameTypes right) (func : Node) (args : List Node) :
    scope.callResults ⟨package, file, left⟩ func args =
      scope.callResults ⟨package, file, right⟩ func args :=
  (scope.exprTypeWithin_congr same inferenceSteps).2 func args

/-- What a file sees under a name is declared under it in some package. -/
theorem lookup_of_lookupInFile {name : String} {site : Site}
    (found : scope.lookupInFile package file name = some site) :
    ∃ path, scope.lookup path name = some site := by
  rcases Option.or_eq_some_iff.mp found with own | ⟨-, dotted⟩
  · exact ⟨package, own⟩
  · unfold lookupDot at dotted
    split at dotted
    · obtain ⟨decl, -, found⟩ := List.exists_of_findSome?_eq_some dotted
      exact ⟨decl.path, found⟩
    · cases dotted

end ModuleScope

/-- The uses noted of what is declared at a span. -/
def SymbolTable.usesAt (table : SymbolTable) (file : String) (nameSpan span : Span)
    (kind : ReferenceKind) : List Use :=
  ((table.atOrigin file nameSpan).map fun symbol => Use.found symbol.id span kind).toList

/-- What the fields and methods with a name settle. -/
def SymbolTable.membersNamed (table : SymbolTable) (name : String) : Resolution :=
  .ofCandidates (((table.named name).filter fun symbol => symbol.kind.isMember).map (·.id))

/-- The uses noted of what candidates settle. -/
def Resolution.uses (name : String) (span : Span) (kind : ReferenceKind) : Resolution → List Use
  | .resolved symbol => [.found symbol span kind]
  | .ambiguous candidates => [.ambiguous name span candidates]
  | .unresolved => [.unresolved]

namespace Resolver

variable (resolver : Resolver)

/-- The resolver with another table of symbols. -/
def withTable (symbols : SymbolTable) : Resolver := { resolver with symbols }

@[simp] theorem withTable_symbols (table : SymbolTable) :
    (resolver.withTable table).symbols = table := rfl

@[simp] theorem withTable_scope (table : SymbolTable) :
    (resolver.withTable table).scope = resolver.scope := rfl

@[simp] theorem withTable_file (table : SymbolTable) :
    (resolver.withTable table).file = resolver.file := rfl

@[simp] theorem withTable_declared (table : SymbolTable) (name : String) :
    (resolver.withTable table).declared name = resolver.declared name := rfl

/-- Where a walk finds what a name declares: in a package, in a type, among the imports of the
file or among the parameters of one of its functions. -/
inductive Declares : String → String → Span → Prop where
  | site {path name : String} {site : Site} (found : resolver.scope.lookup path name = some site) :
    Declares name site.file.path site.nameSpan
  | member {path typeName name : String} {member : Member}
    (found : resolver.scope.member path typeName name = some member) :
    Declares name member.file member.nameSpan
  | imported {name : String} {decl : Import} (found : resolver.file.importNamed name = some decl)
    (binds : (decl.isDot || decl.isBlank) = false) :
    Declares name resolver.file.path decl.nameSpan
  | param {decl : FuncDecl} {param : Param} {name : String} {nameSpan : Span}
    (held : decl ∈ resolver.file.functions.values ++ resolver.file.methods)
    (listed : param ∈ decl.allParams) (named : param.name = some name)
    (stands : param.nameSpan = some nameSpan) : Declares name resolver.file.path nameSpan

/-- What has to hold of single steps for two walks to agree, of which the first has fewer
symbols. -/
structure Comparable (left right : SymbolTable) (Agree : List Use → List Use → Prop) :
    Prop where
  /-- Nothing agrees with nothing. -/
  nil : Agree [] []
  /-- What agrees may be put in a row. -/
  append : ∀ {first second first' second' : List Use}, Agree first second →
    Agree first' second' → Agree (first ++ first') (second ++ second')
  /-- Uses without candidates agree. -/
  unresolved : Agree [.unresolved] [.unresolved]
  /-- Uses of what is declared under a name agree. -/
  origin : ∀ {name file : String} {span nameSpan : Span} (kind : ReferenceKind),
    (name, span) ∈ resolver.file.mentions → resolver.Declares name file nameSpan →
    Agree (left.usesAt file nameSpan span kind) (right.usesAt file nameSpan span kind)
  /-- Uses of any field or method with a name agree. -/
  member : ∀ {name : String} {span : Span} (kind : ReferenceKind),
    (name, span) ∈ resolver.file.mentions →
    Agree ((left.membersNamed name).uses name span kind)
      ((right.membersNamed name).uses name span kind)
  /-- Uses that end a qualified name in both tables agree. -/
  qualified : ∀ {qualifier name : String} {span : Span} (kind : ReferenceKind),
    (name, span) ∈ resolver.file.mentions →
    (resolver.withTable left).qualifiedSuffix qualifier name ≠ .unresolved →
    Agree (((resolver.withTable left).qualifiedSuffix qualifier name).uses name span kind)
      (((resolver.withTable right).qualifiedSuffix qualifier name).uses name span kind)
  /-- More symbols settle more. -/
  settled : ∀ {qualifier name : String},
    (resolver.withTable right).qualifiedSuffix qualifier name = .unresolved →
    (resolver.withTable left).qualifiedSuffix qualifier name = .unresolved
  /-- A use that ends a qualified name in the second table only agrees with whatever the first
  walk notes at the same place. -/
  late : ∀ {qualifier name : String} {span : Span} (kind : ReferenceKind),
    (name, span) ∈ resolver.file.mentions →
    (resolver.withTable left).qualifiedSuffix qualifier name = .unresolved →
    (resolver.withTable right).qualifiedSuffix qualifier name ≠ .unresolved →
    ∀ out : List Use, (∀ use ∈ out, ∀ place, use.span? = some place → place = span) →
      Agree out (((resolver.withTable right).qualifiedSuffix qualifier name).uses name span kind)

/-- A name is bound to no symbol, or to those that the tables have for one declaration of it. -/
def Bound (left right : SymbolTable) (name : String) (first second : Option Nat) : Prop :=
  (first = none ∧ second = none) ∨ ∃ file nameSpan, resolver.Declares name file nameSpan ∧
    first = (left.atOrigin file nameSpan).map (·.id) ∧
    second = (right.atOrigin file nameSpan).map (·.id)

/-- Scopes bind the same names to values of the same types, up to the table. -/
def Alike (left right : SymbolTable) : Scopes → Scopes → Prop :=
  List.Forall₂ (List.Forall₂ fun first second => first.1 = second.1 ∧
    first.2.type = second.2.type ∧
    resolver.Bound left right first.1 first.2.symbol second.2.symbol)

variable {resolver} {left right : SymbolTable}

namespace Alike

/-- In scopes that are alike a name is bound in both, alike, or in none. -/
theorem find? {s t : Scopes} (alike : resolver.Alike left right s t) (name : String) :
    (s.find? name = none ∧ t.find? name = none) ∨ ∃ first second,
      s.find? name = some first ∧ t.find? name = some second ∧ first.type = second.type ∧
      resolver.Bound left right name first.symbol second.symbol := by
  unfold Scopes.find?
  induction alike with
  | nil => exact Or.inl ⟨rfl, rfl⟩
  | @cons frame frame' outer outer' frames _ ih =>
    -- A frame binds the name in both scopes or in none.
    have here : (frame.lookup name = none ∧ frame'.lookup name = none) ∨ ∃ first second,
        frame.lookup name = some first ∧ frame'.lookup name = some second ∧
        first.type = second.type ∧
        resolver.Bound left right name first.symbol second.symbol := by
      induction frames with
      | nil => exact Or.inl ⟨rfl, rfl⟩
      | @cons first second rest rest' one _ inner =>
        obtain ⟨key, value⟩ := first
        obtain ⟨key', value'⟩ := second
        obtain ⟨same, types, bound⟩ := one
        cases same
        rw [List.lookup_cons, List.lookup_cons]
        by_cases met : name = key
        · subst met
          rw [beq_self_eq_true]
          exact Or.inr ⟨value, value', rfl, rfl, types, bound⟩
        · rw [beq_eq_false_iff_ne.mpr met]
          exact inner
    rw [List.findSome?_cons, List.findSome?_cons]
    rcases here with ⟨none, none'⟩ | ⟨first, second, found, found', kept⟩
    · rw [none, none']
      exact ih
    · rw [found, found']
      exact Or.inr ⟨first, second, rfl, rfl, kept⟩

/-- Scopes that are alike have the same types. -/
theorem sameTypes {s t : Scopes} (alike : resolver.Alike left right s t) : s.SameTypes t := by
  intro name
  rcases alike.find? name with ⟨none, none'⟩ | ⟨first, second, found, found', types, -⟩
  · rw [none, none']
  · rw [found, found']
    exact congrArg some types

/-- The outer scopes are alike. -/
theorem tail {s t : Scopes} (alike : resolver.Alike left right s t) :
    resolver.Alike left right s.tail t.tail := by
  cases alike with
  | nil => exact .nil
  | cons _ rest => exact rest

end Alike

/-! ## What depends on types only -/

section Types

variable {s t : Scopes}

/-- Expressions have one type under both tables where the scopes give names the same types. -/
theorem exprType_congr (same : s.SameTypes t) :
    resolver.scope.exprType ((resolver.withTable left).place s) =
      resolver.scope.exprType ((resolver.withTable right).place t) :=
  funext (ModuleScope.exprType_congr _ same)

/-- A base has one type of members under both tables where the scopes agree on types. -/
theorem baseType_congr (same : s.SameTypes t) (base : Node) :
    (resolver.withTable left).baseType s base = (resolver.withTable right).baseType t base := by
  unfold baseType
  change (resolver.scope.exprType _ base).or _ = (resolver.scope.exprType _ base).or _
  rw [exprType_congr same]
  cases base with
  | ident name span =>
    simp only [same.isSome_eq name]
    rfl
  | _ => rfl

/-- The builtins whose first argument is a type. -/
theorem takesType_congr (same : s.SameTypes t) (func : Node) :
    (resolver.withTable left).takesType s func = (resolver.withTable right).takesType t func := by
  cases func with
  | ident name span =>
    simp only [takesType, ← Option.not_isSome, same.isSome_eq name]
    rfl
  | _ => rfl

/-- The types of the names that a local declaration binds. -/
theorem definedTypes_congr (same : s.SameTypes t) (type : Option Node) (values : List Node)
    (count : Nat) :
    (resolver.withTable left).definedTypes s type values count =
      (resolver.withTable right).definedTypes t type values count := by
  have typed : (resolver.withTable left).scope.exprType ((resolver.withTable left).place s) =
      (resolver.withTable right).scope.exprType ((resolver.withTable right).place t) :=
    exprType_congr same
  have called : (resolver.withTable left).scope.callResults ((resolver.withTable left).place s) =
      (resolver.withTable right).scope.callResults ((resolver.withTable right).place t) :=
    funext fun func => funext fun args => ModuleScope.callResults_congr _ same func args
  simp only [definedTypes, typed, called]
  rfl

end Types

/-! ## Walks that go together -/

open Walking

/-- From scopes that are alike, two walks give one value, leave scopes behind that are alike, and
note uses that agree. -/
def Together (resolver : Resolver) (left right : SymbolTable) (Agree : List Use → List Use → Prop)
    {α : Type} (first second : Walking α) (s t : Scopes) : Prop :=
  ∃ value s' t' out out', Emits (fun _ => True) first s value s' out ∧
    Emits (fun _ => True) second t value t' out' ∧ resolver.Alike left right s' t' ∧
    Agree out out'

variable {Agree : List Use → List Use → Prop} {s t : Scopes}

namespace Together

variable {α β : Type}

/-- Values that are given go together. -/
theorem pure (laws : resolver.Comparable left right Agree) (alike : resolver.Alike left right s t)
    (value : α) : Together resolver left right Agree (Pure.pure value) (Pure.pure value) s t :=
  ⟨value, s, t, [], [], .pure value s, .pure value t, alike, laws.nil⟩

/-- Two pairs of steps in a row go together if each pair does. -/
theorem bind (laws : resolver.Comparable left right Agree) {first second : Walking α}
    {following following' : α → Walking β}
    (start : Together resolver left right Agree first second s t)
    (rest : ∀ value s t, resolver.Alike left right s t →
      Together resolver left right Agree (following value) (following' value) s t) :
    Together resolver left right Agree (first >>= following) (second >>= following') s t := by
  obtain ⟨value, s', t', out, out', emits, emits', alike, agree⟩ := start
  obtain ⟨result, final, final', more, more', later, later', alike', agree'⟩ :=
    rest value s' t' alike
  exact ⟨result, final, final', out ++ more, out' ++ more', emits.bind later, emits'.bind later',
    alike', laws.append agree agree'⟩

/-- What follows the state goes as it does for the scopes. -/
theorem get {following following' : Walk → Walking β}
    (same : ∀ uses, following ⟨s, uses⟩ = following ⟨s, []⟩)
    (same' : ∀ uses, following' ⟨t, uses⟩ = following' ⟨t, []⟩)
    (rest : Together resolver left right Agree (following ⟨s, []⟩) (following' ⟨t, []⟩) s t) :
    Together resolver left right Agree (MonadState.get >>= following)
      (MonadState.get >>= following') s t := by
  obtain ⟨result, s', t', out, out', emits, emits', kept⟩ := rest
  exact ⟨result, s', t', out, out', .get same emits, .get same' emits', kept⟩

/-- Walks that go together do so in a scope of their own. -/
theorem enclosed {first second : Walking Unit}
    (inner : Together resolver left right Agree first second ([] :: s) ([] :: t)) :
    Together resolver left right Agree (Walking.enclosed first) (Walking.enclosed second) s t := by
  obtain ⟨_, s', t', out, out', emits, emits', alike, agree⟩ := inner
  refine ⟨(), s'.tail, t'.tail, out, out', ⟨fun uses => ?_, emits.uses_fair⟩,
    ⟨fun uses => ?_, emits'.uses_fair⟩, alike.tail, agree⟩
  · change ((), { (first.run ⟨[] :: s, uses⟩).2 with
      scopes := (first.run ⟨[] :: s, uses⟩).2.scopes.tail }) = _
    rw [emits.run]
  · change ((), { (second.run ⟨[] :: t, uses⟩).2 with
      scopes := (second.run ⟨[] :: t, uses⟩).2.scopes.tail }) = _
    rw [emits'.run]

/-- A local name is bound to no symbol. -/
theorem bindName (laws : resolver.Comparable left right Agree)
    (alike : resolver.Alike left right s t) (name : String) (type : Option GoType) :
    Together resolver left right Agree (Walking.bindName name ⟨none, type⟩)
      (Walking.bindName name ⟨none, type⟩) s t := by
  cases alike with
  | nil => exact ⟨(), [], [], [], [], ⟨fun _ => rfl, List.forall_mem_nil _⟩,
      ⟨fun _ => rfl, List.forall_mem_nil _⟩, .nil, laws.nil⟩
  | @cons frame frame' outer outer' frames rest =>
    by_cases blank : (name == "_") = true
    · refine ⟨(), frame :: outer, frame' :: outer', [], [], ⟨fun uses => ?_, List.forall_mem_nil _⟩,
        ⟨fun uses => ?_, List.forall_mem_nil _⟩, .cons frames rest, laws.nil⟩ <;>
      · change ((), if (name == "_") = true then _ else _) = _
        rw [if_pos blank]
        rfl
    · refine ⟨(), ((name, ⟨none, type⟩) :: frame) :: outer,
        ((name, ⟨none, type⟩) :: frame') :: outer', [], [], ⟨fun uses => ?_, List.forall_mem_nil _⟩,
        ⟨fun uses => ?_, List.forall_mem_nil _⟩,
        .cons (.cons ⟨rfl, rfl, Or.inl ⟨rfl, rfl⟩⟩ frames) rest, laws.nil⟩ <;>
      · change ((), if (name == "_") = true then _ else _) = _
        rw [if_neg blank]
        rfl

/-- Walks that go together below two frames of names do so where the frames are put in front. -/
theorem pushing {frame frame' : List (String × Local)} {first second : Walking Unit}
    (inner : Together resolver left right Agree first second (frame :: s) (frame' :: t)) :
    Together resolver left right Agree
      (modify (fun walk => { walk with scopes := frame :: walk.scopes }) >>= fun _ => first)
      (modify (fun walk => { walk with scopes := frame' :: walk.scopes }) >>= fun _ => second)
      s t := by
  obtain ⟨_, s', t', out, out', emits, emits', kept⟩ := inner
  exact ⟨(), s', t', out, out', ⟨fun uses => emits.run uses, emits.uses_fair⟩,
    ⟨fun uses => emits'.run uses, emits'.uses_fair⟩, kept⟩

end Together

end Resolver

end GoRefactor
