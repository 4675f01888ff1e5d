import GoRefactor.Proofs.Go.Bare
import GoRefactor.Proofs.Symbol.Reached

/-!
# Visits of bare names

A walk over a file arrives at every bare name that the package declares and that no import goes by.
Only such a name is never settled together with the member behind it, nor taken for a builtin.
-/

namespace GoRefactor

namespace Resolver

open Walking

variable {resolver : Resolver}

/-- The file sees something declared under the name, and no import goes by it. -/
structure Sees (resolver : Resolver) (name : String) : Prop where
  declared : (resolver.declared name).isSome = true
  unimported : resolver.file.importNamed name = none

/-- Among the visits is one of each name that the file sees. -/
def Meets (resolver : Resolver) (visits : List Visit) (names : List (String × Span)) : Prop :=
  ∀ named ∈ names, resolver.Sees named.1 → ∃ visit ∈ visits, visit.node = .ident named.1 named.2

namespace Meets

variable {visits visits' : List Visit} {names names' : List (String × Span)}

/-- Without names there is nothing to meet. -/
theorem nil : resolver.Meets visits [] := List.forall_mem_nil _

/-- Names in turn are met in turn. -/
theorem append (first : resolver.Meets visits names) (second : resolver.Meets visits' names') :
    resolver.Meets (visits ++ visits') (names ++ names') := by
  refine List.forall_mem_append.mpr ⟨fun named member sees => ?_, fun named member sees => ?_⟩
  · obtain ⟨visit, arrives, same⟩ := first named member sees
    exact ⟨visit, List.mem_append_left _ arrives, same⟩
  · obtain ⟨visit, arrives, same⟩ := second named member sees
    exact ⟨visit, List.mem_append_right _ arrives, same⟩

/-- Another visit in front does no harm. -/
theorem cons (met : resolver.Meets visits names) (visit : Visit) :
    resolver.Meets (visit :: visits) names := fun named member sees =>
  (met named member sees).imp fun _ found => ⟨List.mem_cons_of_mem _ found.1, found.2⟩

/-- Names that the file does not see need no visit. -/
theorem unseen (blind : ∀ named ∈ names, ¬resolver.Sees named.1) : resolver.Meets visits names :=
  fun named member sees => absurd sees (blind named member)

/-- Names of several parts are met in their visits. -/
theorem flatMap {α : Type} {parts : List α} {visits : α → List Visit}
    {names : α → List (String × Span)}
    (each : ∀ part ∈ parts, resolver.Meets (visits part) (names part)) :
    resolver.Meets (parts.flatMap visits) (parts.flatMap names) := by
  intro named member sees
  obtain ⟨part, listed, inside⟩ := List.mem_flatMap.mp member
  obtain ⟨visit, arrives, same⟩ := each part listed named inside sees
  exact ⟨visit, List.mem_flatMap.mpr ⟨part, listed, arrives⟩, same⟩

end Meets

/-- A base that is settled together with its member is no name that the file sees. -/
theorem not_sees_of_qualifiedMember {base : Node} {name : String} {span : Span}
    {kind : ReferenceKind} {scopes : Scopes}
    (settled : ((resolver.qualifiedMember base name span kind).run ⟨scopes, []⟩).1 = true) :
    ∀ named ∈ base.bare, ¬resolver.Sees named.1 := by
  cases base with
  | ident qualifier qualifierSpan =>
    rintro named member ⟨declared, unimported⟩
    obtain rfl := List.mem_singleton.mp member
    have foreign : resolver.scope.qualifier resolver.file qualifier = .notImport := by
      rw [ModuleScope.qualifier, unimported]
    rw [qualifiedMember] at settled
    simp only [foreign, declared, Bool.true_or, if_true] at settled
    simp at settled
  | _ => cases settled

/-- A builtin that takes a type is no name that the file sees. -/
theorem not_sees_of_takesType {scopes : Scopes} {func : Node}
    (builtin : resolver.takesType scopes func = true) :
    ∀ named ∈ func.bare, ¬resolver.Sees named.1 := by
  cases func with
  | ident name span =>
    simp only [takesType, Bool.and_eq_true] at builtin
    rintro named member ⟨declared, -⟩
    obtain rfl := List.mem_singleton.mp member
    rw [Option.isNone_iff_eq_none.mp builtin.2] at declared
    cases declared
  | _ => cases builtin

/-- A key of a field is an identifier. -/
theorem isIdent_of_fieldOfKey? {type : Option GoType} {key : Node}
    {field : String × String × String × Span} (found : fieldOfKey? type key = some field) :
    key.isIdent = true := by
  cases key with
  | ident => rfl
  | _ => cases found

mutual

/-- **A visit of a node meets its bare names.** -/
theorem meets_visits (mode : VisitMode) : ∀ (node : Node) (scopes : Scopes),
    resolver.Meets (resolver.visits mode node scopes) node.bare
  | .ident name span, scopes => fun named member _ => by
    obtain rfl := List.mem_singleton.mp member
    exact ⟨_, List.mem_singleton_self _, rfl⟩
  | .selector base name span, scopes => by
    rw [visits, Node.bare]
    refine Meets.cons ?_ _
    split
    · exact Meets.unseen (not_sees_of_qualifiedMember ‹_›)
    · exact meets_visits .read base scopes
  | .call func args, scopes => by
    rw [visits, Node.bare]
    refine Meets.cons ?_ _
    split
    · have none : resolver.Meets [] func.bare := Meets.unseen (not_sees_of_takesType ‹_›)
      exact none.append (meets_visitsFirst .type .read args scopes)
    · exact (meets_visits _ func scopes).append (meets_visitsAll .read args _)
  | .composite none elems, scopes => by
    rw [visits, Node.bare]
    exact Meets.cons (meets_visitsAll _ elems scopes) _
  | .composite (some type) elems, scopes => by
    rw [visits, Node.bare]
    exact Meets.cons ((meets_visits .type type scopes).append (meets_visitsAll _ elems _)) _
  | .keyValue key value, scopes => by
    have keyed (inner : Scopes) (mode : VisitMode) :
        resolver.Meets (resolver.visits mode key inner) (if key.isIdent then [] else key.bare) := by
      split
      · exact Meets.nil
      · exact meets_visits mode key inner
    cases mode with
    | entry type =>
      rw [visits, Node.bare]
      refine Meets.cons ?_ _
      split
      · rename_i found
        rw [if_pos (isIdent_of_fieldOfKey? found), List.nil_append]
        exact meets_visits _ value scopes
      · exact (keyed scopes _).append (meets_visits _ value _)
    | _ =>
      rw [visits, Node.bare]
      · exact Meets.cons ((keyed scopes .read).append (meets_visits .read value _)) _
      · exact fun _ other => nomatch other
  | .unary op operand, scopes => by
    rw [visits, Node.bare]
    exact Meets.cons (meets_visits _ operand scopes) _
  | .binary left right, scopes => by
    rw [visits, Node.bare]
    exact Meets.cons ((meets_visits .read left scopes).append (meets_visits .read right _)) _
  | .index base indices, scopes => by
    rw [visits, Node.bare]
    exact Meets.cons ((meets_visits _ base scopes).append (meets_visitsAll _ indices _)) _
  | .typeAssert base type, scopes => by
    rw [visits, Node.bare]
    exact Meets.cons ((meets_visits .read base scopes).append (meets_visitsOption .type type _)) _
  | .typeExpr form parts, scopes => by
    rw [visits, Node.bare]
    exact Meets.cons (meets_visitsFirst _ .type parts scopes) _
  | .literal span, scopes => Meets.nil
  | .funcLit params results body, scopes => by
    rw [visits, Node.bare]
    exact Meets.cons ((meets_visitsParams none params scopes).append
      ((meets_visitsParams none results _).append (meets_visits .read body _))) _
  | .block span stmts, scopes => by
    rw [visits, Node.bare]
    exact Meets.cons (meets_visitsAll .read stmts _) _
  | .define names type values, scopes => by
    rw [visits, Node.bare]
    exact Meets.cons ((meets_visitsOption .type type scopes).append
      (meets_visitsAll .read values _)) _
  | .assign targets values, scopes => by
    rw [visits, Node.bare]
    exact Meets.cons ((meets_visitsAll _ targets scopes).append (meets_visitsAll .read values _)) _
  | .branch header body alt, scopes => by
    rw [visits, Node.bare]
    exact Meets.cons ((meets_visitsAll .read header _).append
      ((meets_visits .read body _).append (meets_visitsOption .read alt _))) _
  | .list items, scopes => by
    rw [visits, Node.bare]
    exact Meets.cons (meets_visitsAll .read items scopes) _

/-- The visits of nodes in order meet the names that they use bare. -/
theorem meets_visitsAll (mode : VisitMode) : ∀ (nodes : List Node) (scopes : Scopes),
    resolver.Meets (resolver.visitsAll mode nodes scopes) (Node.bareAll nodes)
  | [], _ => Meets.nil
  | head :: rest, scopes => by
    rw [visitsAll, Node.bareAll]
    exact (meets_visits mode head scopes).append (meets_visitsAll mode rest _)

/-- Nodes of which the first is visited in another mode. -/
theorem meets_visitsFirst (first others : VisitMode) : ∀ (nodes : List Node) (scopes : Scopes),
    resolver.Meets (resolver.visitsFirst first others nodes scopes) (Node.bareAll nodes)
  | [], _ => Meets.nil
  | head :: rest, scopes => by
    rw [visitsFirst, Node.bareAll]
    exact (meets_visits first head scopes).append (meets_visitsAll others rest _)

/-- The visits of a node that may be left out meet the names that it uses bare. -/
theorem meets_visitsOption (mode : VisitMode) : ∀ (node : Option Node) (scopes : Scopes),
    resolver.Meets (resolver.visitsOption mode node scopes) (Node.bareOption node)
  | none, _ => Meets.nil
  | some node, scopes => meets_visits mode node scopes

/-- The visits of the types of parameters meet the names that those use bare. -/
theorem meets_visitsParams (previous : Option Span) : ∀ (params : List Param) (scopes : Scopes),
    resolver.Meets (resolver.visitsParams previous params scopes) (Node.bareParams previous params)
  | [], _ => Meets.nil
  | ⟨_, _, typeSpan, typeNode⟩ :: rest, scopes => by
    rw [visitsParams, Node.bareParams]
    split
    · exact meets_visitsParams (some typeSpan) rest scopes
    · exact (meets_visits .type typeNode scopes).append (meets_visitsParams (some typeSpan) rest _)

end

/-- The visits of an interface meet the names that its methods and embedded types use bare. -/
theorem meets_visitsOfInterface (embeds : List Node) (methods : List InterfaceMethod)
    (scopes : Scopes) : resolver.Meets (resolver.visitsOfInterface embeds methods scopes)
      (methods.flatMap InterfaceMethod.bare ++ Node.bareAll embeds) := by
  induction methods generalizing scopes with
  | nil => exact meets_visitsAll .type embeds scopes
  | cons head rest ih =>
    rw [visitsOfInterface, List.flatMap_cons, InterfaceMethod.bare, List.append_assoc,
      List.append_assoc]
    exact (meets_visitsParams none head.params scopes).append
      ((meets_visitsParams none head.results _).append (ih _))

/-- **The walk over a file arrives at its bare names.** -/
theorem meets_fileVisits (resolver : Resolver) :
    resolver.Meets resolver.fileVisits resolver.file.bare := by
  rw [SourceFile.bare, SourceFile.decls, List.flatMap_append, List.flatMap_append,
    List.flatMap_map, List.flatMap_map, List.flatMap_map]
  refine (Meets.append (.flatMap fun decl _ => ?_) (.flatMap fun decl _ => ?_)).append
    (.flatMap fun decl _ => ?_)
  · unfold visitsOfType
    change resolver.Meets _ decl.shape.bare
    cases decl.shape with
    | struct fields => exact meets_visitsAll .type _ []
    | interface methods embeds => exact meets_visitsOfInterface embeds methods []
    | other underlying => exact meets_visits .type underlying []
  · exact (meets_visitsAll .type _ []).append ((meets_visitsParams none decl.params _).append
      ((meets_visitsParams none decl.results _).append (meets_visitsOption .read decl.body _)))
  · exact (meets_visitsOption .type decl.typeNode []).append
      (meets_visitsOption .read decl.value _)

end Resolver

end GoRefactor
