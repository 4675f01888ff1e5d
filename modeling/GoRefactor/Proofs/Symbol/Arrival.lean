import GoRefactor.Proofs.Symbol.Visit
import Mathlib.Data.List.Pairwise

/-!
# Where a walk arrives

A walk arrives at nodes, each in a mode and below the names that are bound around it there. What it
notes at the names of such a node is what a visit of that node alone notes from there. So whatever
an index says of a name in a file can be settled on one visit.
-/

namespace GoRefactor

/-- A node that a walk arrives at. -/
structure Visit where
  /-- How it is visited. -/
  mode : VisitMode
  /-- The node. -/
  node : Node
  /-- Names bound around it. -/
  scopes : Scopes

namespace Walking

/-- Uses that a walk notes from some scopes, in order. -/
def usesFrom (action : Walking Unit) (scopes : Scopes) : List Use :=
  (action.run ⟨scopes, []⟩).2.uses.reverse

/-- Scopes that a walk leaves behind. -/
def scopesAfter (action : Walking Unit) (scopes : Scopes) : Scopes :=
  (action.run ⟨scopes, []⟩).2.scopes

end Walking

namespace Resolver

open Walking

/-! ## Visits within a visit -/

mutual

/-- The visits that a visit of a node leads to, itself included. -/
def visits (resolver : Resolver) (mode : VisitMode) : Node → Scopes → List Visit
  | .ident name span, scopes => [⟨mode, .ident name span, scopes⟩]
  | .selector base name span, scopes =>
    ⟨mode, .selector base name span, scopes⟩ ::
      if ((resolver.qualifiedMember base name span mode.role.memberKind).run ⟨scopes, []⟩).1 then []
      else resolver.visits .read base scopes
  | .call func args, scopes =>
    ⟨mode, .call func args, scopes⟩ ::
      if resolver.takesType scopes func then resolver.visitsFirst .type .read args scopes
      else
        resolver.visits (.use .call) func scopes ++
          resolver.visitsAll .read args (scopesAfter (resolver.visit (.use .call) func) scopes)
  | .composite none elems, scopes =>
    ⟨mode, .composite none elems, scopes⟩ ::
      resolver.visitsAll (.entry mode.literalType) elems scopes
  | .composite (some type) elems, scopes =>
    ⟨mode, .composite (some type) elems, scopes⟩ ::
      (resolver.visits .type type scopes ++
        resolver.visitsAll (.entry (resolver.typeOf type)) elems
          (scopesAfter (resolver.visit .type type) scopes))
  | .keyValue key value, scopes =>
    ⟨mode, .keyValue key value, scopes⟩ ::
      match mode with
      | .entry type =>
        match fieldOfKey? type key with
        | some (path, typeName, name, span) =>
          let valueType := ((resolver.fieldKey path typeName name span).run ⟨scopes, []⟩).1
          resolver.visits (.element valueType) value scopes
        | none =>
          resolver.visits (.key (type.bind GoType.literalKey)) key scopes ++
            resolver.visits (.element (type.bind GoType.literalElement)) value
              (scopesAfter (resolver.visit (.key (type.bind GoType.literalKey)) key) scopes)
      | _ =>
        resolver.visits .read key scopes ++
          resolver.visits .read value (scopesAfter (resolver.visit .read key) scopes)
  | .unary op operand, scopes =>
    ⟨mode, .unary op operand, scopes⟩ :: resolver.visits (mode.operand op operand) operand scopes
  | .binary left right, scopes =>
    ⟨mode, .binary left right, scopes⟩ ::
      (resolver.visits .read left scopes ++
        resolver.visits .read right (scopesAfter (resolver.visit .read left) scopes))
  | .index base indices, scopes =>
    ⟨mode, .index base indices, scopes⟩ ::
      (resolver.visits mode.indexBase base scopes ++
        resolver.visitsAll mode.indices indices
          (scopesAfter (resolver.visit mode.indexBase base) scopes))
  | .typeAssert base type, scopes =>
    ⟨mode, .typeAssert base type, scopes⟩ ::
      (resolver.visits .read base scopes ++
        resolver.visitsOption .type type (scopesAfter (resolver.visit .read base) scopes))
  | .typeExpr form parts, scopes =>
    ⟨mode, .typeExpr form parts, scopes⟩ ::
      resolver.visitsFirst (if form == .array then .read else .type) .type parts scopes
  | .literal span, scopes => [⟨mode, .literal span, scopes⟩]
  | .funcLit params results body, scopes =>
    let withParams := scopesAfter (resolver.visitParams none params) scopes
    let withResults := scopesAfter (resolver.visitParams none results) withParams
    let bound := scopesAfter (resolver.bindParams results)
      (scopesAfter (resolver.bindParams params) ([] :: withResults))
    ⟨mode, .funcLit params results body, scopes⟩ ::
      (resolver.visitsParams none params scopes ++
        (resolver.visitsParams none results withParams ++ resolver.visits .read body bound))
  | .block span stmts, scopes =>
    ⟨mode, .block span stmts, scopes⟩ :: resolver.visitsAll .read stmts ([] :: scopes)
  | .define names type values, scopes =>
    ⟨mode, .define names type values, scopes⟩ ::
      (resolver.visitsOption .type type scopes ++
        resolver.visitsAll .read values (scopesAfter (resolver.visitOption .type type) scopes))
  | .assign targets values, scopes =>
    ⟨mode, .assign targets values, scopes⟩ ::
      (resolver.visitsAll (.use .write) targets scopes ++
        resolver.visitsAll .read values
          (scopesAfter (resolver.visitAll (.use .write) targets) scopes))
  | .branch header body alt, scopes =>
    let inner := scopesAfter (resolver.visitAll .read header) ([] :: scopes)
    ⟨mode, .branch header body alt, scopes⟩ ::
      (resolver.visitsAll .read header ([] :: scopes) ++
        (resolver.visits .read body inner ++
          resolver.visitsOption .read alt (scopesAfter (resolver.visit .read body) inner)))
  | .list items, scopes => ⟨mode, .list items, scopes⟩ :: resolver.visitsAll .read items scopes

/-- The same for nodes in order. -/
def visitsAll (resolver : Resolver) (mode : VisitMode) : List Node → Scopes → List Visit
  | [], _ => []
  | head :: rest, scopes =>
    resolver.visits mode head scopes ++
      resolver.visitsAll mode rest (scopesAfter (resolver.visit mode head) scopes)

/-- The same for nodes of which the first is visited in another mode. -/
def visitsFirst (resolver : Resolver) (first others : VisitMode) :
    List Node → Scopes → List Visit
  | [], _ => []
  | head :: rest, scopes =>
    resolver.visits first head scopes ++
      resolver.visitsAll others rest (scopesAfter (resolver.visit first head) scopes)

/-- The same for a node that may be left out. -/
def visitsOption (resolver : Resolver) (mode : VisitMode) : Option Node → Scopes → List Visit
  | none, _ => []
  | some node, scopes => resolver.visits mode node scopes

/-- The same for the types of parameters. -/
def visitsParams (resolver : Resolver) (previous : Option Span) :
    List Param → Scopes → List Visit
  | [], _ => []
  | ⟨_, _, typeSpan, typeNode⟩ :: rest, scopes =>
    if previous == some typeSpan then resolver.visitsParams (some typeSpan) rest scopes
    else
      resolver.visits .type typeNode scopes ++
        resolver.visitsParams (some typeSpan) rest
          (scopesAfter (resolver.visit .type typeNode) scopes)

end

/-- Uses that a visit notes. -/
def usesAt (resolver : Resolver) (visit : Visit) : List Use :=
  usesFrom (resolver.visit visit.mode visit.node) visit.scopes

/-! ## What visits note of a walk -/

/-- The visits note part of the uses, and what there is at their names, they note. -/
structure Covers (resolver : Resolver) (visits : List Visit) (uses : List Use) (spans : List Span)
    (tidy : Prop) : Prop where
  /-- Names of visited nodes are among the spans. -/
  inside : ∀ visit ∈ visits, visit.node.passes ⊆ spans
  /-- No use stands elsewhere. -/
  stands : ∀ use ∈ uses, ∀ span, use.span? = some span → span ∈ spans
  /-- What a visit notes is noted. -/
  noted : ∀ visit ∈ visits, resolver.usesAt visit ⊆ uses
  /-- Over something tidy, visited nodes are tidy. -/
  neat : tidy → ∀ visit ∈ visits, visit.node.Tidy
  /-- Over something tidy, what is noted at the names of a visited node, its visit notes. -/
  alone : tidy → ∀ visit ∈ visits, ∀ use ∈ uses, ∀ span ∈ visit.node.passes,
    use.span? = some span → use ∈ resolver.usesAt visit

namespace Covers

variable {resolver : Resolver} {visits visits' : List Visit} {uses uses' : List Use}
  {spans spans' : List Span} {tidy tidy' : Prop}

/-- Uses that no visit is named for. -/
theorem unvisited (stands : ∀ use ∈ uses, ∀ span, use.span? = some span → span ∈ spans) :
    Covers resolver [] uses spans tidy :=
  ⟨List.forall_mem_nil _, stands, List.forall_mem_nil _, fun _ => List.forall_mem_nil _,
    fun _ => List.forall_mem_nil _⟩

/-- More may be asked for. -/
theorem weaken (covers : Covers resolver visits uses spans tidy) (neater : tidy' → tidy) :
    Covers resolver visits uses spans tidy' :=
  ⟨covers.inside, covers.stands, covers.noted, covers.neat ∘ neater, covers.alone ∘ neater⟩

/-- Visits behind others cover the uses of both, if those are at other names. -/
theorem append (covers : Covers resolver visits uses spans tidy)
    (covers' : Covers resolver visits' uses' spans' tidy') :
    Covers resolver (visits ++ visits') (uses ++ uses') (spans ++ spans')
      (tidy ∧ tidy' ∧ spans.Disjoint spans') := by
  refine ⟨List.forall_mem_append.mpr ⟨?_, ?_⟩, List.forall_mem_append.mpr ⟨?_, ?_⟩,
    List.forall_mem_append.mpr ⟨?_, ?_⟩, ?_, ?_⟩
  · exact fun visit member => List.subset_append_of_subset_left _ (covers.inside visit member)
  · exact fun visit member => List.subset_append_of_subset_right _ (covers'.inside visit member)
  · exact fun use member span there => List.mem_append_left _ (covers.stands use member span there)
  · exact fun use member span there =>
      List.mem_append_right _ (covers'.stands use member span there)
  · exact fun visit member => List.subset_append_of_subset_left _ (covers.noted visit member)
  · exact fun visit member => List.subset_append_of_subset_right _ (covers'.noted visit member)
  · rintro ⟨holds, holds', -⟩
    exact List.forall_mem_append.mpr ⟨covers.neat holds, covers'.neat holds'⟩
  · rintro ⟨holds, holds', apart⟩
    refine List.forall_mem_append.mpr ⟨fun visit member use noted span passed there => ?_,
      fun visit member use noted span passed there => ?_⟩
    · rcases List.mem_append.mp noted with first | second
      · exact covers.alone holds visit member use first span passed there
      · exact absurd (covers'.stands use second span there)
          (apart (covers.inside visit member passed))
    · rcases List.mem_append.mp noted with first | second
      · exact absurd (covers'.inside visit member passed)
          (apart (covers.stands use first span there))
      · exact covers'.alone holds' visit member use second span passed there

/-- The same visits leave spans in front of their own out. -/
theorem omitting (covers : Covers resolver visits uses spans' tidy) :
    Covers resolver visits uses (spans ++ spans') tidy :=
  ⟨fun visit member => List.subset_append_of_subset_right _ (covers.inside visit member),
    fun use member span there => List.mem_append_right _ (covers.stands use member span there),
    covers.noted, covers.neat, covers.alone⟩

/-- A visit notes what it notes. -/
theorem itself {visit : Visit}
    (covers : Covers resolver visits (resolver.usesAt visit) visit.node.passes visit.node.Tidy) :
    Covers resolver (visit :: visits) (resolver.usesAt visit) visit.node.passes
      visit.node.Tidy := by
  refine ⟨List.forall_mem_cons.mpr ⟨List.Subset.refl _, covers.inside⟩, covers.stands,
    List.forall_mem_cons.mpr ⟨List.Subset.refl _, covers.noted⟩, fun tidy => ?_, fun tidy => ?_⟩
  · exact List.forall_mem_cons.mpr ⟨tidy, covers.neat tidy⟩
  · exact List.forall_mem_cons.mpr ⟨fun use member _ _ _ => member, covers.alone tidy⟩

/-- Visits of several parts, no two of which have names in common. -/
theorem flatten {α : Type} {parts : List α} {visits : α → List Visit} {uses : α → List Use}
    {spans : α → List Span}
    (each : ∀ part ∈ parts, Covers resolver (visits part) (uses part) (spans part) tidy) :
    Covers resolver (parts.flatMap visits) (parts.flatMap uses) (parts.flatMap spans)
      (tidy ∧ (parts.map spans).Pairwise List.Disjoint) := by
  induction parts with
  | nil => exact unvisited (List.forall_mem_nil _)
  | cons head rest ih =>
    obtain ⟨first, others⟩ := List.forall_mem_cons.mp each
    simp only [List.flatMap_cons, List.map_cons, List.pairwise_cons]
    refine (first.append (ih others)).weaken ?_
    rintro ⟨holds, apart, later⟩
    refine ⟨holds, ⟨holds, later⟩, fun span here there => ?_⟩
    obtain ⟨part, member, inside⟩ := List.mem_flatMap.mp there
    exact apart (spans part) (List.mem_map_of_mem member) here inside

end Covers

/-- A walk notes uses, and visits cover them. -/
structure Tours (resolver : Resolver) (action : Walking Unit) (scopes : Scopes)
    (visits : List Visit) (spans : List Span) (tidy : Prop) : Prop where
  /-- What the walk notes does not depend on what was noted before. -/
  emits : ∃ after uses, Emits resolver.Genuine action scopes () after uses
  /-- Visits cover what it notes. -/
  covers : Covers resolver visits (usesFrom action scopes) spans tidy

/-- What a walk is known to add are its uses, and the scopes are those that it leaves. -/
theorem eq_of_emits {fair : Use → Prop} {action : Walking Unit} {scopes after : Scopes}
    {uses : List Use} (emits : Emits fair action scopes () after uses) :
    scopesAfter action scopes = after ∧ usesFrom action scopes = uses := by
  unfold scopesAfter usesFrom
  rw [emits.run, List.append_nil, List.reverse_reverse]
  exact ⟨rfl, rfl⟩

namespace Tours

variable {resolver : Resolver} {action following : Walking Unit} {scopes : Scopes}
  {visits visits' : List Visit} {spans spans' : List Span} {tidy tidy' : Prop}

/-- A walk over nothing makes no visits. -/
theorem pure (scopes : Scopes) : Tours resolver (Pure.pure ()) scopes [] [] tidy :=
  ⟨⟨scopes, [], .pure () scopes⟩, .unvisited (List.forall_mem_nil _)⟩

/-- A walk that no visit is named for. -/
theorem unvisited {restores : Bool}
    (walks : Walks resolver.Genuine action scopes spans restores tidy') :
    Tours resolver action scopes [] spans tidy := by
  obtain ⟨after, uses, emits, -, -, lands⟩ := walks
  refine ⟨⟨after, uses, emits⟩, .unvisited ?_⟩
  rw [(eq_of_emits emits).2]
  exact lands.mem_spans

/-- More may be asked for. -/
theorem weaken (tours : Tours resolver action scopes visits spans tidy) (neater : tidy' → tidy) :
    Tours resolver action scopes visits spans tidy' :=
  ⟨tours.emits, tours.covers.weaken neater⟩

/-- Two walks in a row make the visits of both, if they are over different names. -/
theorem bind (first : Tours resolver action scopes visits spans tidy)
    (second : Tours resolver following (scopesAfter action scopes) visits' spans' tidy') :
    Tours resolver (action >>= fun _ => following) scopes (visits ++ visits') (spans ++ spans')
      (tidy ∧ tidy' ∧ spans.Disjoint spans') := by
  obtain ⟨⟨after, uses, emits⟩, covers⟩ := first
  obtain ⟨rfl, rfl⟩ := eq_of_emits emits
  obtain ⟨⟨final, more, emits'⟩, covers'⟩ := second
  obtain ⟨rfl, rfl⟩ := eq_of_emits emits'
  have both : Emits resolver.Genuine (action >>= fun _ => following) scopes () _ _ :=
    emits.bind emits'
  refine ⟨⟨_, _, both⟩, ?_⟩
  rw [(eq_of_emits both).2]
  exact covers.append covers'

/-- A walk that leaves names in front of its own out. -/
theorem omitting (tours : Tours resolver action scopes visits spans' tidy) :
    Tours resolver action scopes visits (spans ++ spans') tidy :=
  ⟨tours.emits, tours.covers.omitting⟩

/-- A walk behind a step makes its own visits, if the step is at other names. -/
theorem behind {α : Type} {step : Walking α} {value : α} {after : α → Walking Unit}
    (first : Touches resolver.Genuine step scopes value spans)
    (second : Tours resolver (after value) scopes visits spans' tidy) :
    Tours resolver (step >>= after) scopes visits (spans ++ spans')
      (tidy ∧ spans.Disjoint spans') := by
  obtain ⟨uses, emits, lands⟩ := first
  obtain ⟨⟨final, more, emits'⟩, covers⟩ := second
  obtain ⟨rfl, rfl⟩ := eq_of_emits emits'
  have both := emits.bind emits'
  refine ⟨⟨_, _, both⟩, ?_⟩
  rw [(eq_of_emits both).2]
  exact ((Covers.unvisited lands.mem_spans).append covers).weaken fun ⟨holds, apart⟩ =>
    ⟨trivial, holds, apart⟩

/-- What follows the state notes what it notes for the scopes. -/
theorem get {after : Walk → Walking Unit}
    (same : ∀ uses, after ⟨scopes, uses⟩ = after ⟨scopes, []⟩)
    (tours : Tours resolver (after ⟨scopes, []⟩) scopes visits spans tidy) :
    Tours resolver (MonadState.get >>= after) scopes visits spans tidy := by
  obtain ⟨⟨final, uses, emits⟩, covers⟩ := tours
  exact ⟨⟨final, uses, .get same emits⟩, covers⟩

/-- A walk in a scope of its own makes the visits that it makes there. -/
theorem enclosed (inner : Tours resolver action ([] :: scopes) visits spans tidy) :
    Tours resolver (Walking.enclosed action) scopes visits spans tidy := by
  obtain ⟨⟨after, uses, emits⟩, covers⟩ := inner
  refine ⟨⟨after.tail, uses, ⟨fun uses => ?_, emits.uses_fair⟩⟩, covers⟩
  change ((), { (action.run ⟨[] :: scopes, uses⟩).2 with
    scopes := (action.run ⟨[] :: scopes, uses⟩).2.scopes.tail }) = _
  rw [emits.run]

/-- A walk behind names that are bound at once. -/
theorem pushing {frame : List (String × Local)}
    (tours : Tours resolver action (frame :: scopes) visits spans tidy) :
    Tours resolver
      (do
        modify fun walk => { walk with scopes := frame :: walk.scopes }
        action)
      scopes visits spans tidy := by
  obtain ⟨⟨after, uses, emits⟩, covers⟩ := tours
  exact ⟨⟨after, uses, ⟨emits.run, emits.uses_fair⟩⟩, covers⟩

/-- What binds names after a walk notes nothing. -/
theorem binding (tours : Tours resolver action scopes visits spans tidy)
    (binds : ∀ scopes, Binds resolver.Genuine following scopes) :
    Tours resolver (action >>= fun _ => following) scopes visits spans tidy := by
  obtain ⟨⟨after, uses, emits⟩, covers⟩ := tours
  obtain ⟨rfl, rfl⟩ := eq_of_emits emits
  obtain ⟨final, emits', -⟩ := binds (scopesAfter action scopes)
  have both : Emits resolver.Genuine (action >>= fun _ => following) scopes () _ _ :=
    emits.bind emits'
  refine ⟨⟨_, _, both⟩, ?_⟩
  rw [(eq_of_emits both).2, List.append_nil]
  exact covers

/-- A walk behind what binds names makes the visits that it makes in the scopes then. -/
theorem bound (binds : Binds resolver.Genuine action scopes)
    (tours : Tours resolver following (scopesAfter action scopes) visits spans tidy) :
    Tours resolver (action >>= fun _ => following) scopes visits spans tidy := by
  obtain ⟨after, emits, -⟩ := binds
  obtain ⟨rfl, none⟩ := eq_of_emits emits
  obtain ⟨⟨final, more, emits'⟩, covers⟩ := tours
  obtain ⟨rfl, rfl⟩ := eq_of_emits emits'
  have both : Emits resolver.Genuine (action >>= fun _ => following) scopes () _ _ :=
    emits.bind emits'
  refine ⟨⟨_, _, both⟩, ?_⟩
  rw [(eq_of_emits both).2, List.nil_append]
  exact covers

/-- A visit is among those that it leads to. -/
theorem itself {mode : VisitMode} {node : Node}
    (tours : Tours resolver (resolver.visit mode node) scopes visits node.passes node.Tidy) :
    Tours resolver (resolver.visit mode node) scopes (⟨mode, node, scopes⟩ :: visits) node.passes
      node.Tidy :=
  ⟨tours.emits, tours.covers.itself⟩

end Tours

section Nodes

variable {resolver : Resolver}

/-- Of two nodes that are kin, each is kin to the other. -/
instance : Std.Symm Node.Kin :=
  ⟨fun _ _ kin => kin.imp Eq.symm List.disjoint_symm⟩

/-- Nodes that are all visited in one mode. -/
theorem visitsFirst_same (mode : VisitMode) (nodes : List Node) (scopes : Scopes) :
    resolver.visitsFirst mode mode nodes scopes = resolver.visitsAll mode nodes scopes := by
  cases nodes with
  | nil => rfl
  | cons head rest => rfl

/-- Parts that keep the scopes are visited from the same ones. -/
theorem visitsAll_of_plain (resolver : Resolver) (mode : VisitMode) (scopes : Scopes)
    {parts : List Node}
    (plain : ∀ part ∈ parts, part.plain = true) :
    resolver.visitsAll mode parts scopes =
        parts.flatMap (fun part => resolver.visits mode part scopes) ∧
      usesFrom (resolver.visitAll mode parts) scopes =
        parts.flatMap fun part => usesFrom (resolver.visit mode part) scopes := by
  induction parts with
  | nil => exact ⟨rfl, rfl⟩
  | cons head rest ih =>
    obtain ⟨here, others⟩ := List.forall_mem_cons.mp plain
    obtain ⟨visited, noted⟩ := ih others
    obtain ⟨after, uses, emits, -, restores, -⟩ := @walks_visit resolver mode head scopes
    rw [restores here] at emits
    obtain ⟨kept, same⟩ := eq_of_emits emits
    obtain ⟨final, more, emits', -⟩ := @walks_visitAll resolver mode rest scopes
    have both : Emits resolver.Genuine (resolver.visitAll mode (head :: rest)) scopes () _ _ :=
      emits.bind emits'
    rw [visitsAll, kept, visited, (eq_of_emits both).2, ← (eq_of_emits emits').2, noted, ← same]
    exact ⟨rfl, rfl⟩

/-- Parts of a type are visited from the same scopes, and parts with a name in common are the
same. -/
theorem tours_parts {mode : VisitMode} {scopes : Scopes} {parts : List Node} {tidy : Prop}
    (tours : Tours resolver (resolver.visitAll mode parts) scopes
      (resolver.visitsAll mode parts scopes) (Node.passesAll parts) tidy)
    (each : ∀ part ∈ parts, Tours resolver (resolver.visit mode part) scopes
      (resolver.visits mode part scopes) part.passes part.Tidy) :
    Tours resolver (resolver.visitAll mode parts) scopes (resolver.visitsAll mode parts scopes)
      (Node.passesAll parts) (Node.TidyParts parts) := by
  refine ⟨tours.emits, tours.covers.inside, tours.covers.stands, tours.covers.noted,
    fun holds => ?_, fun holds => ?_⟩
  · obtain ⟨neat, -⟩ := Node.tidyParts_iff.mp holds
    obtain ⟨visited, -⟩ :=
      visitsAll_of_plain resolver mode scopes fun part member => (neat part member).2
    rw [visited]
    intro visit member
    obtain ⟨part, listed, inside⟩ := List.mem_flatMap.mp member
    exact (each part listed).covers.neat (neat part listed).1 visit inside
  · obtain ⟨neat, kin⟩ := Node.tidyParts_iff.mp holds
    obtain ⟨visited, noted⟩ :=
      visitsAll_of_plain resolver mode scopes fun part member => (neat part member).2
    rw [visited, noted]
    intro visit member use among span passed there
    obtain ⟨part, listed, inside⟩ := List.mem_flatMap.mp member
    obtain ⟨other, listed', inside'⟩ := List.mem_flatMap.mp among
    have here : span ∈ part.passes := (each part listed).covers.inside visit inside passed
    have there' : span ∈ other.passes := (each other listed').covers.stands use inside' span there
    have itself (part : Node) (_ : part ∈ parts) : part.Kin part := Or.inl rfl
    have same : part = other :=
      (kin.forall_of_forall itself listed listed').resolve_right fun apart => apart here there'
    subst same
    exact (each part listed).covers.alone (neat part listed).1 visit inside use inside' span passed
      there

mutual

/-- The visits that a visit leads to cover what it notes. -/
theorem tours_visit (mode : VisitMode) : (node : Node) → ∀ scopes,
    Tours resolver (resolver.visit mode node) scopes (resolver.visits mode node scopes) node.passes
      node.Tidy
  | .ident name span, scopes => by
    rw [visits]
    exact .itself (.unvisited (walks_visit mode (.ident name span) scopes))
  | .selector base name span, scopes => by
    rw [visits]
    refine .itself ?_
    obtain ⟨settled, uses, emits, nothing, -⟩ :=
      resolver.settles_qualifiedMember scopes base name span mode.role.memberKind
    have value : ((resolver.qualifiedMember base name span mode.role.memberKind).run
        ⟨scopes, []⟩).1 = settled := by rw [emits.run]
    rw [value]
    cases settled with
    | true => exact .unvisited (walks_visit mode (.selector base name span) scopes)
    | false =>
      cases nothing rfl
      rw [visit, Node.passes, Node.Tidy, if_neg Bool.false_ne_true,
        ← List.append_nil (resolver.visits _ _ _)]
      have member (scopes : Scopes) : Tours resolver _ scopes [] [span] True := .unvisited
        ((resolver.touches_typedMember scopes base name span mode.role.memberKind).walks true True)
      have both := (tours_visit .read base scopes).bind (member _)
      refine (Tours.behind ⟨[], emits, .nil [] True⟩ both).weaken fun tidy => ?_
      exact ⟨⟨tidy.1, trivial, tidy.2⟩, List.disjoint_nil_left _⟩
  | .call func args, scopes => by
    rw [visits]
    refine .itself ?_
    rw [visit, Node.passes, Node.Tidy]
    refine .get (fun _ => rfl) ?_
    dsimp only
    split
    · exact (tours_visitFirst .type .read args scopes).omitting.weaken fun tidy => tidy.2.1
    · exact .bind (tours_visit (.use .call) func scopes) (tours_visitAll .read args _)
  | .composite none elems, scopes => by
    rw [visits]
    refine .itself ?_
    rw [visit, Node.passes, Node.Tidy]
    exact (tours_visitAll _ elems scopes).weaken fun tidy => tidy.2.1
  | .composite (some type) elems, scopes => by
    rw [visits]
    refine .itself ?_
    rw [visit, Node.passes, Node.Tidy]
    exact .bind (tours_visit .type type scopes) (tours_visitAll _ elems _)
  | .keyValue key value, scopes => by
    have inTurn (mode mode' : VisitMode) :=
      Tours.bind (tours_visit mode key scopes) (tours_visit mode' value _)
    cases mode with
    | entry type =>
      rw [visits]
      refine .itself ?_
      rw [visit, Node.passes, Node.Tidy]
      cases found : fieldOfKey? type key with
      | none => exact inTurn _ _
      | some field =>
        obtain ⟨path, typeName, name, span⟩ := field
        obtain ⟨valueType, uses, emits, lands⟩ :=
          resolver.touches_fieldKey scopes path typeName name span
        have known : ((resolver.fieldKey path typeName name span).run ⟨scopes, []⟩).1 =
            valueType := by rw [emits.run]
        cases eq_ident_of_fieldOfKey? found
        dsimp only
        rw [known]
        exact (Tours.behind ⟨uses, emits, lands⟩
          (tours_visit (.element valueType) value scopes)).weaken fun tidy => ⟨tidy.2.1, tidy.2.2⟩
    | _ =>
      rw [visits]
      refine .itself ?_
      rw [visit, Node.passes, Node.Tidy]
      · exact inTurn .read .read
      · rintro _ ⟨⟩
      · rintro _ ⟨⟩
  | .unary op operand, scopes => by
    rw [visits]
    refine .itself ?_
    rw [visit, Node.passes, Node.Tidy]
    exact tours_visit _ operand scopes
  | .binary left right, scopes => by
    rw [visits]
    refine .itself ?_
    rw [visit, Node.passes, Node.Tidy]
    exact .bind (tours_visit .read left scopes) (tours_visit .read right _)
  | .index base indices, scopes => by
    rw [visits]
    refine .itself ?_
    rw [visit, Node.passes, Node.Tidy]
    exact .bind (tours_visit _ base scopes) (tours_visitAll _ indices _)
  | .typeAssert base type, scopes => by
    rw [visits]
    refine .itself ?_
    rw [visit, Node.passes, Node.Tidy]
    exact .bind (tours_visit .read base scopes) (tours_visitOption .type type _)
  | .typeExpr form parts, scopes => by
    rw [visits]
    refine .itself ?_
    rw [visit, Node.passes, Node.Tidy]
    have inTurn := tours_visitFirst (if form == .array then .read else .type) .type parts scopes
    by_cases array : form = .array
    · rw [if_pos array]
      exact inTurn
    · rw [if_neg array]
      -- Every part is visited as a type, and in the same scopes.
      rw [if_neg (fun same => array (beq_iff_eq.mp same)), visitFirst_same,
        visitsFirst_same] at inTurn ⊢
      exact tours_parts inTurn fun part member => tours_each .type parts part member scopes
  | .literal span, scopes => by
    rw [visits]
    exact .itself (.unvisited (walks_visit mode (.literal span) scopes))
  | .funcLit params results body, scopes => by
    rw [visits]
    refine .itself ?_
    rw [visit, Node.passes, Node.Tidy]
    have inner (scopes : Scopes) := Tours.enclosed (.bound
      (resolver.binds_bindParams params ([] :: scopes)) (.bound
        (resolver.binds_bindParams results _) (tours_visit .read body _)))
    refine (Tours.bind (tours_visitParams none params scopes)
      (Tours.bind (tours_visitParams none results _) (inner _))).weaken ?_
    rintro ⟨params, results, body, apart, apart'⟩
    exact ⟨params, ⟨results, body, apart'⟩, apart⟩
  | .block span stmts, scopes => by
    rw [visits]
    refine .itself ?_
    rw [visit, Node.passes, Node.Tidy]
    exact .enclosed (tours_visitAll .read stmts _)
  | .define names type values, scopes => by
    rw [visits]
    refine .itself ?_
    rw [visit, Node.passes, Node.Tidy]
    exact .bind (tours_visitOption .type type scopes)
      ((tours_visitAll .read values _).binding fun scopes =>
        .get (fun _ => rfl) (resolver.binds_bindNames _ names scopes))
  | .assign targets values, scopes => by
    rw [visits]
    refine .itself ?_
    rw [visit, Node.passes, Node.Tidy]
    exact .bind (tours_visitAll _ targets scopes) (tours_visitAll .read values _)
  | .branch header body alt, scopes => by
    rw [visits]
    refine .itself ?_
    rw [visit, Node.passes, Node.Tidy]
    refine .enclosed ((Tours.bind (tours_visitAll .read header _)
      (Tours.bind (tours_visit .read body _) (tours_visitOption .read alt _))).weaken ?_)
    rintro ⟨header, body, alt, apart, apart'⟩
    exact ⟨header, ⟨body, alt, apart'⟩, apart⟩
  | .list items, scopes => by
    rw [visits]
    refine .itself ?_
    rw [visit, Node.passes, Node.Tidy]
    exact tours_visitAll .read items scopes

/-- A walk over nodes in order makes the visits of each. -/
theorem tours_visitAll (mode : VisitMode) : (nodes : List Node) → ∀ scopes,
    Tours resolver (resolver.visitAll mode nodes) scopes (resolver.visitsAll mode nodes scopes)
      (Node.passesAll nodes) (Node.TidyAll nodes)
  | [], scopes => .pure scopes
  | head :: rest, scopes => by
    rw [visitAll, visitsAll, Node.passesAll, Node.TidyAll]
    exact .bind (tours_visit mode head scopes) (tours_visitAll mode rest _)

/-- Each of some nodes is visited by itself. -/
theorem tours_each (mode : VisitMode) : (nodes : List Node) → ∀ node ∈ nodes, ∀ scopes,
    Tours resolver (resolver.visit mode node) scopes (resolver.visits mode node scopes) node.passes
      node.Tidy
  | [] => fun _ member => nomatch member
  | head :: rest => List.forall_mem_cons.mpr ⟨tours_visit mode head, tours_each mode rest⟩

/-- The same for nodes of which the first is visited in another mode. -/
theorem tours_visitFirst (first others : VisitMode) : (nodes : List Node) → ∀ scopes,
    Tours resolver (resolver.visitFirst first others nodes) scopes
      (resolver.visitsFirst first others nodes scopes) (Node.passesAll nodes) (Node.TidyAll nodes)
  | [], scopes => .pure scopes
  | head :: rest, scopes => by
    rw [visitFirst, visitsFirst, Node.passesAll, Node.TidyAll]
    exact .bind (tours_visit first head scopes) (tours_visitAll others rest _)

/-- The same for a node that may be left out. -/
theorem tours_visitOption (mode : VisitMode) : (node : Option Node) → ∀ scopes,
    Tours resolver (resolver.visitOption mode node) scopes (resolver.visitsOption mode node scopes)
      (Node.passesOption node) (Node.TidyOption node)
  | none, scopes => .pure scopes
  | some node, scopes => by
    rw [visitOption, visitsOption, Node.passesOption, Node.TidyOption]
    exact tours_visit mode node scopes

/-- A walk over the types of parameters makes the visits of each. -/
theorem tours_visitParams (previous : Option Span) : (params : List Param) → ∀ scopes,
    Tours resolver (resolver.visitParams previous params) scopes
      (resolver.visitsParams previous params scopes) (Node.passesParams previous params)
      (Node.TidyParams previous params)
  | [], scopes => .pure scopes
  | ⟨_, _, typeSpan, typeNode⟩ :: rest, scopes => by
    rw [visitParams, visitsParams, Node.passesParams, Node.TidyParams]
    split
    · exact (tours_visitParams (some typeSpan) rest scopes).weaken And.right
    · refine (Tours.bind (tours_visit .type typeNode scopes)
        (tours_visitParams (some typeSpan) rest _)).weaken ?_
      rintro ⟨⟨tidy, apart⟩, others⟩
      exact ⟨tidy, others, apart⟩

end

end Nodes

section Closed

variable {resolver : Resolver}

/-- With a visit come the visits that it leads to. -/
def Closed (resolver : Resolver) (visits : List Visit) : Prop :=
  ∀ visit ∈ visits, resolver.visits visit.mode visit.node visit.scopes ⊆ visits

namespace Closed

variable {visits visits' : List Visit}

/-- An empty list of visits is closed. -/
theorem nil : Closed resolver [] := List.forall_mem_nil _

/-- Visits behind others are closed if both groups are. -/
theorem append (first : Closed resolver visits) (second : Closed resolver visits') :
    Closed resolver (visits ++ visits') :=
  List.forall_mem_append.mpr
    ⟨fun visit member => List.subset_append_of_subset_left _ (first visit member),
      fun visit member => List.subset_append_of_subset_right _ (second visit member)⟩

/-- Visits of several parts are closed if those of each part are. -/
theorem flatMap {α : Type} {parts : List α} {visits : α → List Visit}
    (each : ∀ part, Closed resolver (visits part)) : Closed resolver (parts.flatMap visits) := by
  intro visit member other inside
  obtain ⟨part, listed, here⟩ := List.mem_flatMap.mp member
  exact List.mem_flatMap.mpr ⟨part, listed, each part visit here inside⟩

/-- A visit in front of those that it leads to. -/
theorem itself {mode : VisitMode} {node : Node} {scopes : Scopes}
    (leads : resolver.visits mode node scopes = ⟨mode, node, scopes⟩ :: visits)
    (closed : Closed resolver visits) : Closed resolver (resolver.visits mode node scopes) := by
  rw [leads]
  refine List.forall_mem_cons.mpr ⟨?_, fun visit member =>
    List.subset_cons_of_subset _ (closed visit member)⟩
  rw [← leads]
  exact List.Subset.refl _

end Closed

mutual

/-- The visits that a visit leads to come with those that they lead to. -/
theorem closed_visits (mode : VisitMode) : (node : Node) → ∀ scopes,
    Closed resolver (resolver.visits mode node scopes)
  | .ident name span, scopes => .itself (by rw [visits]) .nil
  | .selector base name span, scopes => by
    refine .itself (by rw [visits]) ?_
    split
    · exact .nil
    · exact closed_visits .read base scopes
  | .call func args, scopes => by
    refine .itself (by rw [visits]) ?_
    split
    · exact closed_visitsFirst .type .read args scopes
    · exact (closed_visits (.use .call) func scopes).append (closed_visitsAll .read args _)
  | .composite none elems, scopes => .itself (by rw [visits]) (closed_visitsAll _ elems scopes)
  | .composite (some type) elems, scopes =>
    .itself (by rw [visits]) ((closed_visits .type type scopes).append (closed_visitsAll _ elems _))
  | .keyValue key value, scopes => by
    have inTurn (mode mode' : VisitMode) (scopes' : Scopes) :=
      (closed_visits mode key scopes).append (closed_visits mode' value scopes')
    cases mode with
    | entry type =>
      refine .itself (by rw [visits]) ?_
      dsimp only
      split
      · exact closed_visits _ value scopes
      · exact inTurn _ _ _
    | _ =>
      have inOrder := inTurn .read .read (scopesAfter (resolver.visit .read key) scopes)
      refine .itself ?_ inOrder
      rw [visits]
      rintro _ ⟨⟩
  | .unary op operand, scopes => .itself (by rw [visits]) (closed_visits _ operand scopes)
  | .binary left right, scopes =>
    .itself (by rw [visits])
      ((closed_visits .read left scopes).append (closed_visits .read right _))
  | .index base indices, scopes =>
    .itself (by rw [visits]) ((closed_visits _ base scopes).append (closed_visitsAll _ indices _))
  | .typeAssert base type, scopes =>
    .itself (by rw [visits])
      ((closed_visits .read base scopes).append (closed_visitsOption .type type _))
  | .typeExpr form parts, scopes =>
    .itself (by rw [visits]) (closed_visitsFirst _ .type parts scopes)
  | .literal span, scopes => .itself (by rw [visits]) .nil
  | .funcLit params results body, scopes =>
    .itself (by rw [visits]) ((closed_visitsParams none params scopes).append
      ((closed_visitsParams none results _).append (closed_visits .read body _)))
  | .block span stmts, scopes => .itself (by rw [visits]) (closed_visitsAll .read stmts _)
  | .define names type values, scopes =>
    .itself (by rw [visits])
      ((closed_visitsOption .type type scopes).append (closed_visitsAll .read values _))
  | .assign targets values, scopes =>
    .itself (by rw [visits])
      ((closed_visitsAll _ targets scopes).append (closed_visitsAll .read values _))
  | .branch header body alt, scopes =>
    .itself (by rw [visits]) ((closed_visitsAll .read header _).append
      ((closed_visits .read body _).append (closed_visitsOption .read alt _)))
  | .list items, scopes => .itself (by rw [visits]) (closed_visitsAll .read items scopes)

/-- The visits of nodes in order are closed. -/
theorem closed_visitsAll (mode : VisitMode) : (nodes : List Node) → ∀ scopes,
    Closed resolver (resolver.visitsAll mode nodes scopes)
  | [], _ => .nil
  | head :: rest, scopes => by
    rw [visitsAll]
    exact (closed_visits mode head scopes).append (closed_visitsAll mode rest _)

/-- The same for nodes of which the first is visited in another mode. -/
theorem closed_visitsFirst (first others : VisitMode) : (nodes : List Node) → ∀ scopes,
    Closed resolver (resolver.visitsFirst first others nodes scopes)
  | [], _ => .nil
  | head :: rest, scopes => by
    rw [visitsFirst]
    exact (closed_visits first head scopes).append (closed_visitsAll others rest _)

/-- The same for a node that may be left out. -/
theorem closed_visitsOption (mode : VisitMode) : (node : Option Node) → ∀ scopes,
    Closed resolver (resolver.visitsOption mode node scopes)
  | none, _ => .nil
  | some node, scopes => by
    rw [visitsOption]
    exact closed_visits mode node scopes

/-- The visits of the types of parameters are closed. -/
theorem closed_visitsParams (previous : Option Span) : (params : List Param) → ∀ scopes,
    Closed resolver (resolver.visitsParams previous params scopes)
  | [], _ => .nil
  | ⟨_, _, typeSpan, typeNode⟩ :: rest, scopes => by
    rw [visitsParams]
    split
    · exact closed_visitsParams (some typeSpan) rest scopes
    · exact (closed_visits .type typeNode scopes).append
        (closed_visitsParams (some typeSpan) rest _)

end

end Closed

end Resolver

end GoRefactor
