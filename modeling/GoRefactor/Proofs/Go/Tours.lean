import GoRefactor.Proofs.Go.Stored
import GoRefactor.Proofs.NameMap

/-!
# Walks over what is stored

A walk asks its visitor about each span that is stored, once and in order, and about nothing else,
whatever the visitor does besides. What comes out is the value with the answers in their places. So
the walk over it asks about the answers, and puts the next ones into the same places. This is said
here once for all monads; what a walk makes in one of them follows from it.
-/

namespace GoRefactor

/-- Ask about a span, or about a name and then about its span. -/
def SpanVisitor.answer {m : Type → Type} [Monad m] (visitor : SpanVisitor m) : Offer → m Offer
  | .span span => Offer.span <$> visitor.span span
  | .name name span => (fun both => Offer.name both.1 both.2) <$> visitor.named name span

/-- Answers are of the kind that is asked about, so what follows need not care about others. -/
theorem SpanVisitor.bind_congr_answers {m : Type → Type} [Monad m] [LawfulMonad m]
    (visitor : SpanVisitor m) {α : Type} {next next' : List Offer → m α} (stored : List Offer)
    (same : ∀ answers, answers.map Offer.isName = stored.map Offer.isName →
      next answers = next' answers) :
    stored.mapM visitor.answer >>= next = stored.mapM visitor.answer >>= next' := by
  induction stored generalizing next next' with
  | nil => simpa using same [] rfl
  | cons head rest ih =>
    have later (first : Offer) (kind : first.isName = head.isName) :
        (rest.mapM visitor.answer >>= fun answers => next (first :: answers)) =
          rest.mapM visitor.answer >>= fun answers => next' (first :: answers) :=
      ih fun answers kinds => same (first :: answers) (by simp [kind, kinds])
    simp only [List.mapM_cons, bind_assoc, pure_bind]
    cases head with
    | span span =>
      simp only [answer, bind_map_left]
      exact bind_congr fun place => later (.span place) rfl
    | name name span =>
      simp only [answer, bind_map_left]
      exact bind_congr fun both => later (.name both.1 both.2) rfl

/-- What a visitor is led through. -/
abbrev SpanWalk (α : Type) : Type 1 := (m : Type → Type) → [Monad m] → SpanVisitor m → m α

/-- The walk exchanges what stands in the places of the value: whatever else of the same kinds
stands there, it asks about that, in order and once each, and puts the answers in its place. What
stands there and the value with it are `good`. -/
def Exchanges {α : Type} (walk : α → SpanWalk α) (good : List Offer → α → Prop) (given : α) :
    Prop :=
  ∃ (places : List Offer) (put : List Offer → α), put places = given ∧
    ∀ answers, answers.map Offer.isName = places.map Offer.isName →
      (∀ (m : Type → Type) [Monad m] [LawfulMonad m] (visitor : SpanVisitor m),
        walk (put answers) m visitor = put <$> answers.mapM visitor.answer) ∧
      good answers (put answers)

/-- The value has names and places together if the given one has, and then it stores the answers. -/
def Stores {α : Type} (paired : α → Prop) (stored : α → List Offer) (given : α)
    (answers : List Offer) (value : α) : Prop :=
  (paired value ↔ paired given) ∧ (paired value → stored value = answers)

/-- The walk exchanges what the value stores. -/
abbrev Tours {α : Type} (walk : α → SpanWalk α) (paired : α → Prop) (stored : α → List Offer)
    (given : α) : Prop :=
  Exchanges walk (Stores paired stored given) given

namespace Exchanges

variable {α β : Type} {walk : α → SpanWalk α} {good : List Offer → α → Prop} {given : α}

/-- Where there are no places, nothing is asked. -/
theorem pure (walks : ∀ (m : Type → Type) [Monad m] (visitor : SpanVisitor m),
      walk given m visitor = Pure.pure given) (holds : good [] given) :
    Exchanges walk good given := by
  refine ⟨[], fun _ => given, rfl, fun answers fit => ?_⟩
  obtain rfl := List.map_eq_nil_iff.mp fit
  refine ⟨fun m _ _ visitor => ?_, holds⟩
  rw [walks, List.mapM_nil, map_pure]

/-- What is made from a value has the places of the value. -/
theorem map {walk' : β → SpanWalk β} {good' : List Offer → β → Prop}
    (exchanges : Exchanges walk good given) (make : α → β)
    (walks : ∀ answers value, good answers value → ∀ (m : Type → Type) [Monad m] [LawfulMonad m]
      (visitor : SpanVisitor m), walk' (make value) m visitor = make <$> walk value m visitor)
    (kept : ∀ answers value, good answers value → good' answers (make value)) :
    Exchanges walk' good' (make given) := by
  obtain ⟨places, put, rfl, fills⟩ := exchanges
  refine ⟨places, make ∘ put, rfl, fun answers fit => ?_⟩
  obtain ⟨asks, holds⟩ := fills answers fit
  refine ⟨fun m _ _ visitor => ?_, kept _ _ holds⟩
  rw [Function.comp_apply, walks _ _ holds, asks, Functor.map_map]
  rfl

/-- Of two values in a row, the places of the first come first. -/
theorem both {walk' : β → SpanWalk β} {good' : List Offer → β → Prop} {given' : β}
    {together : List Offer → α × β → Prop} (first : Exchanges walk good given)
    (second : Exchanges walk' good' given')
    (kept : ∀ answers answers' value value', good answers value → good' answers' value' →
      together (answers ++ answers') (value, value')) :
    Exchanges (fun pair m _ visitor => do
      return (← walk pair.1 m visitor, ← walk' pair.2 m visitor)) together (given, given') := by
  obtain ⟨places, put, rfl, fills⟩ := first
  obtain ⟨places', put', rfl, fills'⟩ := second
  let putBoth (answers : List Offer) : α × β :=
    (put (answers.take places.length), put' (answers.drop places.length))
  have split (answers answers' : List Offer) (long : answers.length = places.length) :
      putBoth (answers ++ answers') = (put answers, put' answers') := by
    simp only [putBoth, List.take_left' long, List.drop_left' long]
  refine ⟨places ++ places', putBoth, split _ _ rfl, fun answers fit => ?_⟩
  rw [List.map_append] at fit
  obtain ⟨front, back, rfl, fitFront, fitBack⟩ := List.map_eq_append_iff.mp fit
  have long : front.length = places.length := by simpa using congrArg List.length fitFront
  obtain ⟨asks, holds⟩ := fills front fitFront
  obtain ⟨asks', holds'⟩ := fills' back fitBack
  rw [split front back long]
  refine ⟨fun m _ _ visitor => ?_, kept _ _ _ _ holds holds'⟩
  simp only [asks, asks', List.mapM_append, map_bind, bind_map_left, map_pure]
  refine visitor.bind_congr_answers front fun images kinds => bind_congr fun images' => ?_
  have same : images.length = places.length := by
    rw [← long]
    simpa using congrArg List.length kinds
  rw [split images images' same]

end Exchanges

namespace Tours

variable {α β : Type} {walk : α → SpanWalk α} {paired : α → Prop} {stored : α → List Offer}

/-- A value that is made from another one stores what that one stores. -/
theorem build {given : α} {result : β} {walk' : β → SpanWalk β} {paired' : β → Prop}
    {stored' : β → List Offer} (tours : Tours walk paired stored given) (make : α → β)
    (made : make given = result)
    (walks : ∀ value (m : Type → Type) [Monad m] [LawfulMonad m] (visitor : SpanVisitor m),
      walk' (make value) m visitor = make <$> walk value m visitor)
    (stores : ∀ value, stored' (make value) = stored value)
    (pairs : ∀ value, paired' (make value) ↔ paired value) :
    Tours walk' paired' stored' result := by
  subst made
  refine tours.map make (fun _ value _ => walks value) ?_
  rintro answers value ⟨alike, kept⟩
  exact ⟨(pairs value).trans (alike.trans (pairs given).symm), fun holds =>
    (stores value).trans (kept ((pairs value).mp holds))⟩

/-- Of two values in a row, the second stores behind the first. -/
theorem pair {given : α} {given' : β} {walk' : β → SpanWalk β} {paired' : β → Prop}
    {stored' : β → List Offer} (first : Tours walk paired stored given)
    (second : Tours walk' paired' stored' given') :
    Tours (fun pair m _ visitor => do return (← walk pair.1 m visitor, ← walk' pair.2 m visitor))
      (fun pair => paired pair.1 ∧ paired' pair.2) (fun pair => stored pair.1 ++ stored' pair.2)
      (given, given') := by
  refine first.both second ?_
  rintro answers answers' value value' ⟨alike, kept⟩ ⟨alike', kept'⟩
  exact ⟨and_congr alike alike', fun ⟨holds, holds'⟩ =>
    congrArg₂ (· ++ ·) (kept holds) (kept' holds')⟩

/-- A list is walked over member by member, and keeps its length. -/
theorem mapM {values : List α} (each : ∀ value ∈ values, Tours walk paired stored value) :
    Exchanges (fun values m _ visitor => values.mapM fun value => walk value m visitor)
      (fun answers images => images.length = values.length ∧
        Stores (fun values => ∀ value ∈ values, paired value) (List.flatMap stored) values answers
          images) values := by
  induction values with
  | nil => exact .pure (fun m _ visitor => List.mapM_nil) ⟨rfl, Iff.rfl, fun _ => rfl⟩
  | cons head rest ih =>
    obtain ⟨here, others⟩ := List.forall_mem_cons.mp each
    have row : Exchanges (fun (both : α × List α) m _ visitor => do
        return (← walk both.1 m visitor, ← both.2.mapM fun value => walk value m visitor))
        (fun answers both => both.2.length = rest.length ∧
          Stores (fun both => paired both.1 ∧ ∀ value ∈ both.2, paired value)
            (fun both => stored both.1 ++ both.2.flatMap stored) (head, rest) answers both)
        (head, rest) := by
      refine here.both (ih others) ?_
      rintro answers answers' value images ⟨alike, kept⟩ ⟨long, alike', kept'⟩
      exact ⟨long, and_congr alike alike', fun ⟨holds, holds'⟩ =>
        congrArg₂ (· ++ ·) (kept holds) (kept' holds')⟩
    refine row.map (fun both => both.1 :: both.2) ?_ ?_
    · intro answers both _ m _ _ visitor
      simp only [List.mapM_cons, map_bind, map_pure]
    · rintro answers ⟨value, images⟩ ⟨long, alike, kept⟩
      exact ⟨congrArg (· + 1) long, List.forall_mem_cons.trans (alike.trans
        List.forall_mem_cons.symm), fun holds => kept (List.forall_mem_cons.mp holds)⟩

/-- A list is toured member by member. -/
theorem list {values : List α} (each : ∀ value ∈ values, Tours walk paired stored value) :
    Tours (fun values m _ visitor => values.mapM fun value => walk value m visitor)
      (fun values => ∀ value ∈ values, paired value) (List.flatMap stored) values :=
  (mapM each).map id (fun _ _ _ _ _ _ _ => (id_map _).symm) fun _ _ holds => holds.2

/-- A value that may be left out is toured if it is there. -/
theorem option (given : Option α) (each : ∀ value ∈ given, Tours walk paired stored value) :
    Tours (fun given m _ visitor => SpanVisitor.option (fun value => walk value m visitor) given)
      (fun given => ∀ value ∈ given, paired value) (fun given => given.toList.flatMap stored)
      given := by
  cases given with
  | none => exact .pure (fun _ _ _ => rfl) ⟨Iff.rfl, fun _ => rfl⟩
  | some value =>
    exact (each value rfl).build some rfl (fun _ _ _ _ _ => rfl)
      (fun _ => List.flatMap_singleton ..) fun _ => by simp

/-- The values of a map are walked over by increasing name. -/
theorem nameMap (map : NameMap α) (each : ∀ value ∈ map.values, Tours walk paired stored value) :
    Tours (fun map m _ visitor => SpanVisitor.nameMap (fun value => walk value m visitor) map)
      (fun map => ∀ value ∈ map.values, paired value) (fun map => map.values.flatMap stored)
      map := by
  have tours : Exchanges (fun map m _ visitor =>
      SpanVisitor.nameMap (fun value => walk value m visitor) map)
      (Stores (fun map => ∀ value ∈ map.values, paired value)
        (fun map => map.values.flatMap stored) map) (map.withValues map.values) := by
    refine (mapM each).map map.withValues ?_ ?_
    · rintro answers images ⟨long, -⟩ m _ _ visitor
      have again (values : List α) : (map.withValues images).withValues values =
          map.withValues values := by
        rw [NameMap.withValues, NameMap.keys_withValues long.symm, NameMap.withValues]
      simp only [SpanVisitor.nameMap, NameMap.values_withValues long.symm, again, bind_pure_comp]
    · rintro answers images ⟨long, alike, kept⟩
      rw [Stores, NameMap.values_withValues long.symm]
      exact ⟨alike, kept⟩
  rwa [NameMap.withValues_values] at tours

/-- What comes out has names and places together if the given value has. -/
theorem paired_iff {given : α} (tours : Tours walk paired stored given) (visitor : SpanVisitor Id) :
    paired (walk given Id visitor) ↔ paired given := by
  obtain ⟨places, put, rfl, fills⟩ := tours
  have kinds : (places.mapM visitor.answer).run.map Offer.isName = places.map Offer.isName := by
    rw [List.idRun_mapM, List.map_map]
    exact List.map_congr_left fun offer _ => by cases offer <;> rfl
  rw [(fills places rfl).1]
  exact (fills _ kinds).2.1

/-- Where names and places go together, what is stored is asked about and the answers are stored. -/
theorem rebuild {given : α} (tours : Tours walk paired stored given) (holds : paired given) :
    ∃ put : List Offer → α,
      (∀ (m : Type → Type) [Monad m] [LawfulMonad m] (visitor : SpanVisitor m),
        walk given m visitor = put <$> (stored given).mapM visitor.answer) ∧
      ∀ answers : List Offer, answers.map Offer.isName = (stored given).map Offer.isName →
        stored (put answers) = answers := by
  obtain ⟨places, put, rfl, fills⟩ := tours
  obtain ⟨asks, -, kept⟩ := fills places rfl
  rw [kept holds]
  refine ⟨put, fun m _ _ visitor => asks m visitor, fun answers fit => ?_⟩
  obtain ⟨-, alike, stores⟩ := fills answers fit
  exact stores (alike.mpr holds)

end Tours

namespace SpanVisitor

/-- A span is asked about. -/
theorem tours_span (given : Span) :
    Tours (fun span _ _ visitor => visitor.span span) (fun _ => True) (fun span => [.span span])
      given := by
  refine ⟨[.span given], fun answers => (answers.head?.map Offer.place).getD given, rfl,
    fun answers fit => ?_⟩
  obtain ⟨answer, rfl, kind⟩ := List.map_eq_singleton_iff.mp fit
  cases answer with
  | span span =>
    exact ⟨fun m _ _ visitor => by simp [SpanVisitor.answer, Offer.place], Iff.rfl, fun _ => rfl⟩
  | name => cases kind

/-- A name is asked about together with its span. -/
theorem tours_named (name : String) (span : Span) :
    Tours (fun both _ _ visitor => visitor.named both.1 both.2) (fun _ => True)
      (fun both => [.name both.1 both.2]) (name, span) := by
  refine ⟨[.name name span], fun answers => (answers.head?.bind Offer.named?).getD (name, span),
    rfl, fun answers fit => ?_⟩
  obtain ⟨answer, rfl, kind⟩ := List.map_eq_singleton_iff.mp fit
  cases answer with
  | span => cases kind
  | name =>
    exact ⟨fun m _ _ visitor => by simp [SpanVisitor.answer, Offer.named?], Iff.rfl, fun _ => rfl⟩

/-- A local name is asked about together with its span. -/
theorem tours_binding (given : Binding) :
    Tours (fun given _ _ visitor => visitor.binding given) (fun _ => True)
      (fun binding => [.name binding.name binding.span]) given :=
  (tours_named given.name given.span).build (fun both => ⟨both.1, both.2⟩) rfl
    (fun _ _ _ _ _ => bind_pure_comp _ _) (fun _ => rfl) fun _ => Iff.rfl

/-- A name and its span are asked about if both are there. -/
theorem tours_optionalName : ∀ (name : Option String) (span : Option Span),
    Tours (fun both _ _ visitor => visitor.optionalName both.1 both.2)
      (fun both => both.1.isSome = both.2.isSome) (fun both => Offer.ofOptional both.1 both.2)
      (name, span)
  | some name, some span => (tours_named name span).build
    (fun both => (some both.1, some both.2)) rfl
    (fun _ _ _ _ _ => bind_pure_comp _ _) (fun _ => rfl) fun _ => by simp
  | none, none | some _, none => .pure (fun _ _ _ => rfl) ⟨Iff.rfl, fun _ => rfl⟩
  | none, some _ => .pure (fun _ _ _ => rfl) ⟨Iff.rfl, fun paired => nomatch paired⟩

mutual

/-- The places of a tree are those that it stores. -/
theorem tours_node : ∀ given : Node,
    Tours (fun given _ _ visitor => visitor.node given) (·.pairs = true) Node.stored given
  | .ident name span => (tours_named name span).build
    (fun both => .ident both.1 both.2) rfl
    (fun _ _ _ _ _ => by simp only [node]; exact bind_pure_comp _ _) (fun _ => rfl)
    fun _ => by simp [Node.pairs]
  | .selector base name span => ((tours_node base).pair (tours_named name span)).build
    (fun parts => .selector parts.1 parts.2.1 parts.2.2) rfl
    (fun _ _ _ _ _ => by simp only [node, map_bind, map_pure]) (fun _ => rfl)
    fun _ => by simp [Node.pairs]
  | .call func args => ((tours_node func).pair (tours_nodes args)).build
    (fun parts => .call parts.1 parts.2) rfl
    (fun _ _ _ _ _ => by simp only [node, map_bind, map_pure]) (fun _ => rfl)
    fun _ => by simp [Node.pairs]
  | .composite type elems => ((tours_optionalNode type).pair (tours_nodes elems)).build
    (fun parts => .composite parts.1 parts.2) rfl
    (fun _ _ _ _ _ => by simp only [node, map_bind, map_pure]) (fun _ => rfl)
    fun _ => by simp [Node.pairs]
  | .keyValue key value => ((tours_node key).pair (tours_node value)).build
    (fun parts => .keyValue parts.1 parts.2) rfl
    (fun _ _ _ _ _ => by simp only [node, map_bind, map_pure]) (fun _ => rfl)
    fun _ => by simp [Node.pairs]
  | .unary op operand => (tours_node operand).build
    (fun operand => .unary op operand) rfl
    (fun _ _ _ _ _ => by simp only [node]; exact bind_pure_comp _ _) (fun _ => rfl)
    fun _ => by simp [Node.pairs]
  | .binary left right => ((tours_node left).pair (tours_node right)).build
    (fun parts => .binary parts.1 parts.2) rfl
    (fun _ _ _ _ _ => by simp only [node, map_bind, map_pure]) (fun _ => rfl)
    fun _ => by simp [Node.pairs]
  | .index base indices => ((tours_node base).pair (tours_nodes indices)).build
    (fun parts => .index parts.1 parts.2) rfl
    (fun _ _ _ _ _ => by simp only [node, map_bind, map_pure]) (fun _ => rfl)
    fun _ => by simp [Node.pairs]
  | .typeAssert base type => ((tours_node base).pair (tours_optionalNode type)).build
    (fun parts => .typeAssert parts.1 parts.2) rfl
    (fun _ _ _ _ _ => by simp only [node, map_bind, map_pure]) (fun _ => rfl)
    fun _ => by simp [Node.pairs]
  | .typeExpr form parts => (tours_nodes parts).build
    (fun parts => .typeExpr form parts) rfl
    (fun _ _ _ _ _ => by simp only [node]; exact bind_pure_comp _ _) (fun _ => rfl)
    fun _ => by simp [Node.pairs]
  | .literal span => (tours_span span).build
    (fun span => .literal span) rfl
    (fun _ _ _ _ _ => by simp only [node]; exact bind_pure_comp _ _) (fun _ => rfl)
    fun _ => by simp [Node.pairs]
  | .funcLit params results body =>
    ((tours_params params).pair ((tours_params results).pair (tours_node body))).build
    (fun parts => .funcLit parts.1 parts.2.1 parts.2.2) rfl
    (fun _ _ _ _ _ => by simp only [node, map_bind, map_pure, bind_assoc, pure_bind])
    (fun _ => rfl)
    fun _ => by simp [Node.pairs, and_assoc]
  | .block span stmts => ((tours_span span).pair (tours_nodes stmts)).build
    (fun parts => .block parts.1 parts.2) rfl
    (fun _ _ _ _ _ => by simp only [node, map_bind, map_pure]) (fun _ => rfl)
    fun _ => by simp [Node.pairs]
  | .define names type values => ((Tours.list fun given _ => tours_binding given).pair
      ((tours_optionalNode type).pair (tours_nodes values))).build
    (fun parts => .define parts.1 parts.2.1 parts.2.2) rfl
    (fun _ _ _ _ _ => by simp only [node, map_bind, map_pure, bind_assoc, pure_bind])
    (fun _ => rfl)
    fun _ => by simp [Node.pairs]
  | .assign targets values => ((tours_nodes targets).pair (tours_nodes values)).build
    (fun parts => .assign parts.1 parts.2) rfl
    (fun _ _ _ _ _ => by simp only [node, map_bind, map_pure]) (fun _ => rfl)
    fun _ => by simp [Node.pairs]
  | .branch header body alt =>
    ((tours_nodes header).pair ((tours_node body).pair (tours_optionalNode alt))).build
    (fun parts => .branch parts.1 parts.2.1 parts.2.2) rfl
    (fun _ _ _ _ _ => by simp only [node, map_bind, map_pure, bind_assoc, pure_bind])
    (fun _ => rfl)
    fun _ => by simp [Node.pairs, and_assoc]
  | .list items => (tours_nodes items).build
    (fun items => .list items) rfl
    (fun _ _ _ _ _ => by simp only [node]; exact bind_pure_comp _ _) (fun _ => rfl)
    fun _ => by simp [Node.pairs]

/-- A walk over trees in order tours each of them. -/
theorem tours_nodes : ∀ given : List Node,
    Tours (fun given _ _ visitor => visitor.nodes given) (Node.pairsAll · = true) Node.storedAll
      given
  | [] => .pure (fun _ _ _ => by simp only [nodes]) ⟨Iff.rfl, fun _ => rfl⟩
  | head :: rest => ((tours_node head).pair (tours_nodes rest)).build
    (fun parts => parts.1 :: parts.2) rfl
    (fun _ _ _ _ _ => by simp only [nodes, map_bind, map_pure]) (fun _ => rfl)
    fun _ => by simp [Node.pairsAll]

/-- The same for a tree that may be left out. -/
theorem tours_optionalNode : ∀ given : Option Node,
    Tours (fun given _ _ visitor => visitor.optionalNode given) (Node.pairsOption · = true)
      Node.storedOption given
  | none => .pure (fun _ _ _ => by simp only [optionalNode]) ⟨Iff.rfl, fun _ => rfl⟩
  | some inner => (tours_node inner).build
    (fun inner => some inner) rfl
    (fun _ _ _ _ _ => by simp only [optionalNode]; exact bind_pure_comp _ _) (fun _ => rfl)
    fun _ => by simp [Node.pairsOption]

/-- The same for a parameter, its own name included. -/
theorem tours_param : ∀ given : Param,
    Tours (fun given _ _ visitor => visitor.param given)
      (fun given => given.name.isSome = given.nameSpan.isSome ∧ given.typeNode.pairs = true)
      Node.storedParam given
  | ⟨name, nameSpan, typeSpan, typeNode⟩ =>
    ((tours_optionalName name nameSpan).pair ((tours_span typeSpan).pair
      (tours_node typeNode))).build
    (fun parts => ⟨parts.1.1, parts.1.2, parts.2.1, parts.2.2⟩) rfl
    (fun _ _ _ _ _ => by simp only [param, map_bind, map_pure, bind_assoc, pure_bind])
    (fun _ => rfl) fun _ => by simp

/-- A walk over parameters in order tours each of them. -/
theorem tours_params : ∀ given : List Param,
    Tours (fun given _ _ visitor => visitor.params given) (Node.pairsParams · = true)
      Node.storedParams given
  | [] => .pure (fun _ _ _ => by simp only [params]) ⟨Iff.rfl, fun _ => rfl⟩
  | head :: rest => ((tours_param head).pair (tours_params rest)).build
    (fun parts => parts.1 :: parts.2) rfl
    (fun _ _ _ _ _ => by simp only [params, map_bind, map_pure]) (fun _ => rfl)
    fun _ => by simp

end

/-- The places of an import are its path, and its alias if it has one. -/
theorem tours_importDecl (decl : Import) :
    Tours (fun decl _ _ visitor => visitor.importDecl decl) (·.pairs = true) Import.stored decl :=
  ((tours_span decl.pathSpan).pair (tours_optionalName decl.aliasName decl.aliasSpan)).build
    (fun parts => { decl with pathSpan := parts.1, aliasName := parts.2.1, aliasSpan := parts.2.2 })
    rfl (fun _ _ _ _ _ => by simp only [importDecl, map_bind, map_pure]) (fun _ => rfl)
    fun _ => by simp [Import.pairs]

/-- The places of a field are its name, its type and those in the type. -/
theorem tours_field (decl : Field) :
    Tours (fun decl _ _ visitor => visitor.field decl) (·.typeNode.pairs = true) Field.stored
      decl :=
  ((tours_named decl.name decl.nameSpan).pair ((tours_span decl.typeSpan).pair
    (tours_node decl.typeNode))).build
    (fun parts => { decl with
      name := parts.1.1, nameSpan := parts.1.2, typeSpan := parts.2.1, typeNode := parts.2.2 })
    rfl (fun _ _ _ _ _ => by simp only [field, map_bind, map_pure, bind_assoc, pure_bind])
    (fun _ => rfl) fun _ => by simp

/-- The places of a method of an interface are its name, its signature and those in there. -/
theorem tours_interfaceMethod (decl : InterfaceMethod) :
    Tours (fun decl _ _ visitor => visitor.interfaceMethod decl) (·.pairs = true)
      InterfaceMethod.stored decl :=
  ((tours_named decl.name decl.nameSpan).pair ((tours_span decl.signatureSpan).pair
    ((tours_params decl.params).pair (tours_params decl.results)))).build
    (fun parts => ⟨parts.1.1, parts.1.2, parts.2.1, parts.2.2.1, parts.2.2.2⟩)
    rfl (fun _ _ _ _ _ => by simp only [interfaceMethod, map_bind, map_pure, bind_assoc, pure_bind])
    (fun _ => rfl) fun _ => by simp [InterfaceMethod.pairs]

/-- The places of a type are those of its fields, of its methods and in what it is made of. -/
theorem tours_typeShape : ∀ shape : TypeShape,
    Tours (fun shape _ _ visitor => visitor.typeShape shape) (·.pairs = true) TypeShape.stored shape
  | .struct fields => (Tours.list fun field _ => tours_field field).build
    (fun fields => .struct fields) rfl
    (fun _ _ _ _ _ => by simp only [typeShape]; exact bind_pure_comp _ _) (fun _ => rfl)
    fun _ => by simp [TypeShape.pairs]
  | .interface methods embeds =>
    ((Tours.list fun method _ => tours_interfaceMethod method).pair (tours_nodes embeds)).build
    (fun parts => .interface parts.1 parts.2) rfl
    (fun _ _ _ _ _ => by simp only [typeShape, map_bind, map_pure]) (fun _ => rfl)
    fun _ => by simp [TypeShape.pairs]
  | .other underlying => (tours_node underlying).build (fun underlying => .other underlying) rfl
    (fun _ _ _ _ _ => by simp only [typeShape]; exact bind_pure_comp _ _) (fun _ => rfl)
    fun _ => by simp [TypeShape.pairs]

/-- The places of a declared type are its name, its extent and those of its shape. -/
theorem tours_typeDecl (decl : TypeDecl) :
    Tours (fun decl _ _ visitor => visitor.typeDecl decl) (·.shape.pairs = true) TypeDecl.stored
      decl :=
  ((tours_named decl.name decl.nameSpan).pair ((tours_span decl.extent).pair
    (tours_typeShape decl.shape))).build
    (fun parts => { decl with
      name := parts.1.1, nameSpan := parts.1.2, extent := parts.2.1, shape := parts.2.2 })
    rfl (fun _ _ _ _ _ => by simp only [typeDecl, map_bind, map_pure, bind_assoc, pure_bind])
    (fun _ => rfl) fun _ => by simp

/-- The places of a function are its name, its extent, its signature and those in its parts. -/
theorem tours_funcDecl (decl : FuncDecl) :
    Tours (fun decl _ _ visitor => visitor.funcDecl decl) (·.pairs = true) FuncDecl.stored decl :=
  ((tours_named decl.name decl.nameSpan).pair ((tours_span decl.extent).pair
    ((Tours.option decl.receiver fun param _ => tours_param param).pair
      ((tours_params decl.params).pair ((tours_params decl.results).pair
        ((tours_span decl.signatureSpan).pair (tours_optionalNode decl.body))))))).build
    (fun parts => { decl with
      name := parts.1.1
      nameSpan := parts.1.2
      extent := parts.2.1
      receiver := parts.2.2.1
      params := parts.2.2.2.1
      results := parts.2.2.2.2.1
      signatureSpan := parts.2.2.2.2.2.1
      body := parts.2.2.2.2.2.2 })
    rfl (fun _ _ _ _ _ => by simp only [funcDecl, map_bind, map_pure, bind_assoc, pure_bind])
    (fun _ => rfl) fun _ => by simp [FuncDecl.pairs, and_assoc]

/-- The places of a variable or constant are its name, its extent and those of its type and of its
value. -/
theorem tours_valueDecl (decl : ValueDecl) :
    Tours (fun decl _ _ visitor => visitor.valueDecl decl) (·.pairs = true) ValueDecl.stored decl :=
  ((tours_named decl.name decl.nameSpan).pair ((tours_span decl.extent).pair
    ((Tours.option decl.typeSpan fun span _ => tours_span span).pair
      ((tours_optionalNode decl.typeNode).pair (tours_optionalNode decl.value))))).build
    (fun parts => { decl with
      name := parts.1.1
      nameSpan := parts.1.2
      extent := parts.2.1
      typeSpan := parts.2.2.1
      typeNode := parts.2.2.2.1
      value := parts.2.2.2.2 })
    rfl (fun _ _ _ _ _ => by simp only [valueDecl, map_bind, map_pure, bind_assoc, pure_bind])
    (fun _ => rfl) fun _ => by simp [ValueDecl.pairs]

/-- **The places of a file are those that it stores**, from its package clause to its blank
declarations. -/
theorem tours_file (file : SourceFile) :
    Tours (fun file _ _ visitor => visitor.file file) SourceFile.Paired SourceFile.stored file :=
  ((tours_named file.packageName file.packageSpan).pair
    ((Tours.list fun decl _ => tours_importDecl decl).pair
    ((Tours.nameMap file.types fun decl _ => tours_typeDecl decl).pair
    ((Tours.nameMap file.functions fun decl _ => tours_funcDecl decl).pair
    ((Tours.list fun decl _ => tours_funcDecl decl).pair
    ((Tours.nameMap file.vars fun decl _ => tours_valueDecl decl).pair
    ((Tours.nameMap file.consts fun decl _ => tours_valueDecl decl).pair
    (Tours.list fun decl _ => tours_valueDecl decl)))))))).build
    (fun parts => { file with
      packageName := parts.1.1
      packageSpan := parts.1.2
      imports := parts.2.1
      types := parts.2.2.1
      functions := parts.2.2.2.1
      methods := parts.2.2.2.2.1
      vars := parts.2.2.2.2.2.1
      consts := parts.2.2.2.2.2.2.1
      blanks := parts.2.2.2.2.2.2.2 })
    rfl (fun _ _ _ _ _ => by
      simp only [SpanVisitor.file, map_bind, map_pure, bind_assoc, pure_bind])
    (fun _ => rfl) fun _ => by
      simp only [SourceFile.paired_iff, List.forall_mem_append, true_and, and_assoc]

end SpanVisitor

/-- **A walk that always has an answer keeps names and places together.** -/
theorem SourceFile.Paired.walk {file : SourceFile} (paired : file.Paired)
    (visitor : SpanVisitor Id) : SourceFile.Paired (visitor.file file) :=
  ((SpanVisitor.tours_file file).paired_iff visitor).mpr paired

end GoRefactor
