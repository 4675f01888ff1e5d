import GoRefactor.Go.Parser.File
import GoRefactor.Proofs.Go.Passes

/-!
# Trees between two offsets

What is read behind each other has no names in common: the names of each part lie between the
offset where reading it started and the one where it stopped. A tree lies between two offsets when
it is tidy and its names do; a neat one also leaves the names bound around it as they are. Here is
how larger trees lie, given how their parts do.
-/

namespace GoRefactor

/-- The spans lie between two offsets, and none is empty. -/
def Within (low high : Nat) (spans : List Span) : Prop :=
  ∀ span ∈ spans, low ≤ span.start ∧ span.start < span.stop ∧ span.stop ≤ high

namespace Within

variable {low middle high : Nat} {spans spans' : List Span}

theorem nil (low high : Nat) : Within low high [] := fun _ member => nomatch member

/-- The offsets may be further apart. -/
theorem mono {low' high' : Nat} (within : Within low high spans) (below : low' ≤ low)
    (above : high ≤ high') : Within low' high' spans := by
  intro span member
  obtain ⟨first, proper, last⟩ := within span member
  exact ⟨Nat.le_trans below first, proper, Nat.le_trans last above⟩

/-- There may be fewer spans. -/
theorem subset (within : Within low high spans) (fewer : spans' ⊆ spans) :
    Within low high spans' :=
  fun span member => within span (fewer member)

/-- Spans behind each other lie between the outer offsets. -/
theorem append (first : Within low middle spans) (second : Within middle high spans')
    (lower : low ≤ middle) (upper : middle ≤ high) : Within low high (spans ++ spans') := by
  intro span member
  rcases List.mem_append.mp member with here | there
  · exact first.mono (Nat.le_refl low) upper span here
  · exact second.mono lower (Nat.le_refl high) span there

/-- Spans behind each other are different. -/
theorem disjoint (first : Within low middle spans) (second : Within middle high spans') :
    spans.Disjoint spans' := by
  intro span here there
  have before := first span here
  have behind := second span there
  omega

/-- Where there is a span there is room. -/
theorem le {span : Span} (within : Within low high [span]) : low ≤ high := by
  have inside := within span List.mem_cons_self
  omega

end Within

namespace Node

/-- The node is tidy, and its names lie between two offsets. -/
structure Lies (low high : Nat) (node : Node) : Prop where
  order : low ≤ high
  tidy : node.Tidy
  within : Within low high node.passes

/-- The node lies between two offsets and leaves the names bound around it as they are. -/
structure Neat (low high : Nat) (node : Node) : Prop extends node.Lies low high where
  plain : node.plain = true

/-- Nodes in order lie between two offsets. -/
abbrev LieAll (low high : Nat) (nodes : List Node) : Prop := Lies low high (.list nodes)

/-- Nodes in order lie neatly between two offsets. -/
abbrev NeatAll (low high : Nat) (nodes : List Node) : Prop := Neat low high (.list nodes)

variable {low middle high : Nat} {node base left right : Node} {nodes others : List Node}

namespace Lies

/-- The offsets may be further apart. -/
theorem mono {low' high' : Nat} (lies : node.Lies low high) (below : low' ≤ low)
    (above : high ≤ high') : node.Lies low' high' :=
  ⟨Nat.le_trans below (Nat.le_trans lies.order above), lies.tidy, lies.within.mono below above⟩

/-- No nodes lie between any two offsets. -/
theorem nil (order : low ≤ high) : LieAll low high [] := ⟨order, trivial, .nil _ _⟩

/-- A node and the nodes behind it lie between the outer offsets. -/
theorem cons (head : node.Lies low middle) (rest : LieAll middle high nodes) :
    LieAll low high (node :: nodes) :=
  ⟨Nat.le_trans head.order rest.order, ⟨head.tidy, rest.tidy, head.within.disjoint rest.within⟩,
    head.within.append rest.within head.order rest.order⟩

/-- A list of one node lies where the node does. -/
theorem single (lies : node.Lies low high) : LieAll low high [node] :=
  cons lies (nil (Nat.le_refl high))

/-- Nodes behind nodes lie between the outer offsets. -/
theorem append (first : LieAll low middle nodes) (second : LieAll middle high others) :
    LieAll low high (nodes ++ others) := by
  induction nodes generalizing low with
  | nil => exact second.mono first.order (Nat.le_refl high)
  | cons head rest ih =>
    obtain ⟨order, ⟨tidy, tidyRest, apart⟩, within⟩ := first
    have later : LieAll low high (rest ++ others) :=
      ih ⟨order, tidyRest, within.subset (List.subset_append_right _ _)⟩
    refine ⟨later.order, ⟨tidy, later.tidy, ?_⟩, ?_⟩
    · change head.passes.Disjoint (passesAll (rest ++ others))
      rw [passesAll_append, List.disjoint_append_right]
      exact ⟨apart, (within.subset (List.subset_append_left _ _)).disjoint second.within⟩
    · intro span member
      rcases List.mem_append.mp member with here | there
      · exact within.mono (Nat.le_refl low) second.order span (List.mem_append_left _ here)
      · exact later.within span there

/-- A node that may be left out is tidy and has its names where the list of it has them. -/
theorem option {type : Option Node} (lies : LieAll low high type.toList) :
    low ≤ high ∧ TidyOption type ∧ Within low high (passesOption type) :=
  ⟨lies.order, tidyOption_iff.mpr lies.tidy, by rw [passesOption_eq]; exact lies.within⟩

/-- A local declaration lies where its type and behind it its values lie. -/
theorem define {names : List Binding} {type : Option Node} (first : LieAll low middle type.toList)
    (second : LieAll middle high nodes) : (Node.define names type nodes).Lies low high := by
  obtain ⟨order, tidy, within⟩ := first.option
  exact ⟨Nat.le_trans order second.order, ⟨tidy, second.tidy, within.disjoint second.within⟩,
    within.append second.within order second.order⟩

/-- An assignment lies where its targets and behind them its values lie. -/
theorem assign (first : LieAll low middle nodes) (second : LieAll middle high others) :
    (Node.assign nodes others).Lies low high :=
  ⟨Nat.le_trans first.order second.order,
    ⟨first.tidy, second.tidy, first.within.disjoint second.within⟩,
    first.within.append second.within first.order second.order⟩

/-- A statement lies where its header, its body and its alternative lie behind each other. -/
theorem branch {place : Nat} {body : Node} {alt : Option Node} (first : LieAll low middle nodes)
    (second : body.Lies middle place) (third : LieAll place high alt.toList) :
    (Node.branch nodes body alt).Lies low high := by
  obtain ⟨order, tidy, within⟩ := third.option
  have inner := second.within.append within second.order order
  exact ⟨Nat.le_trans first.order (Nat.le_trans second.order order),
    ⟨first.tidy, second.tidy, tidy, first.within.disjoint inner, second.within.disjoint within⟩,
    first.within.append inner first.order (Nat.le_trans second.order order)⟩

/-- A single definition lies where the list of it does. -/
theorem ofDefinitions (lies : LieAll low high nodes) :
    (Node.ofDefinitions nodes).Lies low high := by
  unfold Node.ofDefinitions
  split
  · rename_i node
    exact ⟨lies.order, lies.tidy.1, lies.within.subset (List.subset_append_left _ _)⟩
  · exact lies

end Lies

namespace Neat

/-- The offsets may be further apart. -/
theorem mono {low' high' : Nat} (neat : node.Neat low high) (below : low' ≤ low)
    (above : high ≤ high') : node.Neat low' high' := ⟨neat.toLies.mono below above, neat.plain⟩

/-- Reading may go on behind the node. -/
theorem upTo (neat : node.Neat low middle) (above : middle ≤ high) : node.Neat low high :=
  neat.mono (Nat.le_refl low) above

theorem ident {name : String} {span : Span} (within : Within low high [span]) :
    (Node.ident name span).Neat low high := ⟨⟨within.le, trivial, within⟩, rfl⟩

theorem literal {span : Span} (order : low ≤ high) : (Node.literal span).Neat low high :=
  ⟨⟨order, trivial, .nil _ _⟩, rfl⟩

theorem selector {name : String} {span : Span} (neat : base.Neat low middle)
    (within : Within middle high [span]) : (Node.selector base name span).Neat low high :=
  ⟨⟨Nat.le_trans neat.order within.le, ⟨neat.tidy, neat.within.disjoint within⟩,
    neat.within.append within neat.order within.le⟩, neat.plain⟩

theorem nil (order : low ≤ high) : NeatAll low high [] := ⟨.nil order, rfl⟩

theorem cons (head : node.Neat low middle) (rest : NeatAll middle high nodes) :
    NeatAll low high (node :: nodes) :=
  ⟨.cons head.toLies rest.toLies, Bool.and_eq_true_iff.mpr ⟨head.plain, rest.plain⟩⟩

theorem single (neat : node.Neat low high) : NeatAll low high [node] :=
  cons neat (nil (Nat.le_refl high))

/-- If several nodes lie neatly, the first one does, the others do, and their names are apart. -/
theorem uncons (neat : NeatAll low high (node :: nodes)) :
    node.Neat low high ∧ NeatAll low high nodes ∧ node.passes.Disjoint (passesAll nodes) := by
  obtain ⟨⟨order, ⟨tidy, tidyRest, apart⟩, within⟩, plain⟩ := neat
  obtain ⟨plainHead, plainRest⟩ := Bool.and_eq_true_iff.mp plain
  exact ⟨⟨⟨order, tidy, within.subset (List.subset_append_left _ _)⟩, plainHead⟩,
    ⟨⟨order, tidyRest, within.subset (List.subset_append_right _ _)⟩, plainRest⟩, apart⟩

theorem unary {op : UnaryOp} (neat : node.Neat low high) : (Node.unary op node).Neat low high :=
  ⟨⟨neat.order, neat.tidy, neat.within⟩, neat.plain⟩

/-- A node that is put together from two parts in a row lies where they lie behind each other. -/
theorem pair {whole : Node} (first : left.Neat low middle) (second : right.Neat middle high)
    (tidy : left.Tidy → right.Tidy → left.passes.Disjoint right.passes → whole.Tidy)
    (passes : whole.passes = left.passes ++ right.passes)
    (plain : whole.plain = (left.plain && right.plain)) : whole.Neat low high := by
  refine ⟨⟨Nat.le_trans first.order second.order, ?_, ?_⟩, ?_⟩
  · exact tidy first.tidy second.tidy (first.within.disjoint second.within)
  · rw [passes]
    exact first.within.append second.within first.order second.order
  · rw [plain, first.plain, second.plain]
    rfl

theorem binary (first : left.Neat low middle) (second : right.Neat middle high) :
    (Node.binary left right).Neat low high :=
  pair first second (fun one other apart => ⟨one, other, apart⟩) rfl rfl

theorem keyValue (first : left.Neat low middle) (second : right.Neat middle high) :
    (Node.keyValue left right).Neat low high :=
  pair first second (fun one other apart => ⟨one, other, apart⟩) rfl rfl

theorem call (first : base.Neat low middle) (second : NeatAll middle high nodes) :
    (Node.call base nodes).Neat low high :=
  pair first second (fun one other apart => ⟨one, other, apart⟩) rfl rfl

theorem index (first : base.Neat low middle) (second : NeatAll middle high nodes) :
    (Node.index base nodes).Neat low high :=
  pair first second (fun one other apart => ⟨one, other, apart⟩) rfl rfl

theorem composite (first : base.Neat low middle) (second : NeatAll middle high nodes) :
    (Node.composite (some base) nodes).Neat low high :=
  pair first second (fun one other apart => ⟨one, other, apart⟩) rfl rfl

/-- A literal that leaves its type out lies where its elements do. -/
theorem bare (neat : NeatAll low high nodes) : (Node.composite none nodes).Neat low high :=
  ⟨⟨neat.order, ⟨trivial, neat.tidy, List.disjoint_nil_left _⟩, neat.within⟩, neat.plain⟩

theorem typeAssert (first : base.Neat low middle) (second : node.Neat middle high) :
    (Node.typeAssert base (some node)).Neat low high :=
  pair first second (fun one other apart => ⟨one, other, apart⟩) rfl rfl

/-- An assertion without a type lies where its base does. -/
theorem typeSwitch (neat : base.Neat low high) : (Node.typeAssert base none).Neat low high := by
  refine ⟨⟨neat.order, ⟨neat.tidy, trivial, List.disjoint_nil_right _⟩, ?_⟩, ?_⟩
  · rw [Node.passes, passesOption, List.append_nil]
    exact neat.within
  · rw [Node.plain, neat.plain]
    rfl

theorem array (neat : NeatAll low high nodes) : (Node.typeExpr .array nodes).Neat low high :=
  ⟨⟨neat.order, neat.tidy, neat.within⟩, neat.plain⟩

/-- A block restores what is bound around it. -/
theorem block {span : Span} (lies : LieAll low high nodes) :
    (Node.block span nodes).Neat low high :=
  ⟨⟨lies.order, lies.tidy, lies.within⟩, rfl⟩

end Neat

/-! ## Parts of types -/

/-- Two trees that are kin are so in either order. -/
theorem Kin.symm (kin : left.Kin right) : right.Kin left := by
  rcases kin with same | apart
  · exact Or.inl same.symm
  · exact Or.inr fun _ here there => apart there here

/-- Parts of a type lie between two offsets. -/
structure NeatParts (low high : Nat) (parts : List Node) : Prop where
  order : low ≤ high
  /-- Each part is neat. -/
  each : ∀ part ∈ parts, part.Neat low high
  /-- Parts with a name in common are the same. -/
  kin : parts.Pairwise Kin

namespace NeatParts

variable {parts parts' : List Node}

/-- Parts that are neat one by one and kin to one another are tidy together. -/
theorem tidy (neat : NeatParts low high parts) : TidyParts parts :=
  tidyParts_iff.mpr
    ⟨fun part member => ⟨(neat.each part member).tidy, (neat.each part member).plain⟩,
    neat.kin⟩

/-- The names of the parts lie between the offsets. -/
theorem within (neat : NeatParts low high parts) : Within low high (passesAll parts) := by
  intro span member
  rw [passesAll_eq_flatMap] at member
  obtain ⟨part, inside, here⟩ := List.mem_flatMap.mp member
  exact (neat.each part inside).within span here

/-- No parts lie between any two offsets. -/
theorem nil (order : low ≤ high) : NeatParts low high [] :=
  ⟨order, fun _ member => (nomatch member), .nil⟩

/-- One part, as often as it is shared, lies where the part does. -/
theorem shared (neat : node.Neat low high) (same : ∀ part ∈ parts, part = node) :
    NeatParts low high parts :=
  ⟨neat.order, fun part member => same part member ▸ neat,
    List.pairwise_of_forall_mem_list fun left here right there =>
      Or.inl ((same left here).trans (same right there).symm)⟩

/-- Parts behind parts lie between the outer offsets. -/
theorem append (first : NeatParts low middle parts) (second : NeatParts middle high parts') :
    NeatParts low high (parts ++ parts') := by
  refine ⟨Nat.le_trans first.order second.order, ?_, ?_⟩
  · intro part member
    rcases List.mem_append.mp member with here | there
    · exact (first.each part here).mono (Nat.le_refl low) second.order
    · exact (second.each part there).mono first.order (Nat.le_refl high)
  · rw [List.pairwise_append]
    exact ⟨first.kin, second.kin, fun left here right there =>
      Or.inr ((first.each left here).within.disjoint (second.each right there).within)⟩

/-- The order of the parts does not matter. -/
theorem perm (neat : NeatParts low high parts) (same : parts'.Perm parts) :
    NeatParts low high parts' :=
  ⟨neat.order, fun part member => neat.each part (same.mem_iff.mp member),
    (same.pairwise_iff Kin.symm).mpr neat.kin⟩

/-- Nodes in order are parts. -/
theorem ofAll (neat : NeatAll low high nodes) : NeatParts low high nodes := by
  induction nodes with
  | nil => exact nil neat.order
  | cons head rest ih =>
    obtain ⟨first, later, apart⟩ := neat.uncons
    refine ⟨neat.order, List.forall_mem_cons.mpr ⟨first, (ih later).each⟩,
      List.pairwise_cons.mpr ⟨fun other member => Or.inr fun span here there => ?_, (ih later).kin⟩⟩
    exact apart here (passes_subset_passesAll member there)

end NeatParts

/-- A list of nodes is plain exactly if each node is. -/
theorem plainAll_iff : plainAll nodes = true ↔ ∀ node ∈ nodes, node.plain = true := by
  induction nodes with
  | nil => simp [plainAll]
  | cons head rest ih => rw [plainAll, Bool.and_eq_true_iff, ih, List.forall_mem_cons]

/-- A type other than an array lies where its parts do. -/
theorem Neat.typeExpr {form : TypeForm} {parts : List Node} (neat : NeatParts low high parts)
    (other : form ≠ .array) : (Node.typeExpr form parts).Neat low high := by
  refine ⟨⟨neat.order, ?_, neat.within⟩, ?_⟩
  · rw [Tidy, if_neg other]
    exact neat.tidy
  · exact plainAll_iff.mpr fun part member => (neat.each part member).plain

/-- A type lies where its parts in order do. -/
theorem Neat.ofForm (form : TypeForm) (neat : NeatAll low high nodes) :
    (Node.typeExpr form nodes).Neat low high := by
  by_cases same : form = .array
  · exact same ▸ .array neat
  · exact .typeExpr (.ofAll neat) same

/-! ## Parameters -/

/-- Parameters stand for types: each of some of the types for one or more neighbours. -/
inductive Shares : List (Span × Node) → List Param → Prop where
  | none : Shares [] []
  | skip {type : Span × Node} {types : List (Span × Node)} {params : List Param}
    (shares : Shares types params) : Shares (type :: types) params
  | share {span : Span} {node : Node} {types : List (Span × Node)} {group params : List Param}
    (someone : group ≠ [])
    (same : ∀ param ∈ group, param.typeSpan = span ∧ param.typeNode = node)
    (shares : Shares types params) : Shares ((span, node) :: types) (group ++ params)

/-- Bare names wait for the type of the next named entry, and share it. -/
theorem shares_namedParams (waiting : List Binding) (entries : List ParamEntry) :
    Shares (entries.map fun entry => (entry.typeSpan, entry.typeNode))
      (namedParams waiting entries) := by
  fun_induction namedParams waiting entries with
  | case1 => exact .none
  | case2 waiting entry rest token named ih =>
    rw [List.append_cons]
    refine .share (by simp) ?_ ih
    intro param member
    rcases List.mem_append.mp member with waits | here
    · obtain ⟨binding, -, rfl⟩ := List.mem_map.mp waits
      exact ⟨rfl, rfl⟩
    · rw [List.mem_singleton.mp here]
      exact ⟨rfl, rfl⟩
  | case3 waiting entry rest named name span node ih => exact .skip ih
  | case4 waiting entry rest named other ih => exact .skip ih

/-- The parameters of a list stand for the types of its entries. -/
theorem shares_paramsOf (entries : List ParamEntry) :
    Shares (entries.map fun entry => (entry.typeSpan, entry.typeNode)) (paramsOf entries) := by
  unfold paramsOf
  split
  · clear * -
    induction entries with
    | nil => exact .none
    | cons entry rest ih =>
      change Shares (_ :: _) ([_] ++ _)
      refine .share (List.cons_ne_nil _ _) ?_ ih
      intro param member
      rw [List.mem_singleton.mp member]
      exact ⟨rfl, rfl⟩
  · exact shares_namedParams [] entries

/-- Neighbours of a parameter that share its type add nothing. -/
theorem passesParams_group {span : Span} {group : List Param} (params : List Param)
    (same : ∀ param ∈ group, param.typeSpan = span) :
    passesParams (some span) (group ++ params) = passesParams (some span) params ∧
      (TidyParams (some span) (group ++ params) ↔ TidyParams (some span) params) := by
  induction group with
  | nil => exact ⟨rfl, Iff.rfl⟩
  | cons first rest ih =>
    obtain ⟨here, others⟩ := List.forall_mem_cons.mp same
    obtain ⟨passes, tidy⟩ := ih others
    obtain ⟨name, nameSpan, typeSpan, typeNode⟩ := first
    obtain rfl : typeSpan = span := here
    rw [List.cons_append, passesParams, TidyParams, passes, tidy]
    simp

/-- Parameters lie between two offsets, as a list and as parts of a type. -/
structure NeatParams (low high : Nat) (params : List Param) : Prop where
  tidy : TidyParams none params
  within : Within low high (passesParams none params)
  parts : NeatParts low high (paramTypes params)

/-- Parameters that stand for types that lie between two offsets lie there too. -/
theorem Shares.neat {types : List (Span × Node)} {params : List Param}
    (shares : Shares types params) (neat : NeatAll low high (types.map Prod.snd)) :
    (∀ previous, TidyParams previous params ∧
      passesParams previous params ⊆ passesAll (types.map Prod.snd)) ∧
      NeatParts low high (paramTypes params) ∧ paramTypes params ⊆ types.map Prod.snd := by
  induction shares with
  | none => exact ⟨fun _ => ⟨trivial, List.nil_subset _⟩, .nil neat.order, List.nil_subset _⟩
  | skip shares ih =>
    obtain ⟨-, later, -⟩ := neat.uncons
    obtain ⟨each, parts, among⟩ := ih later
    exact ⟨fun previous => ⟨(each previous).1, fun span member =>
        List.mem_append_right _ ((each previous).2 member)⟩, parts,
      fun part member => List.mem_cons_of_mem _ (among member)⟩
  | @share span node types group params someone same shares ih =>
    obtain ⟨first, later, apart⟩ := neat.uncons
    obtain ⟨each, parts, among⟩ := ih later
    have types_group : ∀ part ∈ paramTypes group, part = node := by
      intro part member
      obtain ⟨param, inside, rfl⟩ := List.mem_map.mp member
      exact (same param inside).2
    refine ⟨fun previous => ?_, ⟨neat.order, ?_, ?_⟩, ?_⟩
    · obtain ⟨⟨name, nameSpan, typeSpan, typeNode⟩, others, rfl⟩ :=
        List.exists_cons_of_ne_nil someone
      obtain ⟨⟨rfl, rfl⟩, rest⟩ := List.forall_mem_cons.mp same
      obtain ⟨passes, tidy⟩ := passesParams_group params fun param member =>
        (rest param member).1
      obtain ⟨tidyLater, passesLater⟩ := each (some typeSpan)
      rw [List.cons_append, passesParams, TidyParams, passes, tidy]
      refine ⟨⟨?_, tidyLater⟩, ?_⟩
      · split
        · trivial
        · exact ⟨first.tidy, fun span here there => apart here (passesLater there)⟩
      · intro span member
        rcases List.mem_append.mp member with here | there
        · split at here
          · cases here
          · exact List.mem_append_left _ here
        · exact List.mem_append_right _ (passesLater there)
    · intro part member
      rw [paramTypes, List.map_append, List.mem_append] at member
      rcases member with here | there
      · exact types_group part here ▸ first
      · exact parts.each part there
    · rw [paramTypes, List.map_append, List.pairwise_append]
      refine ⟨(NeatParts.shared first types_group).kin, parts.kin, fun left here right there => ?_⟩
      refine Or.inr fun span inside outside => ?_
      rw [types_group left here] at inside
      exact apart inside (passes_subset_passesAll (among there) outside)
    · intro part member
      rw [paramTypes, List.map_append, List.mem_append] at member
      rcases member with here | there
      · rw [types_group part here]
        exact List.mem_cons_self
      · exact List.mem_cons_of_mem _ (among there)

namespace NeatParams

variable {params results : List Param}

/-- Parameters read from entries that lie between two offsets. -/
theorem ofEntries {entries : List ParamEntry}
    (neat : NeatAll low high (entries.map (·.typeNode))) :
    NeatParams low high (paramsOf entries) := by
  have types : (entries.map fun entry => (entry.typeSpan, entry.typeNode)).map Prod.snd =
      entries.map (·.typeNode) := List.map_map
  rw [← types] at neat
  obtain ⟨each, parts, -⟩ := (shares_paramsOf entries).neat neat
  exact ⟨(each none).1, neat.within.subset (each none).2, parts⟩

/-- No parameters lie between any two offsets. -/
theorem nil (order : low ≤ high) : NeatParams low high [] := ⟨trivial, .nil _ _, .nil order⟩

/-- A result without a name lies where its type does. -/
theorem single {span : Span} (neat : node.Neat low high) :
    NeatParams low high [⟨none, none, span, node⟩] := by
  refine ⟨⟨⟨neat.tidy, List.disjoint_nil_right _⟩, trivial⟩, ?_, ?_⟩
  · exact neat.single.within
  · exact .shared neat fun part member => List.mem_singleton.mp member

/-- The types of parameters bind no names. -/
theorem plain (neat : NeatParams low high params) : plainParams params = true := by
  have each : ∀ param ∈ params, param.typeNode.plain = true := fun param member =>
    (neat.parts.each _ (List.mem_map_of_mem member)).plain
  clear neat
  induction params with
  | nil => rfl
  | cons param rest ih =>
    obtain ⟨first, others⟩ := List.forall_mem_cons.mp each
    obtain ⟨name, nameSpan, typeSpan, typeNode⟩ := param
    rw [plainParams, Bool.and_eq_true_iff]
    exact ⟨first, ih others⟩

end NeatParams

variable {place : Nat} {params results : List Param}

/-- A function literal lies where its parameters, results and body lie behind each other. -/
theorem Neat.funcLit {body : Node} (first : NeatParams low middle params)
    (second : NeatParams middle place results) (third : body.Lies place high) :
    (Node.funcLit params results body).Neat low high := by
  have inner := second.within.append third.within second.parts.order third.order
  refine ⟨⟨Nat.le_trans first.parts.order (Nat.le_trans second.parts.order third.order), ?_, ?_⟩,
    ?_⟩
  · exact ⟨first.tidy, second.tidy, third.tidy, first.within.disjoint inner,
      second.within.disjoint third.within⟩
  · exact first.within.append inner first.parts.order (Nat.le_trans second.parts.order third.order)
  · rw [Node.plain, first.plain, second.plain]
    rfl

/-- A function type lies where its parameters and behind them its results lie. -/
theorem Neat.funcType (first : NeatParams low middle params)
    (second : NeatParams middle high results) :
    (Node.typeExpr .func (paramTypes params ++ paramTypes results)).Neat low high :=
  .typeExpr (first.parts.append second.parts) (by decide)

/-! ## Interfaces -/

/-- Types in the signatures of methods. -/
def signatureTypes (methods : List InterfaceMethod) : List Node :=
  methods.flatMap fun method => paramTypes method.params ++ paramTypes method.results

/-- Methods and embedded types lie between two offsets, as a declared type and as parts of one. -/
structure NeatInterface (low high : Nat) (body : List InterfaceMethod × List Node) : Prop where
  tidy : (TypeShape.interface body.1 body.2).Tidy
  within : Within low high (TypeShape.interface body.1 body.2).passes
  parts : NeatParts low high (signatureTypes body.1 ++ body.2)

namespace NeatInterface

variable {methods : List InterfaceMethod} {embeds union : List Node}

/-- No methods and no types lie between any two offsets. -/
theorem nil (order : low ≤ high) : NeatInterface low high ([], []) :=
  ⟨⟨fun _ member => (nomatch member), .nil, trivial, List.disjoint_nil_right _⟩, .nil _ _,
    .nil order⟩

/-- A method in front of others lies where its signature does, and they lie behind it. -/
theorem method {method : InterfaceMethod} (first : NeatParams low middle method.params)
    (second : NeatParams middle place method.results)
    (others : NeatInterface place high (methods, embeds)) :
    NeatInterface low high (method :: methods, embeds) := by
  obtain ⟨⟨each, apart, tidy, between⟩, within, parts⟩ := others
  have here : Within low place method.passes :=
    first.within.append second.within first.parts.order second.parts.order
  have behind := here.disjoint within
  have order := Nat.le_trans first.parts.order second.parts.order
  refine ⟨⟨?_, ?_, tidy, ?_⟩, ?_, ?_⟩
  · exact List.forall_mem_cons.mpr ⟨⟨first.tidy, second.tidy,
      first.within.disjoint second.within⟩, each⟩
  · refine List.pairwise_cons.mpr ⟨fun other member span inside outside => ?_, apart⟩
    exact behind inside (List.mem_append_left _ (List.mem_flatMap.mpr ⟨other, member, outside⟩))
  · rw [List.flatMap_cons, List.disjoint_append_left]
    exact ⟨(List.disjoint_append_right.mp behind).2, between⟩
  · simp only [TypeShape.passes, List.flatMap_cons, List.append_assoc]
    exact here.append within order parts.order
  · simp only [signatureTypes, List.flatMap_cons, List.append_assoc]
    rw [← List.append_assoc]
    exact (first.parts.append second.parts).append parts

/-- Embedded types in front of others lie in front of the rest of the interface. -/
theorem embed (first : NeatAll low middle union)
    (others : NeatInterface middle high (methods, embeds)) :
    NeatInterface low high (methods, union ++ embeds) := by
  obtain ⟨⟨each, apart, tidy, between⟩, within, parts⟩ := others
  have behind := first.within.disjoint within
  obtain ⟨methodsBehind, embedsBehind⟩ := List.disjoint_append_right.mp behind
  have rest : LieAll middle high embeds :=
    ⟨parts.order, tidy, within.subset (List.subset_append_right _ _)⟩
  have all := Lies.append first.toLies rest
  refine ⟨⟨each, apart, all.tidy, ?_⟩, ?_, ?_⟩
  · rw [passesAll_append, List.disjoint_append_right]
    exact ⟨fun _ here there => methodsBehind there here, between⟩
  · intro span member
    rcases List.mem_append.mp member with inside | outside
    · exact (within.mono first.order (Nat.le_refl high)) span (List.mem_append_left _ inside)
    · exact all.within span outside
  · refine ((NeatParts.ofAll first).append parts).perm ?_
    exact List.perm_append_comm_assoc _ _ _

end NeatInterface

end Node

end GoRefactor
