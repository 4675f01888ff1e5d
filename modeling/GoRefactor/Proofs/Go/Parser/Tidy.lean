import GoRefactor.Proofs.Go.Neat
import GoRefactor.Proofs.Go.Parser.Family
import GoRefactor.Proofs.Go.Parser.Order

/-!
# What is read is tidy

Tokens are taken in order, so what a function of the parser reads lies between the end of the last
token before it and the end of the last one that it took. Trees that lie behind each other make
larger ones that do, which is a reading.
-/

namespace GoRefactor

namespace Parse

variable {α β : Type} {place : Nat} {post : Nat → α → Prop}

/-- From every place where the last token ended at an offset, the computation gives a value that
stands in a relation to the offset where it stops. -/
def Reads (place : Nat) (post : Nat → α → Prop) (parse : Parse α) : Prop :=
  ∀ cursor : Cursor, cursor.Ordered → cursor.lastEnd = place →
    post (parse.run cursor).2.lastEnd (parse.run cursor).1

namespace Reads

/-- A value is read if it stands in the relation where the computation starts. -/
theorem pure {value : α} (here : post place value) : Reads place post (Pure.pure value) :=
  fun _ _ same => same ▸ here

/-- What follows a computation is read if it is from each offset where the first one may stop. -/
theorem bind {middle : Nat → α → Prop} {post : Nat → β → Prop} {parse : Parse α}
    {following : α → Parse β} (first : Reads place middle parse)
    (second : ∀ stop value, place ≤ stop → middle stop value → Reads stop post (following value)) :
    Reads place post (parse >>= following) := by
  intro cursor ordered same
  have moved := ordered.lastEnd_le_run parse
  rw [same] at moved
  exact second _ _ moved (first cursor ordered same) _ (Cursor.Stable.run ordered parse) rfl

/-- What follows a computation is read if it is for every value and each offset behind the first. -/
theorem behind {post : Nat → β → Prop} {parse : Parse α} {following : α → Parse β}
    (second : ∀ stop value, place ≤ stop → Reads stop post (following value)) :
    Reads place post (parse >>= following) := by
  have anything : Reads place (fun _ _ => True) parse := fun _ _ _ => trivial
  exact bind anything fun stop value moved _ => second stop value moved

/-- A value that is changed is read if the change keeps the relation. -/
theorem map {middle : Nat → α → Prop} {post : Nat → β → Prop} {parse : Parse α} {change : α → β}
    (first : Reads place middle parse)
    (changes : ∀ stop value, place ≤ stop → middle stop value → post stop (change value)) :
    Reads place post (change <$> parse) :=
  bind first fun stop value moved here => pure (changes stop value moved here)

/-- A choice is read if both of its sides are. -/
theorem ite {test : Prop} [Decidable test] {parse other : Parse α} (passes : Reads place post parse)
    (fails : Reads place post other) : Reads place post (if test then parse else other) := by
  split
  · exact passes
  · exact fails

/-- The relation may be weaker. -/
theorem weaken {stronger : Nat → α → Prop} {parse : Parse α} (reads : Reads place stronger parse)
    (implies : ∀ stop value, place ≤ stop → stronger stop value → post stop value) :
    Reads place post parse := fun cursor ordered same =>
  implies _ _ (same ▸ ordered.lastEnd_le_run parse) (reads cursor ordered same)

end Reads

/-- A name that comes next is taken from its place. -/
theorem within_taken {cursor : Cursor} (ordered : cursor.Ordered)
    (named : (cursor.peekAt 0).kind = .identifier) :
    Within cursor.lastEnd cursor.advance.lastEnd [(cursor.peekAt 0).span] := by
  cases next : cursor.ahead with
  | nil =>
    unfold Cursor.peekAt at named
    rw [next] at named
    rw [show (([] : List Token)[0]?.getD cursor.finish) = cursor.finish from rfl,
      ordered.finishes] at named
    cases named
  | cons token rest =>
    have first : cursor.peekAt 0 = token := by
      unfold Cursor.peekAt
      rw [next]
      rfl
    have member : token ∈ cursor.ahead := by
      rw [next]
      exact List.mem_cons_self
    rw [first] at named ⊢
    have goesOn : token.isTerminator = false := by
      unfold Token.isTerminator
      rw [named]
      rfl
    obtain ⟨starts, stops⟩ := ordered.lastEnd_advance next goesOn
    intro span inside
    rw [List.mem_singleton.mp inside, stops]
    exact ⟨starts, ordered.names token member named, Nat.le_refl _⟩

/-- Behind a test that tells that a name comes next, the name is taken. -/
theorem Reads.name {test : Parse Bool} {following : Token → Parse α} {other : Parse α}
    (tells : TellsName test)
    (found : ∀ stop token, Within place stop [token.span] → Reads stop post (following token))
    (missed : Reads place post other) :
    Reads place post (test >>= fun yes => if yes = true then take >>= following else other) := by
  obtain ⟨answer, rfl, told⟩ := tells
  intro cursor ordered same
  have ask : (query answer >>= fun yes => if yes = true then take >>= following else other).run
      cursor = (if answer cursor = true then take >>= following else other).run cursor := rfl
  rw [ask]
  by_cases yes : answer cursor = true
  · rw [if_pos yes]
    have taken := within_taken ordered (told cursor yes)
    rw [same] at taken
    exact found _ _ taken _ (Cursor.Stable.advance cursor ordered) rfl
  · rw [if_neg yes]
    exact missed cursor ordered same

/-! ## Reading in order -/

open Node

/-- Tokens come in order, and the last one ended at the offset. -/
def inOrder : Trail where
  At place cursor := cursor.Ordered ∧ cursor.lastEnd = place
  Named low high token := Within low high [token.span]
  advance here := ⟨_, here.2 ▸ here.1.lastEnd_le_advanceBy 1, Cursor.Stable.advance _ here.1, rfl⟩
  name here named := ⟨_, here.2 ▸ here.1.lastEnd_le_advanceBy 1,
    ⟨Cursor.Stable.advance _ here.1, rfl⟩, here.2 ▸ within_taken here.1 named⟩
  named_from below within := within.mono below (Nat.le_refl _)

/-- One expression, which lies between two offsets. -/
def TidyTree (low high : Nat) (node image : Node) : Prop := node = image ∧ Neat low high node

/-- One statement, which lies between two offsets. -/
def TidyStmt (low high : Nat) (node image : Node) : Prop := node = image ∧ Lies low high node

section Rows

variable {low middle high : Nat} {nodes images : List Node}

/-- Expressions behind each other lie between two offsets. -/
theorem neatAll_of_row (row : Row TidyTree low high nodes images) :
    nodes = images ∧ NeatAll low high nodes := by
  induction row with
  | nil order => exact ⟨rfl, .nil order⟩
  | cons head _ ih => exact ⟨congrArg₂ _ head.1 ih.1, .cons head.2 ih.2⟩

/-- Statements behind each other lie between two offsets. -/
theorem lieAll_of_row (row : Row TidyStmt low high nodes images) :
    nodes = images ∧ LieAll low high nodes := by
  induction row with
  | nil order => exact ⟨rfl, .nil order⟩
  | cons head _ ih => exact ⟨congrArg₂ _ head.1 ih.1, .cons head.2 ih.2⟩

/-- An expression that may be left out lies between two offsets. -/
theorem neat_of_optional {given given' : Option Node}
    (here : Optional TidyTree low high given given') :
    given = given' ∧ NeatAll low high given.toList := by
  cases here with
  | none order => exact ⟨rfl, .nil order⟩
  | some here => exact ⟨congrArg some here.1, .single here.2⟩

/-- A statement that may be left out lies between two offsets. -/
theorem lies_of_optional {given given' : Option Node}
    (here : Optional TidyStmt low high given given') :
    given = given' ∧ LieAll low high given.toList := by
  cases here with
  | none order => exact ⟨rfl, .nil order⟩
  | some here => exact ⟨congrArg some here.1, .single here.2⟩

/-- The types of entries lie between two offsets. -/
theorem neatAll_of_entries {entries entries' : List ParamEntry}
    (row : Row (fun low high => EntryBeside Eq Eq (TidyTree low high)) low high entries entries') :
    entries = entries' ∧ NeatAll low high (entries.map (·.typeNode)) := by
  induction row with
  | nil order => exact ⟨rfl, .nil order⟩
  | cons head _ ih => exact ⟨congrArg₂ _ (head.eq (·.1)) ih.1, .cons head.typeNode.2 ih.2⟩

end Rows

/-- A composite literal lies where its type, if it has one, and behind it its elements lie. -/
theorem neat_composite {low middle high : Nat} {type type' : Option Node} {elems : List Node}
    (first : Optional TidyTree low middle type type') (second : NeatAll middle high elems) :
    (Node.composite type elems).Neat low high := by
  cases first with
  | none order => exact .bare (second.mono order (Nat.le_refl high))
  | some here => exact .composite here.2 second

/-- A type assertion lies where its base and behind it its type, if it has one, lie. -/
theorem neat_typeAssert {low middle high : Nat} {base : Node} {type type' : Option Node}
    (first : base.Neat low middle) (second : Optional TidyTree middle high type type') :
    (Node.typeAssert base type).Neat low high := by
  cases second with
  | none order => exact .typeSwitch (first.upTo order)
  | some here => exact .typeAssert first here.2

/-- The field that embeds a type has no parts but the type. -/
theorem neatParts_embedding {low high : Nat} {node : Node} (neat : node.Neat low high)
    (span : Span) (doc : Option String) :
    NeatParts low high ((Field.embedding node span doc).map (·.typeNode)) := by
  refine .shared neat fun part member => ?_
  unfold Field.embedding at member
  split at member
  · cases member
  · exact List.mem_singleton.mp member

/-- The same values, which lie between the offsets where reading started and stopped. -/
def tidy : Reading where
  toSteps := inOrder.steps False
  Tree := TidyTree
  TypeTree := TidyTree
  Stmt := TidyStmt
  Bindings := Eq
  Params low high params params' := params = params' ∧ NeatParams low high params
  Fields low high fields fields' :=
    fields = fields' ∧ NeatParts low high (fields.map (·.typeNode))
  Interface low high lines lines' := lines = lines' ∧ NeatInterface low high lines
  treeMono below above tree := ⟨tree.1, tree.2.mono below above⟩
  typeMono below above type := ⟨type.1, type.2.mono below above⟩
  stmtMono below above stmt := ⟨stmt.1, stmt.2.mono below above⟩
  typeTree type := type
  treeStmt tree := ⟨tree.1, tree.2.toLies⟩
  named name := ⟨name.1 ▸ rfl, .ident name.2⟩
  qualified first second := ⟨first.1 ▸ second.1 ▸ rfl, .selector (.ident first.2) second.2⟩
  applied base args :=
    have args := neatAll_of_row args
    ⟨congrArg₂ _ base.1 args.1, .index base.2 args.2⟩
  pointer node := ⟨congrArg _ node.1, node.2.unary⟩
  literal order span := ⟨congrArg _ span, .literal order⟩
  typeExpr form parts :=
    have parts := neatAll_of_row parts
    ⟨congrArg _ parts.1, .ofForm form parts.2⟩
  funcType takes gives := ⟨takes.1 ▸ gives.1 ▸ rfl, .funcType takes.2 gives.2⟩
  structType fields := ⟨fields.1 ▸ rfl, .typeExpr fields.2 (by decide)⟩
  interfaceType lines := ⟨lines.1 ▸ rfl, .typeExpr lines.2.parts (by decide)⟩
  selector base name := ⟨base.1 ▸ name.1 ▸ rfl, .selector base.2 name.2⟩
  unary _ node := ⟨congrArg _ node.1, node.2.unary⟩
  binary left right := ⟨congrArg₂ _ left.1 right.1, .binary left.2 right.2⟩
  keyValue key value := ⟨congrArg₂ _ key.1 value.1, .keyValue key.2 value.2⟩
  call func args :=
    have args := neatAll_of_row args
    ⟨congrArg₂ _ func.1 args.1, .call func.2 args.2⟩
  index base indices :=
    have indices := neatAll_of_row indices
    ⟨congrArg₂ _ base.1 indices.1, .index base.2 indices.2⟩
  composite type elems :=
    have elems := neatAll_of_row elems
    ⟨congrArg₂ _ (neat_of_optional type).1 elems.1, neat_composite type elems.2⟩
  typeAssert base type :=
    ⟨congrArg₂ _ base.1 (neat_of_optional type).1, neat_typeAssert base.2 type⟩
  funcLit takes gives body :=
    ⟨takes.1 ▸ gives.1 ▸ body.1 ▸ rfl, .funcLit takes.2 gives.2 body.2.toLies⟩
  block span stmts :=
    have stmts := lieAll_of_row stmts
    ⟨congrArg₂ _ span stmts.1, .block stmts.2⟩
  isLiteralType_eq node := node.1 ▸ rfl
  define names type values :=
    have type := neat_of_optional type
    have values := neatAll_of_row values
    ⟨names ▸ type.1 ▸ values.1 ▸ rfl, .define type.2.toLies values.2.toLies⟩
  assign targets values :=
    have targets := neatAll_of_row targets
    have values := neatAll_of_row values
    ⟨congrArg₂ _ targets.1 values.1, .assign targets.2.toLies values.2.toLies⟩
  branch header body alt :=
    have header := lieAll_of_row header
    have alt := lies_of_optional alt
    ⟨header.1 ▸ body.1 ▸ alt.1 ▸ rfl, .branch header.2 body.2 alt.2⟩
  list items :=
    have items := neatAll_of_row items
    ⟨congrArg _ items.1, items.2.toLies⟩
  ofDefinitions nodes :=
    have nodes := lieAll_of_row nodes
    ⟨congrArg _ nodes.1, .ofDefinitions nodes.2⟩
  bindings tokens := Trail.eq_of_spelled tokens ▸ rfl
  bindingsOf nodes := (nodes.eq_of (·.1)) ▸ rfl
  noParams order := ⟨rfl, .nil order⟩
  bareParam span node := ⟨span ▸ node.1 ▸ rfl, .single node.2⟩
  paramsOf entries :=
    have entries := neatAll_of_entries entries
    ⟨congrArg _ entries.1, .ofEntries entries.2⟩
  noFields order := ⟨rfl, .nil order⟩
  fieldsBehind fields others := ⟨congrArg₂ _ fields.1 others.1, by
    rw [List.map_append]
    exact fields.2.append others.2⟩
  fieldsNamed _ tokens span node := ⟨Trail.eq_of_spelled tokens ▸ span ▸ node.1 ▸ rfl, by
    rw [List.map_map]
    exact .shared node.2 (List.forall_mem_map.mpr fun _ _ => rfl)⟩
  embedding doc node span := ⟨node.1 ▸ span ▸ rfl, neatParts_embedding node.2 _ doc⟩
  noLines order := ⟨rfl, .nil order⟩
  method name span takes gives lines :=
    ⟨name ▸ span ▸ takes.1 ▸ gives.1 ▸ lines.1 ▸ rfl, .method takes.2 gives.2 lines.2⟩
  embeds union lines :=
    have union := neatAll_of_row union
    ⟨union.1 ▸ lines.1 ▸ rfl, .embed union.2 lines.2⟩

/-! ## What the functions of the parser read -/

section Parts

variable {limit low place : Nat}

/-- What is read beside itself lies behind the place where it starts. -/
theorem reads_of_beside {holds : Cursor → Prop} {lies : Nat → Nat → α → Prop} {parse : Parse α}
    (reads : tidy.Reads holds (fun low high value image => value = image ∧ lies low high value)
      parse parse)
    (anywhere : ∀ cursor, holds cursor) (low : Nat) {place : Nat} (after : low ≤ place) :
    Reads place (lies low) parse := by
  intro cursor ordered same
  obtain ⟨-, stop, -, ⟨-, stops⟩, -, related⟩ :=
    reads low after cursor ⟨ordered, same⟩ (anywhere cursor)
  exact stops ▸ related

/-- The functions of the parser read what lies behind the place where they start. -/
theorem tidy_family (limit : Nat) : tidy.Family limit limit :=
  tidy.family (Nat.le_refl limit) (Or.inr rfl)

/-- A type is read behind the place where it starts. -/
theorem tidy_type (low : Nat) (after : low ≤ place) : Reads place (Neat low) (type limit) :=
  reads_of_beside (tidy_family limit).type (fun _ => False.elim) low after

/-- Parameters are read behind the place where they start. -/
theorem tidy_params (low : Nat) (after : low ≤ place) :
    Reads place (NeatParams low) (params limit) :=
  reads_of_beside (tidy_family limit).params (fun _ => False.elim) low after

/-- Results are read behind the place where they start. -/
theorem tidy_results (low : Nat) (after : low ≤ place) :
    Reads place (NeatParams low) (results limit) :=
  reads_of_beside (tidy_family limit).results (fun _ => False.elim) low after

/-- The fields of a struct are read behind the place where they start. -/
theorem tidy_structFields (low : Nat) (after : low ≤ place) :
    Reads place (fun stop fields => NeatParts low stop (fields.map (·.typeNode)))
      (structFields limit) :=
  reads_of_beside (tidy_family limit).structFields (fun _ => False.elim) low after

/-- Methods and embedded types are read behind the place where they start. -/
theorem tidy_interfaceBody (low : Nat) (after : low ≤ place) :
    Reads place (NeatInterface low) (interfaceBody limit) :=
  reads_of_beside (tidy_family limit).interfaceBody (fun _ => False.elim) low after

/-- The types of a union are read behind the place where they start. -/
theorem tidy_typeUnion (low : Nat) (after : low ≤ place) :
    Reads place (NeatAll low) (typeUnion limit) :=
  reads_of_beside (fun low _ after => .weaken ((tidy_family limit).typeUnion low after)
    fun _ row => neatAll_of_row row) (fun _ => False.elim) low after

/-- Expressions that are separated by commas are read behind the place where they start. -/
theorem tidy_exprList (bare : Bool) (low : Nat) (after : low ≤ place) :
    Reads place (NeatAll low) (exprList limit bare) :=
  reads_of_beside (fun low _ after => .weaken ((tidy_family limit).exprList bare low after)
    fun _ row => neatAll_of_row row) (fun _ => False.elim) low after

/-- A block is read behind the place where it starts. -/
theorem tidy_block (low : Nat) (after : low ≤ place) : Reads place (Neat low) (block limit) :=
  reads_of_beside (tidy_family limit).block (fun _ => False.elim) low after

end Parts

end Parse

end GoRefactor
