import GoRefactor.Proofs.Go.Marks
import GoRefactor.Proofs.Json.Shape
import GoRefactor.Snapshot.Syntax

/-!
# Trees read back

A tree that is written to JSON is read back as it was, if its spans fit into words and names and
places go together. Reading bounds the nesting of trees by that of the value, so the induction is on
the tree, with any bound that the value keeps to.
-/

namespace GoRefactor

/-- Every marked offset fits into a word. -/
def Marks.Words (marks : Marks) : Prop := ∀ offset, marks.Placed offset → offset < UInt64.size

namespace Snapshot

open Json

variable {marks : Marks}

/-- A span is read back. -/
theorem span?_encodeSpan (words : marks.Words) {span image : Span}
    (passed : marks.guard.span span = .ok image) : span? (encodeSpan span) = some span := by
  obtain ⟨⟨start, stop, -⟩, -⟩ := Marks.guard_span_iff.mp passed
  have first := word?_nat (words _ start)
  have last := word?_nat (words _ stop)
  simp -implicitDefEqProofs [span?, encodeSpan, record?_object, Record.required?, first, last]

/-- A name is read back with its place. -/
theorem named_read (words : marks.Words) {name : String} {span : Span} {image : String × Span}
    (passed : marks.guard.named name span = .ok image) :
    image = (name, span) ∧ span? (encodeSpan span) = some span := by
  obtain ⟨-, spans, rfl⟩ := Marks.guard_named_iff.mp passed
  exact ⟨rfl, span?_encodeSpan words (Marks.guard_span_iff.mpr ⟨spans, rfl⟩)⟩

/-- A place is read back, if it goes together with a name. -/
theorem optionalName_read (words : marks.Words) {name : Option String} {span : Option Span}
    {image : Option String × Option Span} (together : name.isSome = span.isSome)
    (passed : marks.guard.optionalName name span = .ok image) :
    nullable? span? (nullable encodeSpan span) = some span := by
  cases span with
  | none => rfl
  | some span =>
    obtain ⟨text, rfl⟩ := Option.isSome_iff_exists.mp together
    obtain ⟨_, named, same⟩ := bind_eq_ok.mp passed
    obtain ⟨-, span⟩ := named_read words named
    exact nullable?_nullable (fun _ same => nomatch same) fun _ given => by
      cases given
      exact span

/-- Local names are read back. -/
theorem bindings_read (words : marks.Words) {names images : List Binding}
    (passed : names.mapM marks.guard.binding = .ok images) :
    list? binding? (.array (names.map encodeBinding)) = some names := by
  refine list?_array fun binding member => ?_
  obtain ⟨image, -, visited⟩ := exists_mem_of_forall₂ (mapM_eq_ok_iff.mp passed).flip member
  obtain ⟨_, named, -⟩ := bind_eq_ok.mp visited
  obtain ⟨-, span⟩ := named_read words named
  simp -implicitDefEqProofs [binding?, encodeBinding, record?_object, Record.required?, span]

/-- A unary operator is read back. -/
theorem unaryOp_read (op : UnaryOp) :
    choice? unaryOps unaryOpName (.string (unaryOpName op)) = some op := by
  cases op <;> rfl

/-- The form of a type is read back. -/
theorem typeForm_read (form : TypeForm) :
    choice? typeForms typeFormName (.string (typeFormName form)) = some form := by
  cases form <;> rfl

/-- A tree is written as an object, so its document is at least one level deep. -/
theorem depth_encodeNode_pos (node : Node) : 0 < depth (encodeNode node) := by
  cases node <;> exact Nat.succ_pos _

/-- A tree is not null. -/
theorem encodeNode_ne_null (node : Node) : encodeNode node ≠ .null := by
  cases node <;> exact fun same => nomatch same

/-- A tree that is read with every bound that its parts keep to is read with every bound that it
keeps to itself. -/
theorem heldNodeWithin?_encodeNode {node : Node} (limit : Nat)
    (read : ∀ limit, depth (encodeNode node) ≤ limit + 1 →
      nodeWith? .held (heldNodeWithin? limit) (encodeNode node) = some node)
    (fits : depth (encodeNode node) ≤ limit) :
    heldNodeWithin? limit (encodeNode node) = some node := by
  cases limit with
  | zero => exact absurd fits (Nat.not_le.mpr (depth_encodeNode_pos node))
  | succ limit => exact read limit fits

/-- Trees are read one by one. -/
theorem list?_cons {α : Type} {decode : Json → Option α} {json : Json} {jsons : List Json}
    {head : α} {rest : List α} (first : decode json = some head)
    (others : list? decode (.array jsons) = some rest) :
    list? decode (.array (json :: jsons)) = some (head :: rest) := by
  change jsons.mapM decode = some rest at others
  change (json :: jsons).mapM decode = some (head :: rest)
  rw [List.mapM_cons, first, others]
  rfl

/-- A parameter is read back if its type is. -/
theorem paramWith?_encodeParam (words : marks.Words) {param : Param}
    (passed : marks.guard.param param = .ok param)
    (pairs : Node.pairsParams [param] = true) {node? : Json → Option Node}
    (read : marks.guard.node param.typeNode = .ok param.typeNode →
      param.typeNode.pairs = true → node? (encodeNode param.typeNode) = some param.typeNode) :
    paramWith? node? (encodeParam param) = some param := by
  obtain ⟨name, nameSpan, typeSpan, typeNode⟩ := param
  obtain ⟨together, typed⟩ := Node.pairsParams_eq_true_iff.mp pairs _ List.mem_cons_self
  obtain ⟨⟨name', nameSpan'⟩, named, passed⟩ := bind_eq_ok.mp passed
  obtain ⟨_, spanned, passed⟩ := bind_eq_ok.mp passed
  obtain ⟨_, visited, passed⟩ := bind_eq_ok.mp passed
  cases passed
  have placed := optionalName_read words together named
  have type := read visited typed
  have span := span?_encodeSpan words spanned
  simp -implicitDefEqProofs [encodeParam, paramWith?, record?_object, Record.required?,
    Record.withDefault?, placed, span, type]

mutual

/-- **A tree is read back**, with every bound on the nesting within it that it keeps to. -/
theorem nodeWith?_encodeNode (words : marks.Words) : ∀ (node : Node) {origin : Origin}
    {limit : Nat}, marks.guard.node node = .ok node → node.pairs = true →
      depth (encodeNode node) ≤ limit + 1 →
        nodeWith? origin (heldNodeWithin? limit) (encodeNode node) = some node
  | .ident name span, origin, limit, passed, _, _ => by
    obtain ⟨_, named, passed⟩ := bind_eq_ok.mp passed
    cases passed
    obtain ⟨-, span⟩ := named_read words named
    refine (tagged?_bind (by decide) (by simp) _).trans ?_
    simp -implicitDefEqProofs [record?_object, Record.required?, span]
  | .selector base name span, origin, limit, passed, pairs, fits => by
    obtain ⟨_, visited, passed⟩ := bind_eq_ok.mp passed
    obtain ⟨_, named, passed⟩ := bind_eq_ok.mp passed
    cases passed
    simp only [encodeNode, depth, depthOfMembers] at fits
    obtain ⟨-, span⟩ := named_read words named
    have base := heldNodeWithin?_encodeNode limit
      (fun _ => nodeWith?_encodeNode words base visited pairs) (by omega)
    refine (tagged?_bind (by decide) (by simp) _).trans ?_
    simp -implicitDefEqProofs [record?_object, Record.required?, span, base]
  | .call func args, origin, limit, passed, pairs, fits => by
    obtain ⟨_, visited, passed⟩ := bind_eq_ok.mp passed
    obtain ⟨_, visited', passed⟩ := bind_eq_ok.mp passed
    cases passed
    simp only [encodeNode, depth, depthOfMembers] at fits
    obtain ⟨pairs, pairs'⟩ := Bool.and_eq_true_iff.mp pairs
    have func := heldNodeWithin?_encodeNode limit
      (fun _ => nodeWith?_encodeNode words func visited pairs) (by omega)
    have args := list?_encodeNodes words args limit visited' pairs' (by omega)
    refine (tagged?_bind (by decide) (by simp) _).trans ?_
    simp -implicitDefEqProofs [record?_object, Record.required?, func, args]
  | .composite type elems, origin, limit, passed, pairs, fits => by
    obtain ⟨_, visited, passed⟩ := bind_eq_ok.mp passed
    obtain ⟨_, visited', passed⟩ := bind_eq_ok.mp passed
    cases passed
    simp only [encodeNode, depth, depthOfMembers] at fits
    obtain ⟨pairs, pairs'⟩ := Bool.and_eq_true_iff.mp pairs
    have type := nullable?_encodeOptionalNode words type limit visited pairs (by omega)
    have elems := list?_encodeNodes words elems limit visited' pairs' (by omega)
    refine (tagged?_bind (by decide) (by simp) _).trans ?_
    simp -implicitDefEqProofs [record?_object, Record.required?, Record.optional?, type, elems]
  | .keyValue key value, origin, limit, passed, pairs, fits => by
    obtain ⟨_, visited, passed⟩ := bind_eq_ok.mp passed
    obtain ⟨_, visited', passed⟩ := bind_eq_ok.mp passed
    cases passed
    simp only [encodeNode, depth, depthOfMembers] at fits
    obtain ⟨pairs, pairs'⟩ := Bool.and_eq_true_iff.mp pairs
    have key := heldNodeWithin?_encodeNode limit
      (fun _ => nodeWith?_encodeNode words key visited pairs) (by omega)
    have value := heldNodeWithin?_encodeNode limit
      (fun _ => nodeWith?_encodeNode words value visited' pairs') (by omega)
    refine (tagged?_bind (by decide) (by simp) _).trans ?_
    simp -implicitDefEqProofs [record?_object, Record.required?, key, value]
  | .unary op operand, origin, limit, passed, pairs, fits => by
    obtain ⟨_, visited, passed⟩ := bind_eq_ok.mp passed
    cases passed
    simp only [encodeNode, depth, depthOfMembers] at fits
    have operand := heldNodeWithin?_encodeNode limit
      (fun _ => nodeWith?_encodeNode words operand visited pairs) (by omega)
    refine (tagged?_bind (by decide) (by simp) _).trans ?_
    simp -implicitDefEqProofs [record?_object, Record.required?, unaryOp_read, operand]
  | .binary left right, origin, limit, passed, pairs, fits => by
    obtain ⟨_, visited, passed⟩ := bind_eq_ok.mp passed
    obtain ⟨_, visited', passed⟩ := bind_eq_ok.mp passed
    cases passed
    simp only [encodeNode, depth, depthOfMembers] at fits
    obtain ⟨pairs, pairs'⟩ := Bool.and_eq_true_iff.mp pairs
    have left := heldNodeWithin?_encodeNode limit
      (fun _ => nodeWith?_encodeNode words left visited pairs) (by omega)
    have right := heldNodeWithin?_encodeNode limit
      (fun _ => nodeWith?_encodeNode words right visited' pairs') (by omega)
    refine (tagged?_bind (by decide) (by simp) _).trans ?_
    simp -implicitDefEqProofs [record?_object, Record.required?, left, right]
  | .index base indices, origin, limit, passed, pairs, fits => by
    obtain ⟨_, visited, passed⟩ := bind_eq_ok.mp passed
    obtain ⟨_, visited', passed⟩ := bind_eq_ok.mp passed
    cases passed
    simp only [encodeNode, depth, depthOfMembers] at fits
    obtain ⟨pairs, pairs'⟩ := Bool.and_eq_true_iff.mp pairs
    have base := heldNodeWithin?_encodeNode limit
      (fun _ => nodeWith?_encodeNode words base visited pairs) (by omega)
    have indices := list?_encodeNodes words indices limit visited' pairs' (by omega)
    refine (tagged?_bind (by decide) (by simp) _).trans ?_
    simp -implicitDefEqProofs [record?_object, Record.required?, base, indices]
  | .typeAssert base type, origin, limit, passed, pairs, fits => by
    obtain ⟨_, visited, passed⟩ := bind_eq_ok.mp passed
    obtain ⟨_, visited', passed⟩ := bind_eq_ok.mp passed
    cases passed
    simp only [encodeNode, depth, depthOfMembers] at fits
    obtain ⟨pairs, pairs'⟩ := Bool.and_eq_true_iff.mp pairs
    have base := heldNodeWithin?_encodeNode limit
      (fun _ => nodeWith?_encodeNode words base visited pairs) (by omega)
    have type := nullable?_encodeOptionalNode words type limit visited' pairs' (by omega)
    refine (tagged?_bind (by decide) (by simp) _).trans ?_
    simp -implicitDefEqProofs [record?_object, Record.required?, Record.optional?, base, type]
  | .typeExpr form parts, origin, limit, passed, pairs, fits => by
    obtain ⟨_, visited, passed⟩ := bind_eq_ok.mp passed
    cases passed
    simp only [encodeNode, depth, depthOfMembers] at fits
    have parts := list?_encodeNodes words parts limit visited pairs (by omega)
    refine (tagged?_bind (by decide) (by simp) _).trans ?_
    simp -implicitDefEqProofs [record?_object, Record.required?, typeForm_read, parts]
  | .literal span, origin, limit, passed, _, _ => by
    obtain ⟨_, spanned, passed⟩ := bind_eq_ok.mp passed
    cases passed
    have span := span?_encodeSpan words spanned
    refine (tagged?_bind (by decide) (by simp) _).trans ?_
    simp -implicitDefEqProofs [record?_object, Record.required?, span]
  | .funcLit params results body, origin, limit, passed, pairs, fits => by
    obtain ⟨_, visited, passed⟩ := bind_eq_ok.mp passed
    obtain ⟨_, visited', passed⟩ := bind_eq_ok.mp passed
    obtain ⟨_, visited'', passed⟩ := bind_eq_ok.mp passed
    cases passed
    simp only [encodeNode, depth, depthOfMembers] at fits
    obtain ⟨pairs, pairs''⟩ := Bool.and_eq_true_iff.mp pairs
    obtain ⟨pairs, pairs'⟩ := Bool.and_eq_true_iff.mp pairs
    have params := list?_encodeParams words params limit visited pairs (by omega)
    have results := list?_encodeParams words results limit visited' pairs' (by omega)
    have body := heldNodeWithin?_encodeNode limit
      (fun _ => nodeWith?_encodeNode words body visited'' pairs'') (by omega)
    refine (tagged?_bind (by decide) (by simp) _).trans ?_
    simp -implicitDefEqProofs [record?_object, Record.required?, params, results, body]
  | .block span stmts, origin, limit, passed, pairs, fits => by
    obtain ⟨_, spanned, passed⟩ := bind_eq_ok.mp passed
    obtain ⟨_, visited, passed⟩ := bind_eq_ok.mp passed
    cases passed
    simp only [encodeNode, depth, depthOfMembers] at fits
    have span := span?_encodeSpan words spanned
    have stmts := list?_encodeNodes words stmts limit visited pairs (by omega)
    refine (tagged?_bind (by decide) (by simp) _).trans ?_
    simp -implicitDefEqProofs [record?_object, Record.required?, span, stmts]
  | .define names type values, origin, limit, passed, pairs, fits => by
    obtain ⟨_, bound, passed⟩ := bind_eq_ok.mp passed
    obtain ⟨_, visited, passed⟩ := bind_eq_ok.mp passed
    obtain ⟨_, visited', passed⟩ := bind_eq_ok.mp passed
    cases passed
    simp only [encodeNode, depth, depthOfMembers] at fits
    obtain ⟨pairs, pairs'⟩ := Bool.and_eq_true_iff.mp pairs
    have names := bindings_read words bound
    have type := nullable?_encodeOptionalNode words type limit visited pairs (by omega)
    have values := list?_encodeNodes words values limit visited' pairs' (by omega)
    refine (tagged?_bind (by decide) (by simp) _).trans ?_
    simp -implicitDefEqProofs [record?_object, Record.required?, Record.optional?, names, type,
      values]
  | .assign targets values, origin, limit, passed, pairs, fits => by
    obtain ⟨_, visited, passed⟩ := bind_eq_ok.mp passed
    obtain ⟨_, visited', passed⟩ := bind_eq_ok.mp passed
    cases passed
    simp only [encodeNode, depth, depthOfMembers] at fits
    obtain ⟨pairs, pairs'⟩ := Bool.and_eq_true_iff.mp pairs
    have targets := list?_encodeNodes words targets limit visited pairs (by omega)
    have values := list?_encodeNodes words values limit visited' pairs' (by omega)
    refine (tagged?_bind (by decide) (by simp) _).trans ?_
    simp -implicitDefEqProofs [record?_object, Record.required?, targets, values]
  | .branch header body alt, origin, limit, passed, pairs, fits => by
    obtain ⟨_, visited, passed⟩ := bind_eq_ok.mp passed
    obtain ⟨_, visited', passed⟩ := bind_eq_ok.mp passed
    obtain ⟨_, visited'', passed⟩ := bind_eq_ok.mp passed
    cases passed
    simp only [encodeNode, depth, depthOfMembers] at fits
    obtain ⟨pairs, pairs''⟩ := Bool.and_eq_true_iff.mp pairs
    obtain ⟨pairs, pairs'⟩ := Bool.and_eq_true_iff.mp pairs
    have header := list?_encodeNodes words header limit visited pairs (by omega)
    have body := heldNodeWithin?_encodeNode limit
      (fun _ => nodeWith?_encodeNode words body visited' pairs') (by omega)
    have alt := nullable?_encodeOptionalNode words alt limit visited'' pairs'' (by omega)
    refine (tagged?_bind (by decide) (by simp) _).trans ?_
    simp -implicitDefEqProofs [record?_object, Record.required?, Record.optional?, header, body,
      alt]
  | .list items, origin, limit, passed, pairs, fits => by
    obtain ⟨_, visited, passed⟩ := bind_eq_ok.mp passed
    cases passed
    simp only [encodeNode, depth, depthOfMembers] at fits
    have items := list?_encodeNodes words items limit visited pairs (by omega)
    refine (tagged?_bind (by decide) (by simp) _).trans ?_
    simp -implicitDefEqProofs [record?_object, Record.required?, items]

/-- Trees in order are read back. -/
theorem list?_encodeNodes (words : marks.Words) : ∀ (nodes : List Node) (limit : Nat),
    marks.guard.nodes nodes = .ok nodes → Node.pairsAll nodes = true →
      depthOfItems (encodeNodes nodes) ≤ limit →
        list? (heldNodeWithin? limit) (.array (encodeNodes nodes)) = some nodes
  | [], _, _, _, _ => rfl
  | head :: rest, limit, passed, pairs, fits => by
    obtain ⟨_, visited, passed⟩ := bind_eq_ok.mp passed
    obtain ⟨_, visited', passed⟩ := bind_eq_ok.mp passed
    cases passed
    obtain ⟨pairs, pairs'⟩ := Bool.and_eq_true_iff.mp pairs
    simp only [encodeNodes, depthOfItems] at fits
    have head := heldNodeWithin?_encodeNode limit
      (fun _ => nodeWith?_encodeNode words head visited pairs) (by omega)
    exact list?_cons head (list?_encodeNodes words rest limit visited' pairs' (by omega))

/-- A tree or null is read back. -/
theorem nullable?_encodeOptionalNode (words : marks.Words) : ∀ (given : Option Node) (limit : Nat),
    marks.guard.optionalNode given = .ok given → Node.pairsOption given = true →
      depth (encodeOptionalNode given) ≤ limit →
        nullable? (heldNodeWithin? limit) (encodeOptionalNode given) = some given
  | none, _, _, _, _ => rfl
  | some node, limit, passed, pairs, fits => by
    obtain ⟨_, visited, passed⟩ := bind_eq_ok.mp passed
    cases passed
    have back : ∀ given ∈ some node,
        heldNodeWithin? limit (encodeNode given) = some given := by
      rintro _ ⟨⟩
      exact heldNodeWithin?_encodeNode limit
        (fun _ => nodeWith?_encodeNode words node visited pairs) fits
    exact nullable?_nullable encodeNode_ne_null back

/-- Parameters in order are read back. -/
theorem list?_encodeParams (words : marks.Words) : ∀ (params : List Param) (limit : Nat),
    marks.guard.params params = .ok params → Node.pairsParams params = true →
      depthOfItems (encodeParams params) ≤ limit →
        list? (paramWith? (heldNodeWithin? limit)) (.array (encodeParams params)) = some params
  | [], _, _, _, _ => rfl
  | ⟨name, nameSpan, typeSpan, typeNode⟩ :: rest, limit, passed, pairs, fits => by
    obtain ⟨_, visited, passed⟩ := bind_eq_ok.mp passed
    obtain ⟨_, visited', passed⟩ := bind_eq_ok.mp passed
    cases passed
    obtain ⟨pairs, pairs'⟩ := Bool.and_eq_true_iff.mp pairs
    simp only [encodeParams, encodeParam, depthOfItems, depth, depthOfMembers] at fits
    have alone : Node.pairsParams [⟨name, nameSpan, typeSpan, typeNode⟩] = true :=
      Bool.and_eq_true_iff.mpr ⟨pairs, rfl⟩
    have head := paramWith?_encodeParam words visited alone fun typed together =>
      heldNodeWithin?_encodeNode limit
        (fun _ => nodeWith?_encodeNode words typeNode typed together)
        (show depth (encodeNode typeNode) ≤ limit by omega)
    exact list?_cons head (list?_encodeParams words rest limit visited' pairs' (by omega))

end

/-! ## All that is written is readable -/

/-- The document of a span has no unreadable part. -/
theorem isReadable_encodeSpan (span : Span) : (encodeSpan span).isReadable = true := rfl

/-- A value or null is readable. -/
theorem isReadable_nullable {α : Type} {encode : α → Json}
    (each : ∀ value, (encode value).isReadable = true) (value : Option α) :
    (nullable encode value).isReadable = true := by
  cases value with
  | none => rfl
  | some value => exact each value

/-- Values are readable in a row if each of them is. -/
theorem areReadable_map {α : Type} {encode : α → Json} {values : List α}
    (each : ∀ value ∈ values, (encode value).isReadable = true) :
    areReadable (values.map encode) = true := by
  induction values with
  | nil => rfl
  | cons head rest ih =>
    rw [List.map_cons, areReadable, each head List.mem_cons_self,
      ih fun value member => each value (List.mem_cons_of_mem _ member)]
    rfl

mutual

/-- The document of a tree has no unreadable part. -/
theorem isReadable_encodeNode : ∀ node : Node, (encodeNode node).isReadable = true
  | .ident _ _ => rfl
  | .selector base _ _ => by
    simp [encodeNode, isReadable, haveReadable, isReadable_encodeNode base, isReadable_encodeSpan]
  | .call func args => by
    simp [encodeNode, isReadable, haveReadable, isReadable_encodeNode func,
      areReadable_encodeNodes args]
  | .composite type elems => by
    simp [encodeNode, isReadable, haveReadable, isReadable_encodeOptionalNode type,
      areReadable_encodeNodes elems]
  | .keyValue key value => by
    simp [encodeNode, isReadable, haveReadable, isReadable_encodeNode key,
      isReadable_encodeNode value]
  | .unary _ operand => by
    simp [encodeNode, isReadable, haveReadable, isReadable_encodeNode operand]
  | .binary left right => by
    simp [encodeNode, isReadable, haveReadable, isReadable_encodeNode left,
      isReadable_encodeNode right]
  | .index base indices => by
    simp [encodeNode, isReadable, haveReadable, isReadable_encodeNode base,
      areReadable_encodeNodes indices]
  | .typeAssert base type => by
    simp [encodeNode, isReadable, haveReadable, isReadable_encodeNode base,
      isReadable_encodeOptionalNode type]
  | .typeExpr _ parts => by
    simp [encodeNode, isReadable, haveReadable, areReadable_encodeNodes parts]
  | .literal _ => rfl
  | .funcLit params results body => by
    simp [encodeNode, isReadable, haveReadable, areReadable_encodeParams params,
      areReadable_encodeParams results, isReadable_encodeNode body]
  | .block _ stmts => by
    simp [encodeNode, isReadable, haveReadable, isReadable_encodeSpan,
      areReadable_encodeNodes stmts]
  | .define names type values => by
    have bindings : areReadable (names.map encodeBinding) = true := areReadable_map fun _ _ => rfl
    simp [encodeNode, isReadable, haveReadable, bindings, isReadable_encodeOptionalNode type,
      areReadable_encodeNodes values]
  | .assign targets values => by
    simp [encodeNode, isReadable, haveReadable, areReadable_encodeNodes targets,
      areReadable_encodeNodes values]
  | .branch header body alt => by
    simp [encodeNode, isReadable, haveReadable, areReadable_encodeNodes header,
      isReadable_encodeNode body, isReadable_encodeOptionalNode alt]
  | .list items => by
    simp [encodeNode, isReadable, haveReadable, areReadable_encodeNodes items]

/-- Trees in order are readable. -/
theorem areReadable_encodeNodes : ∀ nodes : List Node, areReadable (encodeNodes nodes) = true
  | [] => rfl
  | head :: rest => by
    rw [encodeNodes, areReadable, isReadable_encodeNode head, areReadable_encodeNodes rest]
    rfl

/-- A tree or null is readable. -/
theorem isReadable_encodeOptionalNode :
    ∀ given : Option Node, (encodeOptionalNode given).isReadable = true
  | none => rfl
  | some node => isReadable_encodeNode node

/-- Parameters in order are readable. -/
theorem areReadable_encodeParams : ∀ params : List Param, areReadable (encodeParams params) = true
  | [] => rfl
  | ⟨name, nameSpan, typeSpan, typeNode⟩ :: rest => by
    have texts : (nullable .string name).isReadable = true :=
      isReadable_nullable (fun _ => rfl) name
    have spans := isReadable_nullable isReadable_encodeSpan nameSpan
    simp [encodeParams, encodeParam, areReadable, isReadable, haveReadable, texts, spans,
      isReadable_encodeSpan, isReadable_encodeNode typeNode, areReadable_encodeParams rest]

end

/-! ## Trees that stand in a document -/

/-- A tree is read back from within a held value. -/
theorem heldNode?_encodeNode (words : marks.Words) {node : Node}
    (passed : marks.guard.node node = .ok node) (pairs : node.pairs = true) :
    heldNode? (encodeNode node) = some node :=
  heldNodeWithin?_encodeNode _ (fun _ => nodeWith?_encodeNode words node passed pairs)
    (Nat.le_refl _)

/-- A tree is read back from a document. -/
theorem node?_encodeNode (words : marks.Words) {node : Node}
    (passed : marks.guard.node node = .ok node) (pairs : node.pairs = true) :
    node? (encodeNode node) = some node := by
  rw [node?, whole?, if_pos (isReadable_encodeNode node)]
  exact nodeWith?_encodeNode words node passed pairs (Nat.le_succ _)

/-- A tree or null is read back from a document. -/
theorem nullable?_node? (words : marks.Words) {given : Option Node}
    (passed : marks.guard.optionalNode given = .ok given) (pairs : Node.pairsOption given = true) :
    nullable? node? (encodeOptionalNode given) = some given := by
  cases given with
  | none => rfl
  | some node =>
    obtain ⟨_, visited, passed⟩ := bind_eq_ok.mp passed
    cases passed
    have back : ∀ given ∈ some node, node? (encodeNode given) = some given := by
      rintro _ ⟨⟩
      exact node?_encodeNode words visited pairs
    exact nullable?_nullable encodeNode_ne_null back

/-- Trees in order are read back from within a held value. -/
theorem list?_heldNode? (words : marks.Words) : ∀ {nodes : List Node},
    marks.guard.nodes nodes = .ok nodes → Node.pairsAll nodes = true →
      list? heldNode? (.array (encodeNodes nodes)) = some nodes
  | [], _, _ => rfl
  | head :: rest, passed, pairs => by
    obtain ⟨_, visited, passed⟩ := bind_eq_ok.mp passed
    obtain ⟨_, visited', passed⟩ := bind_eq_ok.mp passed
    cases passed
    obtain ⟨pairs, pairs'⟩ := Bool.and_eq_true_iff.mp pairs
    exact list?_cons (heldNode?_encodeNode words visited pairs)
      (list?_heldNode? words visited' pairs')

/-- Parameters in order are read back, if the trees in them are. -/
theorem list?_paramWith? (words : marks.Words) {node? : Json → Option Node}
    (read : ∀ node, marks.guard.node node = .ok node → node.pairs = true →
      node? (encodeNode node) = some node) : ∀ {params : List Param},
    marks.guard.params params = .ok params → Node.pairsParams params = true →
      list? (paramWith? node?) (.array (encodeParams params)) = some params
  | [], _, _ => rfl
  | ⟨name, nameSpan, typeSpan, typeNode⟩ :: rest, passed, pairs => by
    obtain ⟨_, visited, passed⟩ := bind_eq_ok.mp passed
    obtain ⟨_, visited', passed⟩ := bind_eq_ok.mp passed
    cases passed
    obtain ⟨pairs, pairs'⟩ := Bool.and_eq_true_iff.mp pairs
    have alone : Node.pairsParams [⟨name, nameSpan, typeSpan, typeNode⟩] = true :=
      Bool.and_eq_true_iff.mpr ⟨pairs, rfl⟩
    exact list?_cons (paramWith?_encodeParam words visited alone fun typed together =>
      read typeNode typed together) (list?_paramWith? words read visited' pairs')

end Snapshot

end GoRefactor
