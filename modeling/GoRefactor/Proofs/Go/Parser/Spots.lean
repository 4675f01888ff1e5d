import GoRefactor.Proofs.Go.Parser.Fixed
import GoRefactor.Proofs.Go.Parser.Formed
import GoRefactor.Proofs.Go.Parser.TidyFile
import Mathlib.Data.List.Flatten
import Mathlib.Data.List.Lattice
import Mathlib.Data.List.Nodup

/-!
# Where declared names stand

The names that a file declares stand at different spots, and no walk over the file passes one of
them: a name that is declared is taken from the tokens once, and is no use of anything. The one name
that is both declared and used is that of an embedded field, which is left out here.
-/

namespace GoRefactor

/-- The spots are different, none of them is passed, and both lie between two offsets. -/
structure Spots (low high : Nat) (spots passes : List Span) : Prop where
  order : low ≤ high
  distinct : spots.Nodup
  apart : spots.Disjoint passes
  within : Within low high (spots ++ passes)

namespace Spots

variable {low middle high : Nat} {spots spots' passes passes' : List Span}

/-- Where nothing is declared and nothing passed, no place is needed. -/
theorem nil (order : low ≤ high) : Spots low high [] [] :=
  ⟨order, List.nodup_nil, List.disjoint_nil_left _, .nil _ _⟩

/-- A name that is declared stands in its own span. -/
theorem name {span : Span} (within : Within low high [span]) : Spots low high [span] [] :=
  ⟨within.le, List.nodup_singleton _, List.disjoint_nil_right _, within⟩

/-- Names that are only passed stand where they were read. -/
theorem passed (order : low ≤ high) (within : Within low high passes) : Spots low high [] passes :=
  ⟨order, List.nodup_nil, List.disjoint_nil_left _, within⟩

/-- The offsets may be further apart. -/
theorem mono {low' high' : Nat} (placed : Spots low high spots passes) (below : low' ≤ low)
    (above : high ≤ high') : Spots low' high' spots passes :=
  ⟨Nat.le_trans below (Nat.le_trans placed.order above), placed.distinct, placed.apart,
    placed.within.mono below above⟩

/-- Reading may go on behind what stands between two offsets. -/
theorem upTo (placed : Spots low middle spots passes) (above : middle ≤ high) :
    Spots low high spots passes := placed.mono (Nat.le_refl low) above

/-- Names that are read behind others stand behind them. -/
theorem append (first : Spots low middle spots passes) (second : Spots middle high spots' passes') :
    Spots low high (spots ++ spots') (passes ++ passes') := by
  have apart := first.within.disjoint second.within
  obtain ⟨spotsApart, passesApart⟩ := List.disjoint_append_left.mp apart
  refine ⟨Nat.le_trans first.order second.order, ?_, ?_, ?_⟩
  · exact List.nodup_append'.mpr
      ⟨first.distinct, second.distinct, (List.disjoint_append_right.mp spotsApart).1⟩
  · refine List.disjoint_append_left.mpr ⟨List.disjoint_append_right.mpr ⟨first.apart, ?_⟩,
      List.disjoint_append_right.mpr ⟨?_, second.apart⟩⟩
    · exact (List.disjoint_append_right.mp spotsApart).2
    · exact (List.disjoint_append_right.mp passesApart).1.symm
  · refine (first.within.append second.within first.order second.order).subset ?_
    intro span member
    simp only [List.mem_append] at member ⊢
    exact member.elim (Or.imp Or.inl Or.inl) (Or.imp Or.inr Or.inr)

/-- Some of the names, in any order, stand between the same offsets. -/
theorem fewer (placed : Spots low high spots passes) (some : spots'.Subperm spots)
    (others : passes' ⊆ passes) : Spots low high spots' passes' := by
  have subset := some.subset
  obtain ⟨order, same, sublist⟩ := some
  refine ⟨placed.order, same.nodup_iff.mp (placed.distinct.sublist sublist), fun span here there =>
    placed.apart (subset here) (others there), placed.within.subset ?_⟩
  exact List.append_subset.mpr
    ⟨fun span here => List.mem_append_left _ (subset here),
      fun span there => List.mem_append_right _ (others there)⟩

end Spots

/-! ## Spots of parameters -/

/-- Where the parameter has its name. -/
def Param.spots (param : Param) : List Span := param.nameSpan.toList

/-- Names of parameters lie between two offsets. -/
abbrev Param.Placed (low high : Nat) (params : List Param) : Prop :=
  Spots low high (params.flatMap Param.spots) (Node.passesParams none params)

namespace ParamEntry

/-- Where the entry of a parameter list may have a name: in front of the type, or in place of it. -/
def spots (entry : ParamEntry) : List Span :=
  match entry.name, entry.typeNode with
  | some token, _ => [token.span]
  | none, .ident _ span => [span]
  | none, _ => []

/-- The names that its type passes, if it is no name. -/
def passes (entry : ParamEntry) : List Span :=
  match entry.name, entry.typeNode with
  | some _, node => node.passes
  | none, .ident _ _ => []
  | none, node => node.passes

/-- Entries lie between two offsets. -/
abbrev Placed (low high : Nat) (entries : List ParamEntry) : Prop :=
  Spots low high (entries.flatMap spots) (entries.flatMap passes)

variable {low middle high : Nat}

/-- A name, if there is one, and a type. -/
theorem placed {name : Option Token} {span : Span} {node : Node}
    (named : Spots low middle (name.map (·.span)).toList []) (typed : node.Neat middle high) :
    Spots low high (spots ⟨name, span, node⟩) (passes ⟨name, span, node⟩) := by
  have behind := Spots.passed typed.order typed.within
  cases name with
  | some token => exact named.append behind
  | none =>
    have whole := named.append behind
    cases node with
    | ident text place =>
      have within : Within low high [place] := typed.within.mono named.order (Nat.le_refl high)
      exact .name within
    | _ => exact whole

/-- What the type passes is the name or is passed. -/
theorem typePasses_subset (entry : ParamEntry) :
    entry.typeNode.passes ⊆ entry.spots ++ entry.passes := by
  obtain ⟨name, span, node⟩ := entry
  cases name with
  | some token => exact List.subset_append_right _ _
  | none =>
    cases node with
    | ident text place => exact List.Subset.refl _
    | _ => exact List.subset_append_right _ _

end ParamEntry

/-- Parameters pass no more than their types. -/
theorem Node.passesParams_subset (previous : Option Span) (params : List Param) :
    passesParams previous params ⊆ passesAll (paramTypes params) := by
  induction params generalizing previous with
  | nil => exact List.nil_subset _
  | cons param rest ih =>
    obtain ⟨name, nameSpan, typeSpan, typeNode⟩ := param
    intro span member
    rw [passesParams] at member
    rcases List.mem_append.mp member with here | there
    · split at here
      · cases here
      · exact List.mem_append_left _ here
    · exact List.mem_append_right _ (ih _ there)

/-- The names of parameters are those of entries and those that waited, and the types are those of
entries with a name. -/
theorem spots_namedParams (waiting : List Binding) (entries : List ParamEntry) :
    ((namedParams waiting entries).flatMap Param.spots).Sublist
        (waiting.map (·.span) ++ entries.flatMap ParamEntry.spots) ∧
      Node.passesAll (paramTypes (namedParams waiting entries)) ⊆
        entries.flatMap ParamEntry.passes := by
  fun_induction namedParams waiting entries with
  | case1 => exact ⟨List.nil_sublist _, List.nil_subset _⟩
  | case2 waiting entry rest token named ih =>
    have here : entry.spots = [token.span] ∧ entry.passes = entry.typeNode.passes := by
      rw [ParamEntry.spots, ParamEntry.passes, named]
      exact ⟨rfl, rfl⟩
    rw [List.flatMap_cons, List.flatMap_cons, here.1, here.2, List.flatMap_append]
    have waited : (waiting.map fun binding =>
        (⟨some binding.name, some binding.span, entry.typeSpan, entry.typeNode⟩ : Param)).flatMap
          Param.spots = waiting.map (·.span) := by
      rw [List.flatMap_map]
      exact List.map_eq_flatMap.symm
    refine ⟨?_, ?_⟩
    · rw [waited]
      exact (ih.1.cons_cons token.span).append_left _
    · intro span member
      rw [paramTypes, List.map_append, Node.passesAll_append] at member
      rcases List.mem_append.mp member with shared | later
      · refine List.mem_append_left _ ?_
        rw [Node.passesAll_eq_flatMap] at shared
        obtain ⟨node, listed, inside⟩ := List.mem_flatMap.mp shared
        rw [List.map_map] at listed
        obtain ⟨binding, -, rfl⟩ := List.mem_map.mp listed
        exact inside
      · exact (List.mem_append.mp later).elim (List.mem_append_left _)
          fun behind => List.mem_append_right _ (ih.2 behind)
  | case3 waiting entry rest named name span node ih =>
    have here : entry.spots = [span] := by
      rw [ParamEntry.spots, named, node]
    rw [List.flatMap_cons, List.flatMap_cons, here, ← List.append_assoc]
    rw [List.map_append] at ih
    exact ⟨ih.1, List.Subset.trans ih.2 (List.subset_append_right _ _)⟩
  | case4 waiting entry rest named other ih =>
    rw [List.flatMap_cons, List.flatMap_cons]
    exact ⟨ih.1.trans ((List.sublist_append_right _ _).append_left _),
      List.Subset.trans ih.2 (List.subset_append_right _ _)⟩

/-- Parameters stand where the entries stand that they are made from. -/
theorem Param.placed_paramsOf {low high : Nat} {entries : List ParamEntry}
    (placed : ParamEntry.Placed low high entries) : Param.Placed low high (paramsOf entries) := by
  unfold paramsOf
  split
  · have unnamed : (entries.map fun entry =>
        (⟨none, none, entry.typeSpan, entry.typeNode⟩ : Param)).flatMap Param.spots = [] := by
      rw [List.flatMap_map]
      exact List.flatMap_eq_nil_iff.mpr fun _ _ => rfl
    rw [Param.Placed, unnamed]
    refine .passed placed.order (placed.within.subset fun span member => ?_)
    have typed := Node.passesParams_subset none _ member
    rw [paramTypes, List.map_map, Node.passesAll_eq_flatMap] at typed
    obtain ⟨node, listed, inside⟩ := List.mem_flatMap.mp typed
    obtain ⟨entry, held, rfl⟩ := List.mem_map.mp listed
    rcases List.mem_append.mp (entry.typePasses_subset inside) with spot | passed
    · exact List.mem_append_left _ (List.mem_flatMap.mpr ⟨entry, held, spot⟩)
    · exact List.mem_append_right _ (List.mem_flatMap.mpr ⟨entry, held, passed⟩)
  · obtain ⟨some, others⟩ := spots_namedParams [] entries
    exact placed.fewer some.subperm
      (List.Subset.trans (Node.passesParams_subset none _) others)

/-! ## Spots of declarations -/

/-- Where fields and methods have their names, embedded fields apart. -/
def TypeShape.spots : TypeShape → List Span
  | .struct fields => (fields.filter fun field => !field.embedded).map (·.nameSpan)
  | .interface methods _ => methods.map (·.nameSpan)
  | .other _ => []

/-- Where a function and its parameters have their names. -/
def FuncDecl.spots (decl : FuncDecl) : List Span :=
  decl.nameSpan :: decl.allParams.flatMap Param.spots

/-- Where the names stand that are declared. -/
def TopDecl.spots : TopDecl → List Span
  | .importing _ => []
  | .type decl => decl.nameSpan :: decl.shape.spots
  | .function decl => decl.spots
  | .var decl | .const decl => [decl.nameSpan]

/-- Declared names stand at different spots, and none is passed. -/
abbrev TopDecl.Placed (low high : Nat) (decls : List TopDecl) : Prop :=
  Spots low high (decls.flatMap TopDecl.spots) (decls.flatMap TopDecl.passes)

/-! ## Reading names -/

namespace Parse

variable {low place : Nat}

/-- Names among tokens that are taken lie behind each other. -/
theorem spots_taken {cursor : Cursor} (ordered : cursor.Ordered) {count : Nat} {tokens : List Token}
    (some : tokens.Sublist (cursor.ahead.take count))
    (named : ∀ token ∈ tokens, token.kind = .identifier) :
    Spots cursor.lastEnd (cursor.advanceBy count).lastEnd (tokens.map (·.span)) [] := by
  have ahead {token : Token} (member : token ∈ tokens) : token ∈ cursor.ahead :=
    List.mem_of_mem_take (some.subset member)
  have filled {token : Token} (member : token ∈ tokens) : token.span.start < token.span.stop :=
    ordered.names token (ahead member) (named token member)
  refine ⟨ordered.lastEnd_le_advanceBy count, ?_, List.disjoint_nil_right _, ?_⟩
  · rw [List.nodup_iff_pairwise_ne, List.pairwise_map]
    refine (ordered.sorted.sublist (some.trans (List.take_sublist _ _))).imp_of_mem ?_
    intro earlier later member _ behind same
    have proper := filled member
    rw [same] at behind proper
    omega
  · rw [List.append_nil]
    intro span member
    obtain ⟨token, inside, rfl⟩ := List.mem_map.mp member
    refine ⟨ordered.behind token (ahead inside), filled inside,
      ordered.stop_le_lastEnd (some.subset inside) ?_⟩
    unfold Token.isTerminator
    rw [named token inside]
    rfl

/-- Names in front are some of the tokens that they take. -/
theorem nameRun_sublist (tokens : List Token) :
    (nameRun tokens).1.Sublist (tokens.take (nameRun tokens).2) ∧
      ∀ token ∈ (nameRun tokens).1, token.kind = .identifier := by
  fun_induction nameRun tokens with
  | case1 => simp
  | case2 token named => simpa using named
  | case3 token named comma more separated names count found ih =>
    rw [found] at ih
    exact ⟨(ih.1.cons comma).cons_cons token, List.forall_mem_cons.mpr ⟨eq_of_beq named, ih.2⟩⟩
  | case4 token named => simpa using named
  | case5 => simp

/-- Names in front of a list stand where they were read. -/
theorem reads_names (low : Nat) (after : low ≤ place) :
    Reads place (fun stop tokens => Spots low stop (tokens.map (·.span)) []) names := by
  rintro cursor ordered rfl
  obtain ⟨some, named⟩ := nameRun_sublist cursor.ahead
  exact (spots_taken ordered some named).mono after (Nat.le_refl _)

/-- Names behind commas stand where they were read. -/
theorem reads_moreNames (low : Nat) (after : low ≤ place) :
    Reads place (fun stop tokens => Spots low stop (tokens.map (·.span)) []) moreNames := by
  rintro cursor ordered rfl
  obtain ⟨some, named⟩ := furtherNames_sublist cursor.ahead
  exact (spots_taken ordered some named).mono after (Nat.le_refl _)

/-- A name that may come next stands where it was read. -/
theorem reads_takeIf {test : Parse Bool} (tells : TellsName test) (low : Nat)
    (after : low ≤ place) :
    Reads place (fun stop token => Spots low stop (token.map (·.span)).toList [])
      (takeIf test) := by
  unfold takeIf
  exact .name tells (fun stop token within => .pure (.name (within.mono after (Nat.le_refl _))))
    (.pure (.nil after))

/-! ## Reading declarations -/

/-- Entries of a parameter list stand where they were read. -/
theorem reads_paramEntries (fuel low : Nat) (after : low ≤ place) :
    Reads place (ParamEntry.Placed low) (paramEntries fuel) := by
  induction fuel generalizing low place with
  | zero => exact .pure (.nil after)
  | succ fuel ih =>
    simp only [Parse.paramEntries]
    refine .behind fun _ _ _ => .behind fun _ _ _ => .behind fun _ _ _ =>
      .ite (.pure (.nil (by omega))) ?_
    refine .behind fun _ _ _ => .bind (reads_takeIf tellsName_paramIsNamed low (by omega))
      fun _ _ _ named => .behind fun _ _ _ => .bind (tidy_type _ (by assumption))
      fun _ _ _ typed => .behind fun _ _ _ => .behind fun _ _ _ => .behind fun _ _ _ => ?_
    exact .bind (ih _ (by omega)) fun _ _ _ others =>
      .pure ((ParamEntry.placed named typed).append others)

/-- Parameters stand where they were read. -/
theorem reads_params (fuel low : Nat) (after : low ≤ place) :
    Reads place (Param.Placed low) (params fuel) := by
  cases fuel with
  | zero => exact .pure (.nil after)
  | succ fuel =>
    simp only [Parse.params]
    exact .behind fun _ _ _ => .ite
      (.bind (reads_paramEntries fuel low (by omega)) fun _ _ _ entries =>
        .pure (Param.placed_paramsOf entries))
      (.pure (.nil (by omega)))

/-- Results stand where they were read. -/
theorem reads_results (fuel low : Nat) (after : low ≤ place) :
    Reads place (Param.Placed low) (results fuel) := by
  cases fuel with
  | zero => exact .pure (.nil after)
  | succ fuel =>
    simp only [Parse.results]
    refine .behind fun _ _ _ => .ite (reads_params fuel low (by omega)) ?_
    refine .behind fun _ _ _ => .ite ?_ (.pure (.nil (by omega)))
    exact .behind fun _ _ _ => .bind (tidy_type low (by omega)) fun _ _ _ type =>
      .behind fun _ _ _ => .pure
        (.passed (type.upTo (by omega)).order
          (Node.NeatParams.single (type.upTo (by omega))).within)

/-- Names of fields lie between two offsets, embedded fields apart. -/
abbrev FieldsPlaced (low high : Nat) (fields : List Field) : Prop :=
  Spots low high (TypeShape.struct fields).spots (TypeShape.struct fields).passes

/-- Fields that are read behind others stand behind them. -/
theorem FieldsPlaced.append {middle high : Nat} {first second : List Field}
    (here : FieldsPlaced low middle first) (there : FieldsPlaced middle high second) :
    FieldsPlaced low high (first ++ second) := by
  have both := Spots.append here there
  simpa only [FieldsPlaced, TypeShape.spots, TypeShape.passes, List.filter_append, List.map_append,
    Node.passesAll_append] using both

/-- Fields that share a type pass no more than it. -/
theorem passes_shared {fields : List Field} {node : Node}
    (same : ∀ field ∈ fields, field.typeNode = node) :
    (TypeShape.struct fields).passes ⊆ node.passes := by
  intro span member
  rw [TypeShape.passes, Node.passesAll_eq_flatMap] at member
  obtain ⟨part, listed, inside⟩ := List.mem_flatMap.mp member
  obtain ⟨field, held, rfl⟩ := List.mem_map.mp listed
  exact same field held ▸ inside

/-- The fields of one line of a struct stand where they were read. -/
theorem reads_fieldLine (fuel : Nat) (doc : Option String) (low : Nat) (after : low ≤ place) :
    Reads place (FieldsPlaced low) (fieldLine fuel doc) := by
  cases fuel with
  | zero => exact .pure (.nil after)
  | succ fuel =>
    simp only [Parse.fieldLine]
    refine .name tellsName_fieldIsNamed (fun stop first within => ?_) ?_
    · have named : Spots low stop [first.span] [] := .name (within.mono after (Nat.le_refl _))
      refine .bind (reads_moreNames stop (Nat.le_refl _)) fun _ others _ more =>
        .behind fun _ _ _ =>
        .bind (tidy_type _ (by assumption)) fun _ node _ typed =>
        .behind fun _ typeSpan _ => .pure ?_
      have whole := (named.append more).append
        (.passed (typed.upTo (by assumption)).order (typed.upTo (by assumption)).within)
      refine whole.fewer (List.Sublist.subperm ?_)
        (passes_shared (List.forall_mem_map.mpr fun _ _ => rfl))
      rw [TypeShape.spots, List.append_nil, List.filter_map, List.map_map]
      exact List.filter_sublist.map _
    · refine .behind fun _ _ _ => .bind (tidy_type low (by omega)) fun _ node _ typed =>
        .behind fun _ typeSpan _ => .pure ?_
      have whole := Spots.passed (typed.upTo (by assumption)).order
        (typed.upTo (by assumption)).within
      unfold Field.embedding
      split
      · exact .nil whole.order
      · exact whole.fewer (List.Sublist.subperm (List.Sublist.refl _))
          (passes_shared fun field member => by rw [List.mem_singleton.mp member])

/-- The fields of a struct stand where they were read. -/
theorem reads_fieldLines (fuel low : Nat) (after : low ≤ place) :
    Reads place (FieldsPlaced low) (fieldLines fuel) := by
  induction fuel generalizing low place with
  | zero => exact .pure (.nil after)
  | succ fuel ih =>
    simp only [Parse.fieldLines]
    refine .behind fun _ _ _ => .behind fun _ _ _ => .behind fun _ _ _ =>
      .ite (.pure (.nil (by omega))) ?_
    refine .behind fun _ _ _ => .behind fun _ doc _ =>
      .bind (reads_fieldLine fuel doc low (by omega)) fun _ _ _ fields => .behind fun _ _ _ => ?_
    exact .ite
      (.behind fun _ _ _ => .behind fun _ _ _ => .bind (ih _ (by omega)) fun _ _ _ others =>
        .pure (fields.append others))
      (.behind fun _ _ _ => .bind (ih _ (by omega)) fun _ _ _ others =>
        .pure (fields.append others))

/-- The methods of an interface stand where they were read. -/
theorem reads_interfaceLines (fuel low : Nat) (after : low ≤ place) :
    Reads place (fun stop body => Spots low stop (TypeShape.interface body.1 body.2).spots
      (TypeShape.interface body.1 body.2).passes) (interfaceLines fuel) := by
  induction fuel generalizing low place with
  | zero => exact .pure (.nil after)
  | succ fuel ih =>
    simp only [Parse.interfaceLines]
    refine .behind fun _ _ _ => .behind fun _ _ _ => .behind fun _ _ _ =>
      .ite (.pure (.nil (by omega))) ?_
    refine .behind fun _ _ _ => .name tellsName_methodFollows (fun stop name within => ?_) ?_
    · have named : Spots low stop [name.span] [] := .name (within.mono (by omega) (Nat.le_refl _))
      refine .behind fun _ _ _ => .bind (tidy_params stop (by omega)) fun _ _ _ takes =>
        .bind (tidy_results _ (Nat.le_refl _)) fun behind _ _ gives =>
        .behind fun _ _ _ => .behind fun _ _ _ =>
          .bind (ih behind (by omega)) fun _ body _ others =>
        .pure ?_
      have whole := ((named.append (.passed takes.parts.order takes.within)).append
        (.passed gives.parts.order gives.within)).append others
      obtain ⟨methods, embeds⟩ := body
      simpa only [TypeShape.spots, TypeShape.passes, List.map_cons, List.flatMap_cons,
        InterfaceMethod.passes, List.append_assoc, List.append_nil, List.nil_append,
        List.cons_append] using whole
    · refine .bind (tidy_typeUnion low (by omega)) fun _ union _ typed =>
        .behind fun _ _ _ => .bind (ih _ (by omega)) fun _ body _ others => .pure ?_
      have whole := (Spots.passed typed.order typed.within).append others
      obtain ⟨methods, embeds⟩ := body
      refine whole.fewer (List.Sublist.refl _).subperm fun span member => ?_
      simp only [TypeShape.passes, Node.passesAll_append, List.mem_append] at member ⊢
      tauto

/-- The members of a declared type stand where they were read. -/
theorem reads_shapeSpots (limit low : Nat) (after : low ≤ place) :
    Reads place (fun stop shape => Spots low stop shape.spots shape.passes) (typeShape limit) := by
  have fields {place : Nat} (after : low ≤ place) :
      Reads place (FieldsPlaced low) (structFields limit) := by
    cases limit with
    | zero => exact .pure (.nil after)
    | succ limit =>
      simp only [Parse.structFields]
      exact .behind fun _ _ _ =>
        .ite (reads_fieldLines limit low (by omega)) (.pure (.nil (by omega)))
  have methods {place : Nat} (after : low ≤ place) :
      Reads place (fun stop body => Spots low stop (TypeShape.interface body.1 body.2).spots
        (TypeShape.interface body.1 body.2).passes) (interfaceBody limit) := by
    cases limit with
    | zero => exact .pure (.nil after)
    | succ limit =>
      simp only [Parse.interfaceBody]
      exact .behind fun _ _ _ => .ite (reads_interfaceLines limit low (by omega))
        (.pure (.nil (by omega)))
  unfold typeShape
  refine .behind fun _ _ _ => .ite (.bind (fields (by omega)) fun _ _ _ placed => .pure placed) ?_
  refine .behind fun _ _ _ => .ite (.bind (methods (by omega)) fun _ _ _ placed => .pure placed) ?_
  exact .bind (tidy_type low (by omega)) fun _ _ _ type =>
    .pure (.passed type.order type.within)

/-- A declared type stands where it was read. -/
theorem reads_typeSpots (limit : Nat) (inGroup : Bool) (start : Nat)
    (doc : Option String) (low : Nat)
    (after : low ≤ place) :
    Reads place (TopDecl.Placed low) (typeSpec limit inGroup start doc) := by
  have rest {place middle : Nat} (name : Token) (start : Nat)
      (named : Spots low middle [name.span] [])
      (after : middle ≤ place) : Reads place (TopDecl.Placed low) (do
        skip "="
        let shape ← typeShape limit
        let extent ← spanFrom start
        return [.type ⟨name.text, name.span, extent, shape, doc⟩]) := by
    refine .behind fun _ _ _ => .bind (reads_shapeSpots limit middle (by omega)) fun _ _ _ placed =>
      .behind fun _ _ _ => .pure ?_
    have whole := (named.append placed).upTo (by assumption)
    simpa [TopDecl.Placed, TopDecl.spots, TopDecl.passes] using whole
  unfold typeSpec
  refine .behind fun _ start _ => .name tellsName_isKind (fun stop name within => ?_)
    (.behind fun _ _ _ => .pure (.nil (by omega)))
  have named : Spots low stop [name.span] [] := .name (within.mono (by omega) (Nat.le_refl _))
  exact .behind fun _ _ _ => .ite
    (.behind fun _ _ _ => rest name start named (by omega)) (rest name start named (by omega))

/-- What is paired off are some of the first members. -/
theorem fst_zip_sublist {α β : Type} (first : List α) (second : List β) :
    ((first.zip second).map Prod.fst).Sublist first := by
  induction first generalizing second with
  | nil => exact List.nil_sublist _
  | cons head rest ih =>
    cases second with
    | nil => exact List.nil_sublist _
    | cons other others => exact (ih others).cons_cons head

/-- Names of values lie between two offsets. -/
abbrev ValuesPlaced (low high : Nat) (decls : List ValueDecl) : Prop :=
  Spots low high (decls.map (·.nameSpan)) (decls.flatMap ValueDecl.passes)

/-- Names with one type and values for them stand where all of these were read. -/
theorem placed_valueDecls {middle between high : Nat} {tokens : List Token} (extent : Span)
    {typed : Option (Span × Node)} {values : List Node} (doc : Option String)
    (named : Spots low middle (tokens.map (·.span)) [])
    (first : Node.NeatAll middle between (typed.map Prod.snd).toList)
    (second : Node.NeatAll between high values) :
    ValuesPlaced low high (valueDecls tokens extent typed values doc) := by
  have spread := spread_valueDecls tokens extent doc first second
  have passed : Spots middle high []
      ((valueDecls tokens extent typed values doc).flatMap ValueDecl.passes) := by
    refine .passed spread.order fun span member => ?_
    obtain ⟨decl, held, inside⟩ := List.mem_flatMap.mp member
    exact (spread.each decl held).2 span inside
  refine (named.append passed).fewer (List.Sublist.subperm ?_) (List.Subset.refl _)
  have some := (fst_zip_sublist tokens
    ((firstOnly tokens (typed.map Prod.snd)).zip (distribute tokens values))).map fun token =>
      token.span
  rw [List.map_map] at some
  rw [List.append_nil, valueDecls, List.map_map]
  exact some

/-- Names that are declared together stand where they were read. -/
theorem reads_valueSpots (limit : Nat) (inGroup : Bool) (start : Nat)
    (doc : Option String) (low : Nat)
    (after : low ≤ place) :
    Reads place (ValuesPlaced low) (valueSpec limit inGroup start doc) := by
  unfold valueSpec
  refine .behind fun _ _ _ => .bind (reads_names low (by omega)) fun stop tokens _ named => .ite
    (.behind fun _ _ _ => .pure (.nil (by omega))) ?_
  exact .bind (reads_declaredType (Nat.le_refl stop)) fun _ _ _ type =>
    .bind (reads_initialValues (Nat.le_refl _)) fun _ _ _ values => .behind fun _ extent _ =>
      .pure ((placed_valueDecls extent doc named type values).upTo (by assumption))

/-- The receiver of a method stands where it was read. -/
theorem reads_receiverSpots (limit low : Nat) (after : low ≤ place) :
    Reads place (fun stop receiver => Spots low stop (receiver.toList.flatMap Param.spots)
      (Node.passesAll (receiver.map (·.typeNode)).toList)) (receiver limit) := by
  unfold receiver
  refine .behind fun _ _ _ => .ite ?_ (.pure (.nil (by omega)))
  refine .bind (reads_params limit low (by omega)) fun _ params _ placed => .pure ?_
  cases params with
  | nil => exact .nil placed.order
  | cons first others =>
    obtain ⟨name, nameSpan, typeSpan, typeNode⟩ := first
    refine placed.fewer (List.Sublist.subperm ?_) ?_
    · exact (List.nil_sublist _).append_left _
    · exact List.append_subset.mpr ⟨List.subset_append_left _ _, List.nil_subset _⟩

/-- The parts of a function lie behind each other. -/
theorem placed_function {decl : FuncDecl} {first second third fourth high : Nat}
    (receiver : Spots low first (decl.receiver.toList.flatMap Param.spots)
      (Node.passesAll (decl.receiver.map (·.typeNode)).toList))
    (named : Spots first second [decl.nameSpan] []) (params : Param.Placed second third decl.params)
    (results : Param.Placed third fourth decl.results)
    (body : Node.LieAll fourth high decl.body.toList) :
    TopDecl.Placed low high [.function decl] := by
  obtain ⟨order, -, within⟩ := body.option
  have whole := (((receiver.append named).append params).append results).append
    (.passed order within)
  refine whole.fewer (List.Perm.subperm ?_) ?_
  · simp only [List.flatMap_cons, List.flatMap_nil, List.append_nil, TopDecl.spots, FuncDecl.spots,
      FuncDecl.allParams, List.flatMap_append, List.append_assoc, List.cons_append, List.nil_append]
    exact List.perm_middle.symm
  · simp only [List.flatMap_cons, List.flatMap_nil, List.append_nil, TopDecl.passes,
      FuncDecl.passes, List.append_assoc]
    exact List.Subset.refl _

/-- A function or method stands where it was read. -/
theorem reads_funcSpots (limit low : Nat) (after : low ≤ place) :
    Reads place (TopDecl.Placed low) (funcDecl limit) := by
  have rest {place first second : Nat} {receiver : Option Param} (doc : Option String)
      (keyword name : Token)
      (given : Spots low first (receiver.toList.flatMap Param.spots)
        (Node.passesAll (receiver.map (·.typeNode)).toList))
      (named : Spots first second [name.span] []) (after : second ≤ place) :
      Reads place (TopDecl.Placed low) (do
        let start ← nextStart
        let params ← params limit
        let results ← results limit
        let signatureSpan ← spanFrom start
        let body ← funcBody limit
        let extent ← spanFrom keyword.span.start
        return [.function
          ⟨name.text, name.span, extent, receiver, params, results, signatureSpan, body,
            doc⟩]) := by
    exact .behind fun _ _ _ => .bind (reads_params limit second (by omega)) fun _ _ _ takes =>
      .bind (reads_results limit _ (Nat.le_refl _)) fun _ _ _ gives => .behind fun _ _ _ =>
      .bind (reads_funcBody _ (by assumption)) fun _ _ _ body => .behind fun _ _ _ =>
        .pure ((placed_function given named takes gives body).upTo (by omega))
  unfold funcDecl
  refine .behind fun _ doc _ => .behind fun _ keyword _ =>
    .bind (reads_receiverSpots limit low (by omega)) fun stop _ _ given =>
    .name tellsName_isKind (fun next name within => ?_) (.behind fun _ _ _ => .pure (.nil ?_))
  · have named : Spots stop next [name.span] [] := .name within
    exact .behind fun _ _ _ => .ite
      (.behind fun _ _ _ => rest doc keyword name given named (by omega))
      (rest doc keyword name given named (by omega))
  · have placed := given.order
    omega

/-- Declarations behind declarations are placed. -/
theorem placed_append {low middle high : Nat} {first second : List TopDecl}
    (here : TopDecl.Placed low middle first) (there : TopDecl.Placed middle high second) :
    TopDecl.Placed low high (first ++ second) := by
  have both := here.append there
  simpa only [TopDecl.Placed, List.flatMap_append] using both

/-- The declarations that start at the next token. -/
theorem reads_topLevelSpots (limit low : Nat) (after : low ≤ place) :
    Reads place (TopDecl.Placed low) (topLevel limit) := by
  have joinValues {low middle high : Nat} {first second : List ValueDecl}
      (here : ValuesPlaced low middle first) (there : ValuesPlaced middle high second) :
      ValuesPlaced low high (first ++ second) := by
    have both := here.append there
    simpa only [ValuesPlaced, List.map_append, List.flatMap_append] using both
  unfold topLevel
  refine .behind fun _ inGroup _ => .behind fun _ start _ => ?_
  refine .behind fun _ _ _ => .ite (reads_grouped .nil placed_append (fun _ low _ after => ?_)
    (by omega)) ?_
  · unfold importSpec
    exact .behind fun _ _ _ => .behind fun _ _ _ => .ite
      (.behind fun _ _ _ => .pure (.nil (by omega))) (.behind fun _ _ _ => .pure (.nil (by omega)))
  refine .behind fun _ _ _ => .ite (reads_grouped .nil placed_append
    (fun doc low _ after => reads_typeSpots limit inGroup start doc low after) (by omega)) ?_
  refine .behind fun _ _ _ => .ite (reads_funcSpots limit low (by omega)) ?_
  have values (make : ValueDecl → TopDecl) (spots : ∀ decl, (make decl).spots = [decl.nameSpan])
      (passes : ∀ decl, (make decl).passes = decl.passes) {place : Nat} (after : low ≤ place) :
      Reads place (TopDecl.Placed low)
        (List.map make <$> grouped limit (valueSpec limit inGroup start)) := by
    refine .map (reads_grouped .nil joinValues
      (fun doc low _ after => reads_valueSpots limit inGroup start doc low after) after)
      fun _ decls _ placed => ?_
    rw [ValuesPlaced, List.map_eq_flatMap] at placed
    simpa only [TopDecl.Placed, List.flatMap_map, spots, passes] using placed
  refine .behind fun _ _ _ => .ite (values .var (fun _ => rfl) (fun _ => rfl) (by omega)) ?_
  refine .behind fun _ _ _ => .ite (values .const (fun _ => rfl) (fun _ => rfl) (by omega)) ?_
  exact .behind fun _ _ _ => .pure (.nil (by omega))

/-- Declarations up to the end of the text. -/
theorem reads_declarationSpots (limit rounds low : Nat) (after : low ≤ place) :
    Reads place (TopDecl.Placed low) (declarations limit rounds) :=
  reads_rounds .nil placed_append (fun after => reads_topLevelSpots limit _ after) rounds after

end Parse

namespace SourceFile

open List

/-- Where the names stand that a file declares, embedded fields apart. -/
def spots (file : SourceFile) : List Span := file.decls.flatMap TopDecl.spots

/-- The names that a file passes are those of its declarations. -/
theorem passes_eq_flatMap (file : SourceFile) :
    file.passes = file.decls.flatMap TopDecl.passes := by
  have each : file.declPasses = file.decls.map TopDecl.passes := by
    simp [declPasses, decls, TopDecl.passes, Function.comp_def]
  rw [passes, each, ← flatMap_def]

/-- Adding declarations to a file without any keeps some of their names. -/
theorem spots_foldl_add {low high : Nat} (file : SourceFile) {decls : List TopDecl}
    (none : file.decls = []) (placed : TopDecl.Placed low high decls) :
    Spots low high (decls.foldl SourceFile.add file).spots
      (decls.foldl SourceFile.add file).passes := by
  obtain ⟨kept, same, fewer⟩ := decls_foldl_add file decls
  rw [none, append_nil] at fewer
  have some (view : TopDecl → List Span) (keeps : ∀ decl, view decl.walked = view decl) :
      (decls.foldl SourceFile.add file).decls.flatMap view <+~ decls.flatMap view := by
    have walked : (decls.map TopDecl.walked).flatMap view = decls.flatMap view := by
      rw [flatMap_map]
      exact flatMap_congr fun decl _ => keeps decl
    exact ⟨kept.flatMap view, same.flatMap_right view, walked ▸ fewer.flatMap view⟩
  rw [passes_eq_flatMap]
  exact placed.fewer (some _ fun decl => by cases decl <;> rfl)
    (some _ fun decl => by cases decl <;> rfl).subset

/-- **Declared names stand at different spots, and none is passed.** -/
theorem spots_of_parse {path content : String} {file : SourceFile} {stream : TokenStream}
    (parsed : SourceFile.parse path content = .ok file)
    (scanned : TokenStream.ofChars? content.toList = .ok stream) :
    file.spots.Nodup ∧ file.spots.Disjoint file.passes := by
  obtain ⟨name, decls, found, rfl⟩ := decls_of_parse parsed scanned
  obtain ⟨place, limit, ordered, rfl⟩ := TokenStream.declarations_of_parse scanned found
  have read := Parse.reads_declarationSpots limit limit _ (Nat.le_refl _) place ordered rfl
  have placed := spots_foldl_add
    { SourceFile.blank path content with packageName := name.text, packageSpan := name.span } rfl
      read
  exact ⟨placed.distinct, placed.apart⟩

end SourceFile

end GoRefactor
