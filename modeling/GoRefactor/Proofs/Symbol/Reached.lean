import GoRefactor.Proofs.Symbol.Arrival
import GoRefactor.Proofs.Symbol.Acceptance

/-!
# Visits of a file

The visits that the walk over a file leads to, declaration by declaration. What an index tells of a
name is settled at any visit that passes the name: the index refers from there to a symbol exactly
when the visit finds the symbol there.
-/

namespace GoRefactor

namespace Resolver

open Walking

variable (resolver : Resolver)

/-! ## Visits of declarations -/

/-- Visits of the parameters and results of methods, then of embedded types. -/
def visitsOfInterface (embeds : List Node) : List InterfaceMethod → Scopes → List Visit
  | [], scopes => resolver.visitsAll .type embeds scopes
  | method :: rest, scopes =>
    let withParams := scopesAfter (resolver.visitParams none method.params) scopes
    let withResults := scopesAfter (resolver.visitParams none method.results) withParams
    resolver.visitsParams none method.params scopes ++
      (resolver.visitsParams none method.results withParams ++
        visitsOfInterface embeds rest withResults)

/-- Visits of a declared type. -/
def visitsOfType (decl : TypeDecl) : List Visit :=
  match decl.shape with
  | .struct fields => resolver.visitsAll .type (fields.map (·.typeNode)) []
  | .interface methods embeds => resolver.visitsOfInterface embeds methods []
  | .other underlying => resolver.visits .type underlying []

/-- Visits of a function or method. -/
def visitsOfFunc (decl : FuncDecl) : List Visit :=
  let receivers := (decl.receiver.map (·.typeNode)).toList
  let withReceiver := scopesAfter (resolver.visitAll .type receivers) []
  let withParams := scopesAfter (resolver.visitParams none decl.params) withReceiver
  let withResults := scopesAfter (resolver.visitParams none decl.results) withParams
  resolver.visitsAll .type receivers [] ++
    (resolver.visitsParams none decl.params withReceiver ++
      (resolver.visitsParams none decl.results withParams ++
        resolver.visitsOption .read decl.body (resolver.funcFrame decl :: withResults)))

/-- Visits of a variable or constant. -/
def visitsOfValue (decl : ValueDecl) : List Visit :=
  resolver.visitsOption .type decl.typeNode [] ++
    resolver.visitsOption .read decl.value
      (scopesAfter (resolver.visitOption .type decl.typeNode) [])

/-- Visits of a file. -/
def fileVisits : List Visit :=
  resolver.file.types.values.flatMap resolver.visitsOfType ++
    (resolver.file.functions.values ++ resolver.file.methods).flatMap resolver.visitsOfFunc ++
    (resolver.file.vars.values ++ resolver.file.consts.values ++ resolver.file.blanks).flatMap
      resolver.visitsOfValue

variable {resolver}

/-- Methods and embedded types of an interface are visited in order. -/
theorem tours_interface (embeds : List Node) (methods : List InterfaceMethod) (scopes : Scopes) :
    Tours resolver
      (do
        for method in methods do
          resolver.visitParams none method.params
          resolver.visitParams none method.results
        resolver.visitAll .type embeds)
      scopes (resolver.visitsOfInterface embeds methods scopes)
      (methods.flatMap InterfaceMethod.passes ++ Node.passesAll embeds)
      ((TypeShape.interface methods embeds).Tidy) := by
  unfold TypeShape.Tidy
  induction methods generalizing scopes with
  | nil =>
    exact (tours_visitAll .type embeds scopes).weaken fun tidy => tidy.2.2.1
  | cons head rest ih =>
    have spans : (head :: rest).flatMap InterfaceMethod.passes ++ Node.passesAll embeds =
        Node.passesParams none head.params ++ (Node.passesParams none head.results ++
          (rest.flatMap InterfaceMethod.passes ++ Node.passesAll embeds)) := by
      simp only [List.flatMap_cons, InterfaceMethod.passes, List.append_assoc]
    rw [spans]
    simp only [List.forIn_cons, bind_assoc, pure_bind] at ih ⊢
    refine (Tours.bind (tours_visitParams none head.params scopes)
      (Tours.bind (tours_visitParams none head.results _) (ih _))).weaken ?_
    rintro ⟨each, apart, tidy, behind⟩
    obtain ⟨⟨params, results, between⟩, others⟩ := List.forall_mem_cons.mp each
    obtain ⟨first, later⟩ := List.pairwise_cons.mp apart
    rw [List.flatMap_cons] at behind
    obtain ⟨behindHead, behindRest⟩ := List.disjoint_append_left.mp behind
    have beyond : head.passes.Disjoint
        (rest.flatMap InterfaceMethod.passes ++ Node.passesAll embeds) := by
      refine List.disjoint_append_right.mpr ⟨fun span here there => ?_, behindHead⟩
      obtain ⟨method, member, inside⟩ := List.mem_flatMap.mp there
      exact first method member here inside
    obtain ⟨beyondParams, beyondResults⟩ := List.disjoint_append_left.mp beyond
    exact ⟨params, ⟨results, ⟨others, later, tidy, behindRest⟩, beyondResults⟩,
      List.disjoint_append_right.mpr ⟨between, beyondParams⟩⟩

/-- A declared type is visited. -/
theorem tours_visitType (decl : TypeDecl) :
    Tours resolver (resolver.visitType decl) [] (resolver.visitsOfType decl) decl.shape.passes
      decl.shape.Tidy := by
  unfold visitType visitsOfType
  cases decl.shape with
  | struct fields =>
    -- The fields are visited as the parts of a struct type are.
    have inTurn : Tours resolver _ [] _ _ _ :=
      tours_visitAll .type (fields.map (·.typeNode)) []
    exact tours_parts inTurn fun part member => tours_each .type _ part member []
  | interface methods embeds => exact tours_interface embeds methods []
  | other underlying => exact tours_visit .type underlying []

/-- A function or method is visited. -/
theorem tours_visitFunc (decl : FuncDecl) :
    Tours resolver (resolver.visitFunc decl) [] (resolver.visitsOfFunc decl) decl.passes
      decl.Tidy := by
  refine (Tours.bind (tours_visitAll .type _ [])
    (Tours.bind (tours_visitParams none decl.params _)
      (Tours.bind (tours_visitParams none decl.results _)
        (.pushing (tours_visitOption .read decl.body _))))).weaken ?_
  rintro ⟨receiver, params, results, body, apart, apart', apart''⟩
  exact ⟨receiver, ⟨params, ⟨results, body, apart''⟩, apart'⟩, apart⟩

/-- A variable or constant is visited. -/
theorem tours_visitValue (decl : ValueDecl) :
    Tours resolver (resolver.visitValue decl) [] (resolver.visitsOfValue decl) decl.passes
      decl.Tidy :=
  .bind (tours_visitOption .type decl.typeNode []) (tours_visitOption .read decl.value _)

/-- The visits of a file cover what its walk notes. -/
theorem covers_file (resolver : Resolver) :
    Covers resolver resolver.fileVisits (resolver.topUses.flatMap fun top => top.2.2)
      resolver.file.passes resolver.file.Tidy := by
  have types : ∀ decl ∈ resolver.file.types.values, Covers resolver (resolver.visitsOfType decl)
      (usesOf (resolver.visitType decl)) decl.shape.passes resolver.file.Tidy :=
    fun decl member => (tours_visitType decl).covers.weaken fun tidy => tidy.types decl member
  have functions : ∀ decl ∈ resolver.file.functions.values ++ resolver.file.methods,
      Covers resolver (resolver.visitsOfFunc decl) (usesOf (resolver.visitFunc decl)) decl.passes
        resolver.file.Tidy :=
    fun decl member => (tours_visitFunc decl).covers.weaken fun tidy => tidy.functions decl member
  have values : ∀ decl ∈
      resolver.file.vars.values ++ resolver.file.consts.values ++ resolver.file.blanks,
      Covers resolver (resolver.visitsOfValue decl) (usesOf (resolver.visitValue decl)) decl.passes
        resolver.file.Tidy :=
    fun decl member => (tours_visitValue decl).covers.weaken fun tidy => tidy.values decl member
  let parts : List (List Visit × List Use × List Span) :=
    resolver.file.types.values.map (fun decl =>
        (resolver.visitsOfType decl, usesOf (resolver.visitType decl), decl.shape.passes)) ++
      (resolver.file.functions.values ++ resolver.file.methods).map (fun decl =>
        (resolver.visitsOfFunc decl, usesOf (resolver.visitFunc decl), decl.passes)) ++
      (resolver.file.vars.values ++ resolver.file.consts.values ++ resolver.file.blanks).map
        (fun decl =>
          (resolver.visitsOfValue decl, usesOf (resolver.visitValue decl), decl.passes))
  have each : ∀ part ∈ parts, Covers resolver part.1 part.2.1 part.2.2 resolver.file.Tidy :=
    List.forall_mem_append.mpr ⟨List.forall_mem_append.mpr ⟨List.forall_mem_map.mpr types,
      List.forall_mem_map.mpr functions⟩, List.forall_mem_map.mpr values⟩
  have visited : resolver.fileVisits = parts.flatMap fun part => part.1 := by
    simp only [parts, fileVisits, List.flatMap_append, List.flatMap_map]
  have noted : (resolver.topUses.flatMap fun top => top.2.2) =
      parts.flatMap fun part => part.2.1 := by
    simp only [parts, topUses, List.flatMap_append, List.flatMap_map]
  have passed : resolver.file.declPasses = parts.map fun part => part.2.2 := by
    simp only [parts, SourceFile.declPasses, List.map_append, List.map_map, Function.comp_def]
  rw [visited, noted, SourceFile.passes, passed, ← List.flatMap_def]
  exact (Covers.flatten each).weaken fun tidy => ⟨tidy, passed ▸ tidy.apart⟩

/-- Methods and embedded types of an interface come with what their visits lead to. -/
theorem closed_visitsOfInterface (embeds : List Node) (methods : List InterfaceMethod)
    (scopes : Scopes) : Closed resolver (resolver.visitsOfInterface embeds methods scopes) := by
  induction methods generalizing scopes with
  | nil => exact closed_visitsAll .type embeds scopes
  | cons head rest ih =>
    rw [visitsOfInterface]
    exact (closed_visitsParams none head.params scopes).append
      ((closed_visitsParams none head.results _).append (ih _))

/-- **The visits of a file are closed.** With a visit come the visits that it leads to. -/
theorem closed_fileVisits (resolver : Resolver) : Closed resolver resolver.fileVisits := by
  refine (Closed.append (.flatMap fun decl => ?_) (.flatMap fun decl => ?_)).append
    (.flatMap fun decl => ?_)
  · unfold visitsOfType
    split
    · exact closed_visitsAll .type _ []
    · exact closed_visitsOfInterface _ _ []
    · exact closed_visits .type _ []
  · exact (closed_visitsAll .type _ []).append ((closed_visitsParams none decl.params _).append
      ((closed_visitsParams none decl.results _).append (closed_visitsOption .read decl.body _)))
  · exact (closed_visitsOption .type decl.typeNode []).append
      (closed_visitsOption .read decl.value _)

/-- **What a file tells at a visit.** Where a visit passes a name of a tidy file, the uses of the
file are those that the visit notes. -/
theorem mem_fileUses_iff (tidy : resolver.file.Tidy) {visit : Visit}
    (arrives : visit ∈ resolver.fileVisits) {span : Span} (passed : span ∈ visit.node.passes)
    {use : Use} (stands : use.span? = some span) :
    (∃ context, (context, use) ∈ resolver.fileUses) ↔ use ∈ resolver.usesAt visit := by
  have covers := resolver.covers_file
  constructor
  · rintro ⟨context, member⟩
    obtain ⟨top, listed, inside⟩ := List.mem_flatMap.mp member
    obtain ⟨use', noted, same⟩ := List.mem_map.mp inside
    cases same
    exact covers.alone tidy visit arrives use
      (List.mem_flatMap.mpr ⟨top, (mem_sortBy _ _ _).mp listed, noted⟩) span passed stands
  · intro noted
    obtain ⟨top, listed, inside⟩ := List.mem_flatMap.mp (covers.noted visit arrives noted)
    exact ⟨top.2.1, List.mem_flatMap.mpr
      ⟨top, (mem_sortBy _ _ _).mpr listed, List.mem_map_of_mem inside⟩⟩

end Resolver

/-! ## What an index tells -/

/-- The index refers to a symbol from a span of a file. -/
def Index.RefersAt (index : Index) (file : String) (span : Span) (id : Nat) : Prop :=
  ∃ reference ∈ index.references.references,
    reference.file = file ∧ reference.span = span ∧ reference.symbol = id

instance (index : Index) (file : String) (span : Span) (id : Nat) :
    Decidable (index.RefersAt file span id) :=
  inferInstanceAs (Decidable (∃ reference ∈ index.references.references, _))

/-- A use leaves a reference to a symbol at a span exactly when it finds the symbol there, apart
from the declared name. -/
theorem Resolver.exists_reference?_iff {resolver : Resolver} {target : Symbol}
    (found : resolver.symbols.get? target.id = some target) (span : Span) (context : String)
    (use : Use) :
    (∃ reference, resolver.reference? context use = some reference ∧ reference.span = span ∧
        reference.symbol = target.id) ↔
      target.declaredAt resolver.file.path span = false ∧
        ∃ kind, use = .found target.id span kind := by
  constructor
  · rintro ⟨reference, left, stands, names⟩
    cases use with
    | found id span' kind =>
      rw [reference?] at left
      split at left
      · cases left
      · rename_i target' found'
        split at left
        · cases left
        · rename_i apart
          cases left
          cases stands
          cases names
          cases found'.symm.trans found
          exact ⟨Bool.eq_false_iff.mpr apart, kind, rfl⟩
    | ambiguous name span' candidates => cases left
    | unresolved => cases left
  · rintro ⟨apart, kind, rfl⟩
    rw [reference?, found]
    dsimp only
    rw [if_neg (Bool.eq_false_iff.mp apart)]
    exact ⟨_, rfl, rfl, rfl⟩

/-- **What an index tells at a visit.** Where a visit of a tidy file passes a name, the index refers
to a symbol exactly when the visit finds the symbol there, apart from the declared name. -/
theorem Module.refersAt_iff {module : Module} {options : IndexOptions} {index : Index}
    (built : (module.index options).run = .ok (.ok index)) {resolver : Resolver}
    (walked : resolver ∈ module.resolvers options index.symbols) (tidy : resolver.file.Tidy)
    {visit : Visit} (arrives : visit ∈ resolver.fileVisits) {span : Span}
    (passed : span ∈ visit.node.passes) {target : Symbol}
    (listed : target ∈ index.symbols.toList) :
    index.RefersAt resolver.file.path span target.id ↔
      target.declaredAt resolver.file.path span = false ∧
        ∃ kind, .found target.id span kind ∈ resolver.usesAt visit := by
  obtain ⟨-, drawn, -⟩ := Module.index_spec built
  obtain ⟨-, numbered, -, -⟩ := Module.symbols_spec drawn
  have found : resolver.symbols.get? target.id = some target := by
    rw [(Module.file_of_mem_resolvers walked).2.2]
    exact SymbolTable.get?_id numbered listed
  have here := Module.references_at built walked span
  calc index.RefersAt resolver.file.path span target.id
      ↔ ∃ reference ∈ (index.references.references.map Reference.unnumbered).filter
            (fun reference => reference.place == (resolver.file.path, span)),
          reference.symbol = target.id := by
        simp only [Index.RefersAt, List.mem_filter, beq_iff_eq, Reference.place, Prod.mk.injEq,
          and_assoc, List.mem_map, exists_exists_and_eq_and]
        rfl
    _ ↔ ∃ reference ∈ resolver.references, reference.span = span ∧
          reference.symbol = target.id := by
        simp only [here, List.mem_filter, beq_iff_eq, and_assoc]
    _ ↔ ∃ context use, (context, use) ∈ resolver.fileUses ∧
          target.declaredAt resolver.file.path span = false ∧
            ∃ kind, use = .found target.id span kind := by
        simp only [Resolver.references, List.mem_filterMap, Prod.exists]
        constructor
        · rintro ⟨reference, ⟨context, use, member, left⟩, stands⟩
          exact ⟨context, use, member, (Resolver.exists_reference?_iff found span context use).mp
            ⟨reference, left, stands⟩⟩
        · rintro ⟨context, use, member, finds⟩
          obtain ⟨reference, left, stands⟩ :=
            (Resolver.exists_reference?_iff found span context use).mpr finds
          exact ⟨reference, ⟨context, use, member, left⟩, stands⟩
    _ ↔ target.declaredAt resolver.file.path span = false ∧
          ∃ kind, .found target.id span kind ∈ resolver.usesAt visit := by
        constructor
        · rintro ⟨context, _, member, apart, kind, rfl⟩
          exact ⟨apart, kind,
            (Resolver.mem_fileUses_iff tidy arrives passed rfl).mp ⟨context, member⟩⟩
        · rintro ⟨apart, kind, noted⟩
          obtain ⟨context, member⟩ :=
            (Resolver.mem_fileUses_iff tidy arrives passed rfl).mpr noted
          exact ⟨context, _, member, apart, kind, rfl⟩

end GoRefactor
