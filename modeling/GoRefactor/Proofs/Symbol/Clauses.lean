import GoRefactor.Proofs.Symbol.Locals
import GoRefactor.Proofs.Symbol.Sites

/-!
# Names in the clauses of a statement

The tree of a switch or select statement has the statements of all its clauses in one block, which
is walked in one scope. So a name that one clause declares stays bound in the clauses behind it: a
use of a package-level name is referred from its clause exactly if no statement in front of it, in
whichever clause, declares the name.
-/

namespace GoRefactor

namespace Resolver

open Walking

variable {resolver : Resolver}

/-! ## Uses of bare names -/

section Ident

variable {mode : VisitMode} {name : String} {span : Span} {scopes : Scopes} (proper : name ≠ "_")
  {id : Nat}
include proper

/-- A bare name that is bound finds what it is bound to. -/
theorem finds_bound_iff {bound : Local} (known : scopes.find? name = some bound) :
    (∃ kind, .found id span kind ∈ resolver.usesAt ⟨mode, .ident name span, scopes⟩) ↔
      bound.symbol = some id := by
  have walk : Emits (fun _ => True) (resolver.visit mode (.ident name span)) scopes () scopes
      (bound.symbol.map fun symbol => .found symbol span mode.role.nameKind).toList := by
    rw [visit, Resolver.name, if_neg (by rwa [beq_iff_eq])]
    refine .get (fun _ => rfl) ?_
    dsimp only
    rw [known]
    dsimp only
    cases bound.symbol with
    | none => exact .pure () scopes
    | some symbol => exact .note trivial scopes
  rw [usesAt, (eq_of_emits walk).2]
  cases bound.symbol <;> simp [eq_comm]

/-- A bare name that is bound nowhere finds what is declared under it, unless an import goes by
it. -/
theorem finds_unbound_iff {site : Site} (unbound : scopes.find? name = none)
    (declared : resolver.declared name = some site) {symbol : Symbol}
    (origin : resolver.symbols.atOrigin site.file.path site.nameSpan = some symbol) :
    (∃ kind, .found id span kind ∈ resolver.usesAt ⟨mode, .ident name span, scopes⟩) ↔
      resolver.file.importNamed name = none ∧ symbol.id = id := by
  have walk : Emits (fun _ => True) (resolver.visit mode (.ident name span)) scopes () scopes
      (if (resolver.file.importNamed name).isSome then []
        else [.found symbol.id span mode.role.nameKind]) := by
    rw [visit, Resolver.name, if_neg (by rwa [beq_iff_eq])]
    refine .get (fun _ => rfl) ?_
    dsimp only
    rw [unbound]
    dsimp only
    split
    · exact .pure () scopes
    · rw [declared]
      dsimp only
      rw [noteSite, noteOrigin, origin]
      exact .note trivial scopes
  rw [usesAt, (eq_of_emits walk).2]
  cases resolver.file.importNamed name <;> simp [eq_comm]

end Ident

/-! ## Scopes of a clause -/

/-- Nodes in a row are visited one part after the other. -/
theorem visitsAll_append (mode : VisitMode) (first second : List Node) (scopes : Scopes) :
    resolver.visitsAll mode (first ++ second) scopes =
      resolver.visitsAll mode first scopes ++
        resolver.visitsAll mode second (scopesAfter (resolver.visitAll mode first) scopes) := by
  induction first generalizing scopes with
  | nil => rfl
  | cons head rest ih =>
    obtain ⟨after, uses, emits, -⟩ := @walks_visit resolver mode head scopes
    obtain ⟨final, more, emits', -⟩ := @walks_visitAll resolver mode rest after
    have both : Emits resolver.Genuine (resolver.visitAll mode (head :: rest)) scopes () _ _ :=
      emits.bind emits'
    rw [List.cons_append, visitsAll, visitsAll, ih, List.append_assoc, (eq_of_emits emits).1,
      (eq_of_emits emits').1, (eq_of_emits both).1]

/-- What is bound in front of a statement in the body of a switch: below the names around the switch
those of its header, and below these the names that the statements in front leave bound. -/
def clauseScopes (resolver : Resolver) (scopes : Scopes) (header front : List Node) : Scopes :=
  scopesAfter (resolver.visitAll .read front)
    ([] :: scopesAfter (resolver.visitAll .read header) ([] :: scopes))

/-- A name in front of a statement in the body of a switch stands for something without a symbol if
the header or a statement in front leaves it bound, and else for what it stands for around the
switch. -/
theorem find?_clauseScopes (scopes : Scopes) (header front : List Node) {name : String}
    (proper : name ≠ "_") :
    ((name ∈ Node.localsAll header ∨ name ∈ Node.localsAll front) ∧
        ∃ found, (resolver.clauseScopes scopes header front).find? name = some found ∧
          found.symbol = none) ∨
      (name ∉ Node.localsAll header ∧ name ∉ Node.localsAll front) ∧
        (resolver.clauseScopes scopes header front).find? name = scopes.find? name := by
  obtain ⟨bound, uses, emits, binders⟩ := @leaves_visitAll resolver .read header [] scopes
  obtain ⟨bound', uses', emits', binders'⟩ :=
    @leaves_visitAll resolver .read front [] ((bound ++ []) :: scopes)
  unfold clauseScopes
  rw [(eq_of_emits emits).1, (eq_of_emits emits').1]
  have outer := binders.find? [] scopes name
  have inner := binders'.find? [] ((bound ++ []) :: scopes) name
  have opened (scopes : Scopes) : Scopes.find? ([] :: scopes) name = scopes.find? name := rfl
  rw [opened] at outer inner
  simp only [proper, ne_eq, not_false_eq_true, and_true] at outer inner
  rcases inner with ⟨here, found⟩ | ⟨absent, same⟩
  · exact Or.inl ⟨Or.inr here, found⟩
  · rw [same]
    rcases outer with ⟨here, found⟩ | ⟨absent', same'⟩
    · exact Or.inl ⟨Or.inl here, found⟩
    · exact Or.inr ⟨⟨absent', absent⟩, same'⟩

/-- What a statement in the body of a switch leads to, the switch leads to. -/
theorem visits_stmt_subset {mode : VisitMode} {header front back : List Node} {stmt : Node}
    {span : Span} {alt : Option Node} {scopes : Scopes} :
    resolver.visits .read stmt (resolver.clauseScopes scopes header front) ⊆
      resolver.visits mode (.branch header (.block span (front ++ stmt :: back)) alt) scopes := by
  intro visit member
  rw [visits, visits, visitsAll_append, visitsAll]
  refine List.mem_cons_of_mem _ (List.mem_append_right _ (List.mem_append_left _
    (List.mem_cons_of_mem _ (List.mem_append_right _ (List.mem_append_left _ member)))))

end Resolver

/-- **Names in the clauses of a statement.** Nothing around a switch or select statement binds a
name that the file sees declared, and a bare name in one of the statements of its body stands for
what it stands for in front of that statement. Then the index refers from there to the declaration,
its own name and the names of imports apart, exactly if neither the header nor any statement in
front leaves the name bound: it does not matter whether that statement is in the same clause. -/
theorem reference_in_clause {path : String} {sources : List (String × String)} {module : Module}
    {options : IndexOptions} {index : Index} (loaded : Module.ofSources path sources = .ok module)
    (full : options.includePrivate = true)
    (built : (module.index options).run = .ok (.ok index)) {resolver : Resolver}
    (walked : resolver ∈ module.resolvers options index.symbols) {switch : Visit}
    (arrives : switch ∈ resolver.fileVisits) {header front back : List Node} {stmt : Node}
    {bodySpan : Span} {alt : Option Node}
    (flat : switch.node = .branch header (.block bodySpan (front ++ stmt :: back)) alt)
    {use : Visit}
    (inside : use ∈ resolver.visits .read stmt
      (resolver.clauseScopes switch.scopes header front))
    {name : String} {span : Span} (named : use.node = .ident name span) (proper : name ≠ "_")
    {site : Site} (declared : resolver.declared name = some site)
    (free : switch.scopes.find? name = none)
    (near : (use.scopes.find? name).map Local.symbol =
      ((resolver.clauseScopes switch.scopes header front).find? name).map Local.symbol) :
    ∃ target, index.symbols.atOrigin site.file.path site.nameSpan = some target ∧
      (index.RefersAt resolver.file.path span target.id ↔
        (target.declaredAt resolver.file.path span = false ∧
          resolver.file.importNamed name = none) ∧
        name ∉ Node.localsAll header ∧ name ∉ Node.localsAll front) := by
  obtain ⟨mode, node, scopes⟩ := use
  subst named
  obtain ⟨-, drawn, -⟩ := Module.index_spec built
  obtain ⟨fileHeld, -, tabled⟩ := Module.file_of_mem_resolvers walked
  obtain ⟨sees, -⟩ := Module.package_of_mem_resolvers walked
  obtain ⟨path, found⟩ := resolver.scope.lookup_of_lookupInFile declared
  rw [sees] at found
  obtain ⟨target, known, origin, -⟩ := SymbolTable.exists_atOrigin full drawn found
  have here : ⟨mode, .ident name span, scopes⟩ ∈ resolver.fileVisits := by
    refine resolver.closed_fileVisits switch arrives ?_
    rw [flat]
    exact Resolver.visits_stmt_subset inside
  have refers := Module.refersAt_iff built walked
    (SourceFile.tidy_of_parse (Module.scanned_of_ofSources loaded _ fileHeld)) here
    (List.mem_singleton_self span) known
  refine ⟨target, origin, refers.trans ?_⟩
  rw [and_assoc]
  refine and_congr_right fun _ => ?_
  rcases resolver.find?_clauseScopes switch.scopes header front proper with
    ⟨bound, found, given, bare⟩ | ⟨absent, same⟩
  · -- A local declaration has no symbol, so nothing is found.
    rw [given] at near
    obtain ⟨found', given', bare'⟩ := Option.map_eq_some_iff.mp near
    rw [Resolver.finds_bound_iff proper given', bare', bare]
    simp only [reduceCtorEq, false_iff, not_and, not_not]
    exact fun _ absent => bound.resolve_left absent
  · rw [same, free] at near
    rw [← tabled] at origin
    rw [Resolver.finds_unbound_iff proper (Option.map_eq_none_iff.mp near) declared origin]
    simp [absent]

/-- A switch with two clauses, of which the second uses a variable of the package. -/
def clausesSources (first : String) : List (String × String) :=
  [("p/a.go", "package p\n\nvar X = 1\n\nfunc f(a int) \x7b\n\tswitch a \x7b\n\tcase 1:\n\t\t" ++
    first ++ "\n\tcase 2:\n\t\t_ = X\n\t\x7d\n\x7d\n")]

/-- Header of a switch, the statements of its body in front of a place, and the one there. -/
def Node.statementAt? (place : Nat) : Node → Option (List Node × List Node × Node)
  | .branch header (.block _ stmts) _ =>
    stmts[place]?.map fun stmt => (header, stmts.take place, stmt)
  | _ => none

/-- The statement at a place stands behind those in front of the place. -/
theorem Node.eq_of_statementAt? {place : Nat} {node stmt : Node} {header front : List Node}
    (found : node.statementAt? place = some (header, front, stmt)) :
    ∃ span back alt, node = .branch header (.block span (front ++ stmt :: back)) alt := by
  unfold statementAt? at found
  split at found
  · rename_i header' span stmts alt
    obtain ⟨stmt', there, same⟩ := Option.map_eq_some_iff.mp found
    cases same
    obtain ⟨bound, rfl⟩ := List.getElem?_eq_some_iff.mp there
    refine ⟨span, stmts.drop (place + 1), alt, ?_⟩
    rw [List.getElem_cons_drop, List.take_append_drop]
  · cases found

/-- Name and place of an identifier. -/
def Node.ident? : Node → Option (String × Span)
  | .ident name span => some (name, span)
  | _ => none

/-- A node with the name and place of an identifier is one. -/
theorem Node.eq_of_ident? {node : Node} {found : String × Span} (named : node.ident? = some found) :
    node = .ident found.1 found.2 := by
  cases node with
  | ident name span =>
    cases named
    rfl
  | _ => cases named

/-- A statement of a switch uses a name apart from where symbols are declared, and the name stands
there for what it stands for in front of the statement. -/
def Resolver.usesInStatement (resolver : Resolver) (switch : Visit) (name : String)
    (statement : List Node × List Node × Node) : Bool :=
  let scopes := resolver.clauseScopes switch.scopes statement.1 statement.2.1
  (resolver.visits .read statement.2.2 scopes).any fun use =>
    (use.scopes.find? name).map Local.symbol == (scopes.find? name).map Local.symbol &&
      use.node.ident?.any fun found =>
        found.1 == name && resolver.symbols.toList.all fun symbol =>
          !symbol.declaredAt resolver.file.path found.2

/-- Whether the index of the module refers from the use in the second clause to the variable. -/
def ClauseUseRefers (first : String) (refers : Bool) : Prop :=
  ∃ module index resolver switch header front stmt back bodySpan alt use span site target,
    Module.ofSources "m" (clausesSources first) = .ok module ∧
    (module.index (.withPrivate true)).run = .ok (.ok index) ∧
    resolver ∈ module.resolvers (.withPrivate true) index.symbols ∧
    switch ∈ resolver.fileVisits ∧
    switch.node = .branch header (.block bodySpan (front ++ stmt :: back)) alt ∧
    use ∈ resolver.visits .read stmt (resolver.clauseScopes switch.scopes header front) ∧
    use.node = .ident "X" span ∧ resolver.declared "X" = some site ∧
    index.symbols.atOrigin site.file.path site.nameSpan = some target ∧
    (index.RefersAt resolver.file.path span target.id ↔ refers = true)

/-- A use in the second clause of a switch is lost when the first clause declares the name. -/
theorem use_behind_other_clause :
    ClauseUseRefers "_ = 2" true ∧ ClauseUseRefers "X := 2" false := by
  have settled {first : String} {refers : Bool}
      (evaluated : checkOk (Module.ofSources "m" (clausesSources first)) (fun module =>
        checkOk (module.index (.withPrivate true)).run fun ending =>
          checkOk ending fun index =>
            (module.resolvers (.withPrivate true) index.symbols).any fun resolver =>
              (resolver.declared "X").isSome && (resolver.file.importNamed "X").isNone &&
                resolver.fileVisits.any fun switch => (switch.scopes.find? "X").isNone &&
                  (switch.node.statementAt? 3).any fun statement =>
                    resolver.usesInStatement switch "X" statement &&
                      decide ("X" ∉ Node.localsAll statement.1) &&
                      decide ("X" ∉ Node.localsAll statement.2.1) == refers) = true) :
      ClauseUseRefers first refers := by
    obtain ⟨module, loaded, checked⟩ := exists_of_checkOk evaluated
    obtain ⟨ending, built, ended⟩ := exists_of_checkOk checked
    obtain ⟨index, rfl, used⟩ := exists_of_checkOk ended
    obtain ⟨resolver, walked, used⟩ := List.any_eq_true.mp used
    simp only [Bool.and_eq_true, List.any_eq_true, Option.any_eq_true, Option.isNone_iff_eq_none,
      Option.isSome_iff_exists, Bool.not_eq_true', decide_eq_true_eq, beq_iff_eq,
      Resolver.usesInStatement, List.all_eq_true] at used
    obtain ⟨⟨⟨site, declared⟩, unimported⟩, switch, arrives, free, ⟨header, front, stmt⟩, found,
      ⟨⟨use, inside, near, named, ident, same, apart⟩, fresh⟩, decided⟩ := used
    obtain ⟨bodySpan, back, alt, flat⟩ := Node.eq_of_statementAt? found
    obtain ⟨name, span⟩ := named
    cases same
    have node : use.node = .ident "X" span := Node.eq_of_ident? ident
    obtain ⟨target, origin, exactly⟩ := reference_in_clause loaded rfl built walked arrives flat
      inside node (by decide) declared free near
    refine ⟨module, index, resolver, switch, header, front, stmt, back, bodySpan, alt,
      use, span, site,
      target, loaded, built, walked, arrives, flat, inside, node, declared, origin, ?_⟩
    obtain ⟨-, drawn, -⟩ := Module.index_spec built
    have known := (SymbolTable.mem_of_atOrigin (Module.symbols_spec drawn).1 origin).1
    rw [← (Module.file_of_mem_resolvers walked).2.2] at known
    rw [exactly, and_iff_right ⟨apart target known, unimported⟩, and_iff_right fresh, ← decided,
      decide_eq_true_eq]
  exact ⟨settled (by decide +kernel), settled (by decide +kernel)⟩

end GoRefactor
