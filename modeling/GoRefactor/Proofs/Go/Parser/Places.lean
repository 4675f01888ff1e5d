import GoRefactor.Proofs.Go.Called
import GoRefactor.Proofs.Go.Parser.Spots

/-!
# Where everything declared stands

The package clause and the imports of a file name something too. Their places lie apart from one
another and from those of the other declared names: the clause is read first, and an import is read
on its own. An import without an alias stands at its path, a literal, which is never empty.
-/

namespace GoRefactor

/-- Where an import is named. One that is named by a dot binds no name. -/
def Import.spots (decl : Import) : List Span := if decl.isDot then [] else [decl.nameSpan]

namespace TopDecl

/-- The import that a declaration is. -/
def import? : TopDecl → Option Import
  | .importing decl => some decl
  | _ => none

/-- Where names are declared, those of imports among them. -/
def places (decl : TopDecl) : List Span := decl.import?.toList.flatMap Import.spots ++ decl.spots

/-- As long as paths of imports are not empty, names are declared at different places between two
offsets. -/
def Located (low high : Nat) (decls : List TopDecl) : Prop :=
  low ≤ high ∧ ((∀ decl ∈ decls.filterMap import?, decl.pathSpan.start < decl.pathSpan.stop) →
    Spots low high (decls.flatMap places) [])

namespace Located

variable {low middle high : Nat} {first second decls : List TopDecl}

/-- Where nothing is declared, nothing needs a place. -/
theorem nil (order : low ≤ high) : Located low high [] := ⟨order, fun _ => .nil order⟩

/-- Declarations behind others stand where all of them were read. -/
theorem append (here : Located low middle first) (there : Located middle high second) :
    Located low high (first ++ second) := by
  refine ⟨Nat.le_trans here.1 there.1, fun filled => ?_⟩
  rw [List.filterMap_append] at filled
  obtain ⟨filled, filled'⟩ := List.forall_mem_append.mp filled
  have both := (here.2 filled).append (there.2 filled')
  rwa [List.flatMap_append]

/-- Declarations without imports stand between two offsets if what they declare does. -/
theorem of_placed (placed : Placed low high decls)
    (proper : ∀ decl ∈ decls, decl.isImport = false) : Located low high decls := by
  have same : decls.flatMap places = decls.flatMap spots := by
    refine List.flatMap_congr fun decl member => ?_
    have kept := proper decl member
    cases decl with
    | importing => cases kept
    | _ => rfl
  refine ⟨placed.order, fun _ => ?_⟩
  rw [same]
  exact placed.fewer (List.Subperm.refl _) (List.nil_subset _)

end Located

end TopDecl

namespace Parse

open TopDecl

variable {α : Type} {place low : Nat}

/-- What a computation gives in two respects it gives in both at once. -/
theorem Reads.and {post post' : Nat → α → Prop} {parse : Parse α} (first : Reads place post parse)
    (second : Reads place post' parse) :
    Reads place (fun stop value => post stop value ∧ post' stop value) parse :=
  fun cursor ordered same => ⟨first cursor ordered same, second cursor ordered same⟩

/-! ## Imports -/

/-- An explicit name of an import is a dot or stands at a place of its own. -/
theorem reads_alias :
    Reads place (fun stop aliasToken => ∀ token ∈ aliasToken,
      token.text = "." ∨ Within place stop [token.span]) (takeIf aliasFollows) := by
  rintro cursor ordered rfl
  let answer : Bool := (cursor.peekAt 0).kind == .identifier || (cursor.peekAt 0).is "."
  have asked : (takeIf aliasFollows).run cursor =
      (if answer = true then (do return some (← take)) else return none : Parse (Option Token)).run
        cursor := rfl
  rw [asked]
  by_cases follows : answer = true
  · rw [if_pos follows]
    intro token taken
    cases taken
    rcases Bool.or_eq_true_iff.mp follows with named | dot
    · exact Or.inr (within_taken ordered (eq_of_beq named))
    · exact Or.inl (eq_of_beq (Bool.and_eq_true_iff.mp dot).2)
  · rw [if_neg follows]
    intro token taken
    cases taken

/-- A literal that comes next is taken from its place. -/
theorem Reads.literal {post : Nat → α → Prop} {following : Token → Parse α} {other : Parse α}
    (found : ∀ stop token, place ≤ token.span.start → token.span.stop ≤ stop →
      token.span.start ≤ token.span.stop → Reads stop post (following token))
    (missed : Reads place post other) :
    Reads place post (isKind .literal >>= fun yes =>
      if yes = true then take >>= following else other) := by
  rintro cursor ordered rfl
  have asked : (isKind .literal >>= fun yes => if yes = true then take >>= following else other).run
      cursor = (if ((cursor.peekAt 0).kind == TokenKind.literal) = true then take >>= following
        else other).run cursor := rfl
  rw [asked]
  by_cases literal : ((cursor.peekAt 0).kind == TokenKind.literal) = true
  · rw [if_pos literal]
    have kind := eq_of_beq literal
    cases next : cursor.ahead with
    | nil =>
      have finish : cursor.peekAt 0 = cursor.finish := by
        unfold Cursor.peekAt
        rw [next]
        rfl
      rw [finish, ordered.finishes] at kind
      cases kind
    | cons token rest =>
      have first : cursor.peekAt 0 = token := by
        unfold Cursor.peekAt
        rw [next]
        rfl
      have member : token ∈ cursor.ahead := by
        rw [next]
        exact List.mem_cons_self
      rw [first] at kind
      have goesOn : token.isTerminator = false := by
        unfold Token.isTerminator
        rw [kind]
        rfl
      obtain ⟨starts, stops⟩ := ordered.lastEnd_advance next goesOn
      have behind := found _ token starts (Nat.le_of_eq stops.symm) (ordered.order token member)
      have taken : (take >>= following).run cursor = (following token).run cursor.advance := by
        rw [← first]
        rfl
      rw [taken]
      exact behind _ (Cursor.Stable.advance cursor ordered) rfl
  · rw [if_neg literal]
    exact missed cursor ordered rfl

/-- An imported package stands where it was read. -/
theorem reads_importSpots (after : low ≤ place) : Reads place (Located low) importSpec := by
  unfold importSpec
  refine .bind reads_alias fun stop aliasToken moved named => .literal
    (fun stop' path starts stops order => .pure ?_) (.behind fun _ _ _ => .pure (.nil (by omega)))
  refine ⟨by omega, fun filled => ?_⟩
  have proper : path.span.start < path.span.stop := filled _ List.mem_cons_self
  rw [List.flatMap_singleton, places, spots, List.append_nil, import?, Option.toList_some,
    List.flatMap_singleton, Import.spots]
  split
  · exact .nil (by omega)
  · rename_i noDot
    cases aliasToken with
    | none =>
      refine .name fun span member => ?_
      rw [List.mem_singleton.mp member]
      have starts' : low ≤ path.span.start := by omega
      exact ⟨starts', proper, stops⟩
    | some token =>
      rcases named token rfl with dot | within
      · exact absurd (by rw [Import.isDot, Option.map_some, dot]; rfl) noDot
      · exact .name (within.mono (by omega) (by omega))

/-! ## Declarations -/

/-- What is declared are imports that are named at places of their own, or none of it are
imports. -/
theorem reads_importsOrNone (limit : Nat) (after : low ≤ place) :
    Reads place (fun stop decls => Located low stop decls ∨ ∀ decl ∈ decls, decl.isImport = false)
      (topLevel limit) := by
  have none {place : Nat} {parse : Parse (List TopDecl)}
      (proper : Reads place (fun _ decls => ∀ decl ∈ decls, decl.isImport = false) parse) :
      Reads place (fun stop decls => Located low stop decls ∨
        ∀ decl ∈ decls, decl.isImport = false) parse :=
    proper.weaken fun _ _ _ given => Or.inr given
  have bare {place : Nat} :
      Reads place (fun _ decls => ∀ decl ∈ decls, isImport decl = false) (do
        skipStatement
        return []) := .behind fun _ _ _ => .pure (List.forall_mem_nil _)
  have types {inGroup : Bool} {start place : Nat} {doc : Option String} :
      Reads place (fun _ decls => ∀ decl ∈ decls, isImport decl = false)
        (typeSpec limit inGroup start doc) := by
    unfold typeSpec
    refine .behind fun _ _ _ => .behind fun _ _ _ => .ite ?_ bare
    exact .behind fun _ _ _ => .behind fun _ _ _ => .ite
      (.behind fun _ _ _ => .behind fun _ _ _ => .behind fun _ _ _ => .behind fun _ _ _ =>
        .pure (List.forall_mem_singleton.mpr rfl))
      (.behind fun _ _ _ => .behind fun _ _ _ => .behind fun _ _ _ =>
        .pure (List.forall_mem_singleton.mpr rfl))
  have functions {place : Nat} :
      Reads place (fun _ decls => ∀ decl ∈ decls, isImport decl = false) (funcDecl limit) := by
    unfold funcDecl
    refine .behind fun _ _ _ => .behind fun _ _ _ => .behind fun _ _ _ => .behind fun _ _ _ =>
      .ite ?_ bare
    refine .behind fun _ _ _ => .behind fun _ _ _ => .ite (.behind fun _ _ _ => ?_) ?_
    all_goals
      exact .behind fun _ _ _ => .behind fun _ _ _ => .behind fun _ _ _ => .behind fun _ _ _ =>
        .behind fun _ _ _ => .behind fun _ _ _ => .pure (List.forall_mem_singleton.mpr rfl)
  have values (make : ValueDecl → TopDecl) (proper : ∀ decl, (make decl).isImport = false)
      {place : Nat} {parse : Parse (List ValueDecl)} :
      Reads place (fun _ decls => ∀ decl ∈ decls, isImport decl = false)
        (List.map make <$> parse) :=
    have read : Reads place (fun _ _ => True) parse := fun _ _ _ => trivial
    read.map fun _ decls _ _ => List.forall_mem_map.mpr fun decl _ => proper decl
  unfold topLevel
  refine .behind fun _ inGroup _ => .behind fun _ start _ => .behind fun _ _ _ => .ite ?_ ?_
  · exact (reads_grouped .nil .append (fun _ low _ after => reads_importSpots after)
      (by omega)).weaken fun _ _ _ given => Or.inl given
  refine .behind fun _ _ _ => .ite (none ?_) ?_
  · let proper (_ _ : Nat) (decls : List TopDecl) := ∀ decl ∈ decls, isImport decl = false
    have joined (low high : Nat) {first second : List TopDecl} (left : proper low high first)
        (right : proper low high second) : proper low high (first ++ second) :=
      List.forall_mem_append.mpr ⟨left, right⟩
    show Reads _ (proper 0) _
    exact reads_grouped (fun _ => List.forall_mem_nil _) (fun left right => joined 0 0 left right)
      (fun _ _ _ _ => types) (Nat.zero_le _)
  refine .behind fun _ _ _ => .ite (none functions) ?_
  refine .behind fun _ _ _ => .ite (none (values .var fun _ => rfl)) ?_
  exact .behind fun _ _ _ => .ite (none (values .const fun _ => rfl)) (none bare)

/-- Declarations up to the end of the text. -/
theorem reads_declarationPlaces (limit rounds low : Nat) (after : low ≤ place) :
    Reads place (Located low) (declarations limit rounds) :=
  reads_rounds .nil .append (fun after =>
    ((reads_topLevelSpots limit _ after).and (reads_importsOrNone limit after)).weaken
      fun _ _ _ both => both.2.elim id (.of_placed both.1)) rounds after

end Parse

/-- The package clause is named in front of the place where the declarations are read from. -/
theorem TokenStream.clause_of_parse {content : List Char} {stream : TokenStream} {name : Token}
    {decls : List TopDecl} (scanned : ofChars? content = .ok stream)
    (parsed : stream.parse = .ok (name, decls)) :
    ∃ place limit, place.Ordered ∧ Within 0 place.lastEnd [name.span] ∧
      ((Parse.declarations limit limit).run place).1 = decls := by
  have ordered := ordered_start scanned
  have named : Parse.Reads 0 (fun stop clause => ∀ token, clause = .ok token →
      Within 0 stop [token.span]) Parse.packageClause := by
    unfold Parse.packageClause
    refine .behind fun _ _ _ => .behind fun _ _ _ => .ite ?_
      (.behind fun _ _ _ => .pure fun _ none => nomatch none)
    rintro cursor ordered rfl token found
    let next := cursor.peekAt 0
    have asked (clause : Token → Parse (Except (Nat × ParseFlaw) Token)) :
        (Parse.peek >>= clause).run cursor = (clause next).run cursor := rfl
    rw [asked] at found ⊢
    by_cases follows : (next.kind == TokenKind.identifier) = true
    · rw [if_pos follows] at found ⊢
      have same : next = token := Except.ok.inj found
      rw [← same]
      exact (Parse.within_taken ordered (eq_of_beq follows)).mono (Nat.zero_le _) (Nat.le_refl _)
    · rw [if_neg follows] at found
      cases found
  unfold parse at parsed
  have moved := Cursor.Stable.run ordered Parse.packageClause
  have told := named _ ordered rfl
  rcases read : Parse.packageClause.run (Cursor.start stream) with ⟨_ | found, place⟩
  · rw [read] at parsed
    cases parsed
  · rw [read] at parsed moved told
    cases parsed
    exact ⟨place, _, moved, told name rfl, rfl⟩

/-! ## Files -/

namespace SourceFile

open List

/-- Where a file declares names, those of imports among them. -/
def places (file : SourceFile) : List Span := file.imports.flatMap Import.spots ++ file.spots

/-- Imports are kept as they are read. -/
theorem imports_foldl_add (file : SourceFile) (decls : List TopDecl) :
    (decls.foldl SourceFile.add file).imports =
      file.imports ++ decls.filterMap TopDecl.import? := by
  induction decls generalizing file with
  | nil => simp
  | cons decl rest ih =>
    have here : (file.add decl).imports = file.imports ++ decl.import?.toList := by
      cases decl with
      | importing decl => rfl
      | type => exact (append_nil _).symm
      | function =>
        rw [add]
        split <;> exact (append_nil _).symm
      | var =>
        rw [add]
        split <;> exact (append_nil _).symm
      | const =>
        rw [add]
        split <;> exact (append_nil _).symm
    rw [foldl_cons, ih, here, append_assoc, filterMap_cons]
    cases decl.import? <;> rfl

/-- Adding declarations to a file without any keeps some of their places. -/
theorem places_foldl_add (file : SourceFile) (decls : List TopDecl) (none : file.decls = [])
    (bare : file.imports = []) :
    (decls.foldl SourceFile.add file).places <+~ decls.flatMap TopDecl.places := by
  obtain ⟨kept, same, fewer⟩ := decls_foldl_add file decls
  rw [none, append_nil] at fewer
  have walked : (decls.map TopDecl.walked).flatMap TopDecl.spots = decls.flatMap TopDecl.spots := by
    rw [flatMap_map]
    exact flatMap_congr fun decl _ => by cases decl <;> rfl
  have spots : (decls.foldl SourceFile.add file).spots <+~ decls.flatMap TopDecl.spots :=
    ⟨kept.flatMap _, same.flatMap_right _, walked ▸ fewer.flatMap _⟩
  have imports : (decls.filterMap TopDecl.import?).flatMap Import.spots =
      decls.flatMap fun decl => decl.import?.toList.flatMap Import.spots := by
    rw [filterMap_eq_flatMap_toList, flatMap_assoc]
  have whole := flatMap_append_perm decls
    (fun decl => decl.import?.toList.flatMap Import.spots) TopDecl.spots
  unfold places
  rw [imports_foldl_add, bare, nil_append, imports]
  exact ((subperm_append_left _).mpr spots).trans whole.subperm

/-- **Declared names stand at different places**, that of the package among them. -/
theorem places_of_parse {path content : String} {file : SourceFile} {stream : TokenStream}
    (parsed : SourceFile.parse path content = .ok file)
    (scanned : TokenStream.ofChars? content.toList = .ok stream) :
    (file.packageSpan :: file.places).Nodup := by
  have formed := (formed_of_parse parsed scanned).imports
  obtain ⟨name, decls, found, rfl⟩ := decls_of_parse parsed scanned
  obtain ⟨place, limit, ordered, clause, rfl⟩ := TokenStream.clause_of_parse scanned found
  let base : SourceFile :=
    { SourceFile.blank path content with packageName := name.text, packageSpan := name.span }
  let decls := ((Parse.declarations limit limit).run place).1
  have filled : ∀ decl ∈ decls.filterMap TopDecl.import?,
      decl.pathSpan.start < decl.pathSpan.stop := by
    intro decl member
    have kept : decl ∈ (decls.foldl SourceFile.add base).imports := by
      rw [imports_foldl_add]
      exact mem_append_right _ member
    obtain ⟨token, held, literal, -, span⟩ := (formed decl kept).path
    obtain ⟨lexemes, -, cut, tokens⟩ := TokenStream.lexemes_of_ofChars? scanned
    rw [span]
    exact Lexeme.lt_of_mem_tokensFrom (Lexeme.solid_of_cut cut) (tokens ▸ held) (Or.inr literal)
  have located := Parse.reads_declarationPlaces limit limit _ (Nat.le_refl _) place ordered rfl
  have placed := (located.2 filled).fewer (places_foldl_add base decls rfl rfl) (nil_subset _)
  have whole := (Spots.name clause).append placed
  have clauseSpan : (decls.foldl SourceFile.add base).packageSpan = name.span :=
    (package_foldl_add base decls).2
  rw [clauseSpan]
  exact whole.distinct

end SourceFile

end GoRefactor
