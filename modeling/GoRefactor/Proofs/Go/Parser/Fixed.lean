import GoRefactor.Proofs.Go.Parser.Acceptance
import GoRefactor.Proofs.Go.Parser.Declarations
import GoRefactor.Proofs.Go.Parser.TidyFile

/-!
# Visits that change nothing

A scan puts only two things into a file: names of tokens with the places of these tokens, and
spans between places where tokens start and stop. So a visitor that leaves those alone leaves the
whole file alone. The proof is a mirror in which both texts are the same one.
-/

namespace GoRefactor

namespace TokenStream

/-- The offsets at which spans of declarations can start and stop. -/
def Bound (stream : TokenStream) (offset : Nat) : Prop :=
  offset = 0 ∨ ∃ token ∈ stream.tokens, offset = token.span.start ∨ offset = token.span.stop

/-- The visitor leaves alone what a scan of the tokens can put into a file. -/
structure FixedBy (stream : TokenStream) (visitor : SpanVisitor (Except Fault)) : Prop where
  /-- Spans between tokens stay. -/
  span : ∀ {start stop : Nat}, stream.Bound start → stream.Bound stop → start ≤ stop →
    visitor.span ⟨start, stop⟩ = .ok ⟨start, stop⟩
  /-- Names of tokens stay. -/
  name : ∀ token ∈ stream.tokens, token.Names →
    visitor.name token.text token.span = .ok token.text

end TokenStream

namespace Cursor

/-- What is ahead comes from the stream. -/
structure Along (stream : TokenStream) (place : Cursor) : Prop where
  /-- The tokens ahead are tokens of the stream. -/
  ahead : ∀ token ∈ place.ahead, token ∈ stream.tokens
  /-- So is the one that marks the end. -/
  finish : place.finish ∈ stream.tokens
  /-- The last token ended at a place of the stream. -/
  lastEnd : stream.Bound place.lastEnd

/-- Moving on keeps to the stream. -/
instance stable_along (stream : TokenStream) : Stable (Along stream) where
  advance place inside := by
    cases next : place.ahead with
    | nil => rwa [advance_of_nil next]
    | cons token rest =>
      have member : token ∈ stream.tokens :=
        inside.ahead token (by rw [next]; exact List.mem_cons_self)
      rw [advance_of_cons next]
      refine ⟨fun later held => inside.ahead later ?_, inside.finish, ?_⟩
      · rw [next]
        exact List.mem_cons_of_mem token held
      · simp only
        split
        · exact inside.lastEnd
        · exact Or.inr ⟨token, member, Or.inr rfl⟩

/-- The visitor leaves alone what reading on can put into declarations; `Placed` says where spans
can start and stop, and `dots` whether the visitor also knows the dots of imports. -/
structure FixedBy (visitor : SpanVisitor (Except Fault)) (dots : Prop) (Placed : Nat → Prop)
    (place : Cursor) : Prop where
  /-- Spans between the offsets stay. -/
  span : ∀ {start stop : Nat}, Placed start → Placed stop → start ≤ stop →
    visitor.span ⟨start, stop⟩ = .ok ⟨start, stop⟩
  /-- Names of tokens ahead stay. -/
  name : ∀ token ∈ place.ahead, token.kind = .identifier ∨ dots ∧ token.is "." = true →
    visitor.name token.text token.span = .ok token.text
  /-- Tokens start and stop at such offsets. -/
  bounds : ∀ token ∈ place.finish :: place.ahead,
    Placed token.span.start ∧ Placed token.span.stop ∧ token.span.start ≤ token.span.stop
  /-- The last token ended at one. -/
  lastEnd : Placed place.lastEnd
  /-- The token behind the last one marks the end. -/
  finishes : place.finish.kind = .finish

namespace FixedBy

variable {visitor : SpanVisitor (Except Fault)} {dots : Prop} {Placed : Nat → Prop} {place : Cursor}
  (fixed : place.FixedBy visitor dots Placed)

/-- The mirror of a text in itself. -/
def mirror (limit : Nat) : Mirror where
  visitor := visitor
  move offset := offset
  Placed := Placed
  notes := place.notes
  imageNotes := place.notes
  more := []
  lead := 0
  limit := limit
  dots := dots
  span_eq := fixed.span
  move_le _ _ order := order

/-- The place is linked to itself. -/
theorem linked (limit : Nat) : (fixed.mirror limit).Linked place place := by
  have twin {token : Token} (member : token ∈ place.finish :: place.ahead) :
      (fixed.mirror limit).Twin token token := by
    obtain ⟨start, stop, order⟩ := fixed.bounds token member
    exact ⟨⟨rfl, fun _ => rfl⟩, fun _ => rfl, start, stop, order, rfl, rfl⟩
  refine ⟨⟨place.ahead, (List.append_nil _).symm, List.forall₂_same.mpr fun token member =>
    twin (List.mem_cons_of_mem _ member)⟩, ?_, fun _ => twin List.mem_cons_self, fixed.finishes,
    Or.inl rfl, rfl, ?_, rfl, rfl⟩
  · intro count token image _ stands stands' names
    rw [stands] at stands'
    cases stands'
    exact fixed.name token (List.mem_of_getElem? stands) names
  · intro start placed
    exact (fixed.mirror limit).span_upTo placed fixed.lastEnd

include fixed in
/-- What a visitor leaves alone in the tokens ahead, it leaves alone in the declarations. -/
theorem declarations (limit : Nat) {decl : TopDecl}
    (member : decl ∈ ((Parse.declarations limit limit).run place).1)
    (known : decl.isImport = true → dots) : visitor.topDecl decl = .ok decl := by
  -- All that the scan takes may be taken.
  let taken := ((Parse.declarations limit limit).run place).2.taken
  have follows : (fixed.mirror taken).Follows (Parse.declarations limit limit) :=
    Mirror.follows_declarations limit
  have followed := (follows place place (fixed.linked taken) (Nat.le_refl taken)).1
  exact List.forall₂_same.mp followed decl member known

end FixedBy

end Cursor

namespace TokenStream

variable {content : List Char} {stream : TokenStream} {visitor : SpanVisitor (Except Fault)}

/-- A scan starts inside its stream. -/
theorem along_start (scanned : ofChars? content = .ok stream) :
    (Cursor.start stream).Along stream := by
  have tokens := (tokens_eq_concat scanned).1
  refine ⟨fun token member => ?_, ?_, Or.inl rfl⟩
  · rw [tokens]
    exact List.mem_append_left _ member
  · rw [tokens]
    exact List.mem_append_right _ List.mem_cons_self

/-- No token of a text stops before it starts. -/
theorem start_le_stop (scanned : ofChars? content = .ok stream) {token : Token}
    (member : token ∈ stream.tokens) : token.span.start ≤ token.span.stop := by
  obtain ⟨lexemes, -, -, tokens⟩ := lexemes_of_ofChars? scanned
  rw [tokens] at member
  obtain ⟨front, back, -, span⟩ := Lexeme.tokensFrom_covers member
  rw [span]
  exact Nat.le_add_right _ _

/-- Where the package clause ends: the token that names the package was taken last, and the
declarations are read from there. -/
theorem place_of_parse (scanned : ofChars? content = .ok stream) {name : Token}
    {decls : List TopDecl} (parsed : stream.parse = .ok (name, decls)) :
    name ∈ stream.tokens ∧ name.kind = .identifier ∧ ∃ place : Cursor, ∃ limit,
      place.Ordered ∧ place.Along stream ∧ place.lastEnd = name.span.stop ∧
      decls = ((Parse.declarations limit limit).run place).1 := by
  have finishes := (tokens_eq_concat scanned).2
  unfold TokenStream.parse at parsed
  rcases read : Parse.packageClause.run (Cursor.start stream) with ⟨_ | found, place⟩
  · rw [read] at parsed
    cases parsed
  rw [read] at parsed
  cases parsed
  have clause : (Parse.packageClause.run (Cursor.start stream)).1 = .ok name := by rw [read]
  obtain ⟨leading, keyword, rest, ahead, -, -, named⟩ :=
    (Parse.packageClause_eq_ok_iff finishes).mp clause
  have member : name ∈ stream.tokens := (along_start scanned).ahead name (by rw [ahead]; simp)
  have ordered := Cursor.Stable.run (ordered_start scanned) Parse.packageClause
  have inside := Cursor.Stable.run (along_start scanned) Parse.packageClause
  have last := Parse.lastEnd_packageClause (ordered_start scanned) clause
  rw [read] at ordered inside last
  exact ⟨member, named, place, _, ordered, inside, last, rfl⟩

/-- Spans between tokens, and names of tokens, are all that reading on can put into declarations. -/
theorem fixedBy_along (scanned : ofChars? content = .ok stream) {place : Cursor}
    (ordered : place.Ordered) (inside : place.Along stream) {dots : Prop}
    (spans : ∀ {start stop : Nat}, stream.Bound start → stream.Bound stop → start ≤ stop →
      visitor.span ⟨start, stop⟩ = .ok ⟨start, stop⟩)
    (names : ∀ token ∈ stream.tokens, token.kind = .identifier ∨ dots ∧ token.is "." = true →
      visitor.name token.text token.span = .ok token.text) :
    place.FixedBy visitor dots stream.Bound := by
  refine ⟨spans, fun token held => names token (inside.ahead token held), fun token held => ?_,
    inside.lastEnd, ordered.finishes⟩
  have held : token ∈ stream.tokens :=
    List.forall_mem_cons.mpr ⟨inside.finish, inside.ahead⟩ token held
  exact ⟨Or.inr ⟨token, held, Or.inl rfl⟩, Or.inr ⟨token, held, Or.inr rfl⟩,
    start_le_stop scanned held⟩

/-- What a visitor leaves alone in the tokens, it leaves alone in the declarations. -/
theorem FixedBy.parse (fixed : stream.FixedBy visitor) (scanned : ofChars? content = .ok stream)
    {name : Token} {decls : List TopDecl} (parsed : stream.parse = .ok (name, decls)) :
    visitor.named name.text name.span = .ok (name.text, name.span) ∧
      ∀ decl ∈ decls, visitor.topDecl decl = .ok decl := by
  obtain ⟨member, named, place, limit, ordered, inside, -, rfl⟩ := place_of_parse scanned parsed
  constructor
  · rw [SpanVisitor.named, fixed.name name member (Or.inl named), bind_ok,
      fixed.span (Or.inr ⟨name, member, Or.inl rfl⟩) (Or.inr ⟨name, member, Or.inr rfl⟩)
        (start_le_stop scanned member)]
    rfl
  · have still : place.FixedBy visitor True stream.Bound :=
      fixedBy_along scanned ordered inside fixed.span fun token held names =>
        fixed.name token held (names.imp id And.right)
    exact fun decl member => still.declarations limit member fun _ => trivial

end TokenStream

namespace SourceFile

/-- The visitor leaves every declaration of the file alone. -/
structure FixedBy (file : SourceFile) (visitor : SpanVisitor (Except Fault)) : Prop where
  /-- The package clause. -/
  package : visitor.named file.packageName file.packageSpan =
    .ok (file.packageName, file.packageSpan)
  /-- Imports. -/
  imports : ∀ decl ∈ file.imports, visitor.importDecl decl = .ok decl
  /-- All other declarations. -/
  decls : ∀ decl ∈ file.decls, visitor.topDecl decl = .ok decl

section Members

variable {file : SourceFile} {visitor : SpanVisitor (Except Fault)}

/-- Types. -/
theorem FixedBy.typeDecl (fixed : file.FixedBy visitor) {decl : TypeDecl}
    (member : decl ∈ file.types.values) : visitor.typeDecl decl = .ok decl := by
  have inside : TopDecl.type decl ∈ file.decls :=
    List.mem_append_left _ (List.mem_append_left _ (List.mem_map_of_mem member))
  obtain ⟨image, visited, same⟩ := map_eq_ok.mp (fixed.decls _ inside)
  rw [visited, TopDecl.type.inj same]

/-- A visitor that keeps a file keeps its functions and methods. -/
theorem FixedBy.funcDecl (fixed : file.FixedBy visitor) {decl : FuncDecl}
    (member : decl ∈ file.functions.values ++ file.methods) : visitor.funcDecl decl = .ok decl := by
  have inside : TopDecl.function decl ∈ file.decls :=
    List.mem_append_left _ (List.mem_append_right _ (List.mem_map_of_mem member))
  obtain ⟨image, visited, same⟩ := map_eq_ok.mp (fixed.decls _ inside)
  rw [visited, TopDecl.function.inj same]

/-- A visitor that keeps a file keeps its variables and constants, blank ones included. -/
theorem FixedBy.valueDecl (fixed : file.FixedBy visitor) {decl : ValueDecl}
    (member : decl ∈ file.vars.values ++ file.consts.values ++ file.blanks) :
    visitor.valueDecl decl = .ok decl := by
  have inside : TopDecl.var decl ∈ file.decls :=
    List.mem_append_right _ (List.mem_map_of_mem member)
  obtain ⟨image, visited, same⟩ := map_eq_ok.mp (fixed.decls _ inside)
  rw [visited, TopDecl.var.inj same]

end Members

/-- Imports of a file come from its declarations. -/
theorem mem_imports_foldl_add {file : SourceFile} {decls : List TopDecl} {decl : Import}
    (member : decl ∈ (decls.foldl SourceFile.add file).imports) :
    decl ∈ file.imports ∨ TopDecl.importing decl ∈ decls := by
  induction decls generalizing file with
  | nil => exact Or.inl member
  | cons head rest ih =>
    rcases ih member with added | later
    · cases head with
      | importing other =>
        rcases List.mem_append.mp added with former | new
        · exact Or.inl former
        · rw [List.mem_singleton.mp new]
          exact Or.inr List.mem_cons_self
      | type => exact Or.inl added
      | function =>
        rw [add] at added
        split at added <;> exact Or.inl added
      | var =>
        rw [add] at added
        split at added <;> exact Or.inl added
      | const =>
        rw [add] at added
        split at added <;> exact Or.inl added
    · exact Or.inr (List.mem_cons_of_mem _ later)

/-- Adding declarations keeps the package clause. -/
theorem package_foldl_add (file : SourceFile) (decls : List TopDecl) :
    (decls.foldl SourceFile.add file).packageName = file.packageName ∧
      (decls.foldl SourceFile.add file).packageSpan = file.packageSpan := by
  induction decls generalizing file with
  | nil => exact ⟨rfl, rfl⟩
  | cons decl rest ih =>
    have one : (file.add decl).packageName = file.packageName ∧
        (file.add decl).packageSpan = file.packageSpan := by
      cases decl with
      | importing => exact ⟨rfl, rfl⟩
      | type => exact ⟨rfl, rfl⟩
      | function =>
        rw [add]
        split <;> exact ⟨rfl, rfl⟩
      | var =>
        rw [add]
        split <;> exact ⟨rfl, rfl⟩
      | const =>
        rw [add]
        split <;> exact ⟨rfl, rfl⟩
    exact ⟨(ih _).1.trans one.1, (ih _).2.trans one.2⟩

/-- Constants are visited as variables are. -/
theorem topDecl_walked {visitor : SpanVisitor (Except Fault)} {decl : TopDecl}
    (fixed : visitor.topDecl decl = .ok decl) :
    visitor.topDecl decl.walked = .ok decl.walked := by
  cases decl with
  | const decl =>
    obtain ⟨image, visited, same⟩ := map_eq_ok.mp fixed
    exact map_eq_ok.mpr ⟨image, visited, congrArg TopDecl.var (TopDecl.const.inj same)⟩
  | importing => exact fixed
  | type => exact fixed
  | function => exact fixed
  | var => exact fixed

/-- A file that is read holds the declarations behind its package clause. -/
theorem decls_of_parse {path content : String} {file : SourceFile} {stream : TokenStream}
    (parsed : SourceFile.parse path content = .ok file)
    (scanned : TokenStream.ofChars? content.toList = .ok stream) :
    ∃ name decls, stream.parse = .ok (name, decls) ∧ file = decls.foldl SourceFile.add
      { SourceFile.blank path content with
        packageName := name.text, packageSpan := name.span } := by
  unfold SourceFile.parse at parsed
  rw [scanned] at parsed
  simp only at parsed
  split at parsed
  · cases parsed
  · split at parsed
    · cases parsed
    · rename_i name decls found
      exact ⟨name, decls, found, (Except.ok.inj parsed).symm⟩

/-- **A visitor that leaves the tokens alone leaves the file alone.** -/
theorem fixedBy_of_parse {path content : String} {file : SourceFile} {stream : TokenStream}
    {visitor : SpanVisitor (Except Fault)} (parsed : SourceFile.parse path content = .ok file)
    (scanned : TokenStream.ofChars? content.toList = .ok stream)
    (fixed : stream.FixedBy visitor) : file.FixedBy visitor := by
  obtain ⟨name, decls, found, rfl⟩ := decls_of_parse parsed scanned
  obtain ⟨package, each⟩ := fixed.parse scanned found
  refine ⟨?_, fun decl member => ?_, fun decl member => ?_⟩
  · obtain ⟨packageName, packageSpan⟩ := package_foldl_add
      { SourceFile.blank path content with packageName := name.text, packageSpan := name.span }
      decls
    rw [packageName, packageSpan]
    exact package
  · rcases mem_imports_foldl_add member with none | declared
    · cases none
    · obtain ⟨image, visited, same⟩ := map_eq_ok.mp (each _ declared)
      rw [visited, TopDecl.importing.inj same]
  · have inside := (decls_foldl_add _ decls).subset member
    rcases List.mem_append.mp inside with declared | none
    · obtain ⟨given, held, rfl⟩ := List.mem_map.mp declared
      exact topDecl_walked (each given held)
    · cases none

end SourceFile

end GoRefactor
