import GoRefactor.Proofs.Edit.Renaming
import GoRefactor.Proofs.Go.Marks
import GoRefactor.Proofs.Go.Parser.Paired
import GoRefactor.Proofs.Symbol.Drafts

/-!
# Files laid out in lexemes

A text is made of lexemes, and a file keeps to them: its spans start and stop between lexemes, its
names stand where names stand. A scan gives such a file. Edits that put names in place of names
apply to it without a fault, and leave such a file. Unlike scanning, this asks nothing of the
lexemes but that none is empty: a text whose parts were put together after they were scanned is
laid out too, whatever a scan of the whole would give.
-/

namespace GoRefactor

open Lexeme

namespace Lexeme

variable {lexemes lexemes' : List Lexeme} {edits : List Edit}

/-- The marks of a text that is laid out in lexemes: the offsets between them, and the names among
them. Where dots count, whatever stands between two neighbouring offsets may be a name. -/
def marks (dots : Prop) (lexemes : List Lexeme) : Marks where
  Placed offset := ∃ count, offset = place lexemes count
  Named name span := ∃ lexeme, Stands 0 lexemes lexeme span ∧ String.ofList lexeme.text = name ∧
    (dots ∨ lexeme.isName = true)

/-- A lexeme stands between the offsets before and behind it. -/
theorem stands_iff {lexeme : Lexeme} {span : Span} :
    Stands 0 lexemes lexeme span ↔ ∃ count, lexemes[count]? = some lexeme ∧
      span = ⟨place lexemes count, place lexemes (count + 1)⟩ := by
  constructor
  · rintro ⟨front, back, rfl, rfl⟩
    refine ⟨front.length, by simp, ?_⟩
    rw [place, place, List.take_left, List.take_length_add_append]
    simp
  · rintro ⟨count, stands, rfl⟩
    obtain ⟨inside, rfl⟩ := List.getElem?_eq_some_iff.mp stands
    refine ⟨lexemes.take count, lexemes.drop (count + 1), ?_, ?_⟩
    · rw [List.getElem_cons_drop, List.take_append_drop]
    · rw [place, place, List.take_succ_eq_append_getElem inside, flat_append, byteLength_append]
      simp

/-- Spans of declarations start and stop between lexemes. -/
theorem placed_of_bound {stream : TokenStream} (solid : Solid lexemes)
    (tokens : stream.tokens = tokensFrom 0 1 false lexemes) {dots : Prop} {offset : Nat}
    (bound : stream.Bound offset) : (marks dots lexemes).Placed offset := by
  rcases bound with rfl | ⟨token, member, ends⟩
  · exact ⟨0, rfl⟩
  · rw [tokens] at member
    obtain ⟨⟨first, start⟩, last, stop⟩ := bound_of_mem_tokensFrom solid member
    rw [Nat.zero_add] at start stop
    rcases ends with rfl | rfl
    · exact ⟨first, start⟩
    · exact ⟨last, stop⟩

/-- Names of tokens are names of lexemes. -/
theorem named_of_token {stream : TokenStream}
    (tokens : stream.tokens = tokensFrom 0 1 false lexemes) {dots : Prop} {token : Token}
    (member : token ∈ stream.tokens)
    (names : token.kind = .identifier ∨ dots ∧ token.is "." = true) :
    (marks dots lexemes).Named token.text token.span := by
  rw [tokens] at member
  obtain ⟨lexeme, stands, text, word⟩ :=
    stands_of_mem_tokensFrom member (names.imp_right And.right)
  refine ⟨lexeme, stands, text, names.symm.imp And.left fun named => ?_⟩
  obtain ⟨rfl, proper⟩ := word named
  rw [isName, String.ofList_toList, proper]
  rfl

/-- A span between lexemes covers characters. -/
theorem spans_cut {dots : Prop} {span : Span} (spans : (marks dots lexemes).Spans span) :
    ∃ text, span.slice? (String.ofList (flat lexemes)) = some text := by
  obtain ⟨⟨first, start⟩, ⟨last, stop⟩, order⟩ := spans
  obtain ⟨start', stop'⟩ := span
  simp only at start stop order
  subst start stop
  -- The end is taken from the longer of the two runs of lexemes.
  have more : place lexemes first ≤ place lexemes (max first last) :=
    place_le (Nat.le_max_left first last)
  have same : place lexemes (max first last) = place lexemes last := by
    rcases Nat.le_total first last with less | greater
    · rw [Nat.max_eq_right less]
    · rw [Nat.max_eq_left greater]
      exact Nat.le_antisymm order (place_le greater)
  obtain ⟨extra, whole⟩ := Nat.exists_eq_add_of_le (Nat.le_max_left first last)
  refine ⟨String.ofList (flat ((lexemes.drop first).take extra)), Span.slice?_eq_some_iff.mpr
    ⟨order, String.ofList (flat (lexemes.take first)),
      String.ofList (flat (lexemes.drop (first + extra))), ?_, ?_, ?_⟩⟩
  · rw [← String.ofList_append, ← String.ofList_append, ← flat_append, ← flat_append,
      ← List.take_add, List.take_append_drop]
  · rw [utf8ByteSize_ofList]
  · rw [whole, place, List.take_add, flat_append, byteLength_append] at same
    rw [utf8ByteSize_ofList]
    exact Nat.eq_sub_of_add_eq' same

namespace Relabels

/-- What is put in place of a name can be declared. -/
theorem nameFlaw?_eq_none {offset : Nat} (relabels : Relabels offset lexemes edits lexemes')
    {edit : Edit} (member : edit ∈ edits) : nameFlaw? edit.replacement = none := by
  induction relabels with
  | done => cases member
  | keep lexeme others ih => exact ih member
  | swap first covers old new others ih =>
    rcases List.mem_cons.mp member with rfl | later
    · exact new
    · exact ih later

/-- Names stay names, and nothing else becomes one. -/
theorem map_isName {offset : Nat} (relabels : Relabels offset lexemes edits lexemes') :
    lexemes'.map isName = lexemes.map isName := by
  induction relabels with
  | done => rfl
  | keep lexeme others ih => rw [List.map_cons, List.map_cons, ih]
  | swap edit covers old new others ih =>
    rw [List.map_cons, List.map_cons, ih, isName, isName, old, String.ofList_toList,
      (isWord_of_name new).2]

/-- **Names in place of names take marks to marks.** -/
theorem carries (relabels : Relabels 0 lexemes edits lexemes') (solid : Solid lexemes)
    (fits : byteLength (flat lexemes) < 2 ^ 63) (fits' : byteLength (flat lexemes') < 2 ^ 63)
    (dots : Prop) :
    (marks dots lexemes).Carries (marks dots lexemes') (Edit.moveOffset (edits.map Edit.shift))
      fun name span => (Edit.replacementAt edits span).getD name := by
  have moves (count : Nat) := relabels.moveOffset_eq solid fits fits' count
  refine ⟨?_, ?_, ?_⟩
  · rintro offset ⟨count, rfl⟩
    exact ⟨count, moves count⟩
  · rintro offset offset' ⟨count, rfl⟩ ⟨count', rfl⟩ order
    rw [moves, moves]
    exact relabels.place_mono solid order
  · rintro name span ⟨lexeme, stands, rfl, names⟩ -
    obtain ⟨lexeme', span', stands', moved, -⟩ :=
      relabels.stands_remap solid fits fits' stands
    obtain ⟨renamed, placed⟩ := SpanVisitor.named_eq_ok_iff.mp moved
    have there := Span.eq_of_between ((Edit.remap_span _ span.start span.stop).symm.trans placed)
    rw [Edit.remap_name] at renamed
    refine ⟨lexeme', there ▸ stands', (Except.ok.inj renamed).symm,
      names.imp_right fun isName => ?_⟩
    -- The lexeme that stands there now is the one in the same position.
    obtain ⟨count, held, rfl⟩ := stands_iff.mp stands
    have alike := congrArg (·[count]?) relabels.map_isName
    simp only [List.getElem?_map, held, Option.map_some] at alike
    obtain ⟨other, held', same⟩ := Option.map_eq_some_iff.mp alike
    have start : place lexemes' count = span'.start := by
      simp only [there, moves]
    rw [← ((stands_iff.mpr ⟨count, held', rfl⟩).unique (relabels.solid solid) stands' start).1,
      same, isName]

end Relabels

end Lexeme

namespace SourceFile

/-- The file as if it imported nothing. -/
def withoutImports (file : SourceFile) : SourceFile := { file with imports := [] }

/-- Imports are visited apart from everything else. -/
theorem file_withoutImports (visitor : SpanVisitor Id) (file : SourceFile) :
    visitor.file file.withoutImports = withoutImports (visitor.file file) := rfl

/-- Imports are not kept by name. -/
theorem rekey_withoutImports (file : SourceFile) :
    file.withoutImports.rekey = file.rekey.withoutImports := rfl

/-- The file keeps to the lexemes of its text. -/
structure LaidOut (lexemes : List Lexeme) (file : SourceFile) : Prop where
  /-- The lexemes make up the text. -/
  content : file.content = String.ofList (flat lexemes)
  /-- No lexeme is empty. -/
  solid : Solid lexemes
  /-- Names and spans are marked; an import may be named by a dot. -/
  fixed : file.FixedBy (marks True lexemes).guard
  /-- All other names are proper ones. -/
  proper : file.withoutImports.FixedBy (marks False lexemes).guard
  /-- Members of types stand in order. -/
  inOrder : ∀ decl ∈ file.types.values, decl.shape.InOrder
  /-- The name of the package is a word. -/
  package : IsWord file.packageName.toList
  /-- Names and places go together. -/
  paired : file.Paired

end SourceFile

namespace Marks

variable {marks marks' : Marks} {move : Nat → Nat} {rename : String → Span → String}

/-- Members of a type that keeps to the marks stay in order. -/
theorem Carries.inOrder (carries : marks.Carries marks' move rename) {decl : TypeDecl}
    (passed : marks.guard.typeDecl decl = .ok decl) (inOrder : decl.shape.InOrder) :
    ((SpanVisitor.moving move rename).typeDecl decl).shape.InOrder := by
  have shaped : ((SpanVisitor.moving move rename).typeDecl decl).shape =
      (SpanVisitor.moving move rename).typeShape decl.shape := rfl
  obtain ⟨_, -, visited⟩ := bind_eq_ok.mp passed
  obtain ⟨_, -, visited⟩ := bind_eq_ok.mp visited
  obtain ⟨_, visited, -⟩ := bind_eq_ok.mp visited
  rw [shaped]
  cases shape : decl.shape with
  | struct fields =>
    rw [shape] at visited inOrder
    obtain ⟨_, each, -⟩ := bind_eq_ok.mp visited
    intro field member
    obtain ⟨before, held, rfl⟩ := SpanVisitor.mem_mapM_id member
    intro proper
    obtain ⟨_, -, one⟩ := exists_mem_of_forall₂ (mapM_eq_ok_iff.mp each).flip held
    obtain ⟨_, named, one⟩ := bind_eq_ok.mp one
    obtain ⟨_, typed, -⟩ := bind_eq_ok.mp one
    exact carries.mono _ _ (guard_named_iff.mp named).2.1.1 (guard_span_iff.mp typed).1.2.1
      (inOrder before held proper)
  | interface methods embeds =>
    rw [shape] at visited inOrder
    obtain ⟨_, each, -⟩ := bind_eq_ok.mp visited
    intro method member
    obtain ⟨before, held, rfl⟩ := SpanVisitor.mem_mapM_id member
    obtain ⟨_, -, one⟩ := exists_mem_of_forall₂ (mapM_eq_ok_iff.mp each).flip held
    obtain ⟨_, named, one⟩ := bind_eq_ok.mp one
    obtain ⟨_, typed, -⟩ := bind_eq_ok.mp one
    exact carries.mono _ _ (guard_named_iff.mp named).2.1.1 (guard_span_iff.mp typed).1.2.1
      (inOrder before held)
  | other underlying => trivial

end Marks

namespace SourceFile

/-! ## Scanned files are laid out -/

/-- A visitor that leaves alone what is read, imports apart, leaves alone what a file keeps of
it. -/
theorem topDecl_of_mem_decls {visitor : SpanVisitor (Except Fault)} {base : SourceFile}
    {read : List TopDecl} (fresh : base.decls = [])
    (still : ∀ decl ∈ read, decl.isImport = false → visitor.topDecl decl = .ok decl)
    {decl : TopDecl} (declared : decl ∈ (read.foldl SourceFile.add base).decls) :
    visitor.topDecl decl = .ok decl := by
  have listed := (decls_foldl_add base read).subset declared
  rw [fresh, List.append_nil] at listed
  obtain ⟨given, held, rfl⟩ := List.mem_map.mp listed
  refine topDecl_walked (still given held ?_)
  cases given with
  | importing decl => simp [decls, TopDecl.walked] at declared
  | type => rfl
  | function => rfl
  | var => rfl
  | const => rfl

/-- A visitor that leaves spans between tokens and proper names alone leaves everything but the
imports alone. -/
theorem fixedBy_withoutImports {path content : String} {file : SourceFile} {stream : TokenStream}
    {visitor : SpanVisitor (Except Fault)} (parsed : SourceFile.parse path content = .ok file)
    (scanned : TokenStream.ofChars? content.toList = .ok stream)
    (spans : ∀ {start stop : Nat}, stream.Bound start → stream.Bound stop → start ≤ stop →
      visitor.span ⟨start, stop⟩ = .ok ⟨start, stop⟩)
    (names : ∀ token ∈ stream.tokens, token.kind = .identifier →
      visitor.name token.text token.span = .ok token.text) :
    file.withoutImports.FixedBy visitor := by
  obtain ⟨name, decls, found, rfl⟩ := decls_of_parse parsed scanned
  obtain ⟨member, named, place, limit, ordered, inside, -, rfl⟩ :=
    TokenStream.place_of_parse scanned found
  have still : place.FixedBy visitor False stream.Bound :=
    TokenStream.fixedBy_along scanned ordered inside spans fun token held given =>
      names token held (given.resolve_right fun dot => dot.1)
  refine ⟨?_, fun _ none => (nomatch none), fun decl declared => ?_⟩
  · obtain ⟨packageName, packageSpan⟩ := package_foldl_add
      { SourceFile.blank path content with packageName := name.text, packageSpan := name.span }
      ((Parse.declarations limit limit).run place).1
    simp only [withoutImports]
    rw [packageName, packageSpan]
    exact SpanVisitor.named_eq_ok_iff.mpr ⟨names name member named,
      spans (Or.inr ⟨name, member, Or.inl rfl⟩) (Or.inr ⟨name, member, Or.inr rfl⟩)
        (TokenStream.start_le_stop scanned member)⟩
  · refine topDecl_of_mem_decls rfl (fun decl held proper => ?_) declared
    exact still.declarations limit held fun isImport => by rw [isImport] at proper; cases proper

/-- A text that is read is one that can be cut into lexemes. -/
theorem stream_of_parse {path content : String} {file : SourceFile}
    (parsed : SourceFile.parse path content = .ok file) :
    ∃ stream, TokenStream.ofChars? content.toList = .ok stream := by
  cases scanned : TokenStream.ofChars? content.toList with
  | error failure =>
    rw [SourceFile.parse, scanned] at parsed
    cases parsed
  | ok stream => exact ⟨stream, rfl⟩

/-- **A scan gives a file that is laid out in the lexemes of its text.** -/
theorem laidOut_of_parse {path content : String} {file : SourceFile}
    (parsed : SourceFile.parse path content = .ok file) : ∃ lexemes, file.LaidOut lexemes := by
  have same := scanned_of_parse parsed
  obtain ⟨stream, scanned⟩ := stream_of_parse same
  obtain ⟨lexemes, flat, cut, tokens⟩ := TokenStream.lexemes_of_ofChars? scanned
  have solid := solid_of_cut cut
  have spans {dots : Prop} {start stop : Nat} (first : stream.Bound start)
      (last : stream.Bound stop) (order : start ≤ stop) :
      (marks dots lexemes).guard.span ⟨start, stop⟩ = .ok ⟨start, stop⟩ :=
    Marks.guard_span_iff.mpr
      ⟨⟨placed_of_bound solid tokens first, placed_of_bound solid tokens last, order⟩, rfl⟩
  refine ⟨lexemes, ?_, solid, ?_, ?_, ?_, ?_, paired_of_parse same scanned⟩
  · rw [← flat, String.ofList_toList]
  · refine fixedBy_of_parse same scanned ⟨spans, fun token member names => ?_⟩
    exact Marks.guard_name_iff.mpr
      ⟨named_of_token tokens member (names.imp_right fun dot => ⟨trivial, dot⟩), rfl⟩
  · refine fixedBy_withoutImports same scanned spans fun token member named => ?_
    exact Marks.guard_name_iff.mpr ⟨named_of_token tokens member (Or.inl named), rfl⟩
  · exact fun decl held => ((formed_of_parse same scanned).types decl held).inOrder
  · obtain ⟨name, decls, found, read⟩ := decls_of_parse same scanned
    obtain ⟨member, named, -⟩ := TokenStream.place_of_parse scanned found
    rw [tokens] at member
    rw [read, (package_foldl_add _ _).1]
    exact (isWord_of_mem_tokensFrom cut member named).1

/-! ## Names in place of names -/

variable {file : SourceFile} {lexemes lexemes' : List Lexeme} {edits : List Edit}

/-- **Names in place of names apply to a file that is laid out, and leave it laid out.** -/
theorem LaidOut.applyToFile (laid : file.LaidOut lexemes)
    (relabels : Relabels 0 lexemes edits lexemes') (fits : byteLength (flat lexemes) < 2 ^ 63)
    (fits' : byteLength (flat lexemes') < 2 ^ 63) :
    ∃ image, Edit.applyToFile edits file = .ok image ∧ image.LaidOut lexemes' := by
  let edited : SourceFile := { file with content := Edit.spliceAll edits file.content }
  let visitor := SpanVisitor.moving (Edit.moveOffset (edits.map Edit.shift)) fun name span =>
    (Edit.replacementAt edits span).getD name
  have carries (dots : Prop) := relabels.carries laid.solid fits fits' dots
  have fixed : edited.FixedBy (marks True lexemes).guard :=
    ⟨laid.fixed.package, laid.fixed.imports, laid.fixed.decls⟩
  have proper : edited.withoutImports.FixedBy (marks False lexemes).guard :=
    ⟨laid.proper.package, laid.proper.imports, laid.proper.decls⟩
  have moved : (Edit.remap edits).file edited = .ok (visitor.file edited) := by
    refine Marks.file_eq fixed (fun span spans => ?_) fun name span _ _ => Edit.remap_name _ _ _
    refine (Edit.remap_span edits span.start span.stop).trans (Span.between_of_le ?_)
    exact (carries True).mono _ _ spans.1 spans.2.1 spans.2.2
  have paired : edited.Paired := ⟨laid.paired.imports, laid.paired.decls⟩
  refine ⟨SourceFile.rekey (visitor.file edited), ?_, ?_, ?_, ?_, ?_, ?_, ?_, paired.visit visitor⟩
  · exact bind_eq_ok.mpr ⟨_, moved, rfl⟩
  · have spliced := relabels.spliceAll_eq String.utf8ByteSize_empty
    rw [String.empty_append, String.empty_append, ← laid.content] at spliced
    exact spliced
  · exact relabels.solid laid.solid
  · exact (carries True).fixedBy fixed
  · rw [← rekey_withoutImports, ← file_withoutImports]
    exact (carries False).fixedBy proper
  · intro decl member
    obtain ⟨before, held, rfl⟩ := SpanVisitor.mem_values_nameMap_rekey member
    exact (carries True).inOrder (laid.fixed.typeDecl held) (laid.inOrder before held)
  · -- The package is named as before, or by a name that can be declared.
    change IsWord ((Edit.replacementAt edits file.packageSpan).getD file.packageName).toList
    unfold Edit.replacementAt
    cases found : edits.find? fun edit => !edit.span.isEmpty && edit.span == file.packageSpan with
    | none => exact laid.package
    | some edit =>
      exact (isWord_of_name (relabels.nameFlaw?_eq_none (List.mem_of_find?_eq_some found))).1

end SourceFile

end GoRefactor
