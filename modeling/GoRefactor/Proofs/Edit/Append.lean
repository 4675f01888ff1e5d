import GoRefactor.Proofs.Edit.LaidOut
import GoRefactor.Transform.Extract

/-!
# Declarations at the end of a file

A declaration that is appended to a file is scanned apart, behind a package clause of its own, and
the types it declares are moved to where the text lands. The file stays laid out: the lexemes of
the appended text follow its own, nothing else moves, and the types keep to the new lexemes. A file
that keeps to the names of its declarations too is changed very little: its text grows at its end,
and the types that the appended text declares on its own are registered. Every other declaration
stays as it is, spans and names included.
-/

namespace GoRefactor

open Lexeme

/-- Those of the marks that stand at an offset or behind it. -/
def Marks.behind (low : Nat) (marks : Marks) : Marks where
  Placed offset := low ≤ offset ∧ marks.Placed offset
  Named name span := low ≤ span.start ∧ marks.Named name span

namespace Lexeme

variable {lexemes front front' back more : List Lexeme} {dots : Prop}

/-- Behind some lexemes, places are behind their text by as much as in what follows. -/
theorem place_append (front back : List Lexeme) (count : Nat) :
    place (front ++ back) (front.length + count) = byteLength (flat front) + place back count := by
  rw [place, place, List.take_length_add_append, flat_append, byteLength_append]

/-- Lexemes behind a text leave its marks. -/
theorem carries_append (more : List Lexeme) :
    (marks dots lexemes).Carries (marks dots (lexemes ++ more)) id fun name _ => name := by
  refine ⟨?_, fun _ _ _ _ order => order, ?_⟩
  · rintro offset ⟨count, rfl⟩
    refine ⟨min count lexemes.length, ?_⟩
    rw [id, place, place, List.take_append_of_le_length (Nat.min_le_right _ _),
      List.take_eq_take_min]
  · rintro name span ⟨lexeme, ⟨front, back, rfl, covers⟩, text, isName⟩ -
    exact ⟨lexeme, ⟨front, back ++ more, by simp, covers⟩, text, isName⟩

/-- A place at the end of some lexemes or behind it is a place of those that follow. -/
theorem place_behind {count : Nat}
    (behind : byteLength (flat front) ≤ place (front ++ back) count) :
    ∃ count', place (front ++ back) count = byteLength (flat front) + place back count' := by
  rcases Nat.le_total front.length count with far | near
  · obtain ⟨extra, rfl⟩ := Nat.exists_eq_add_of_le far
    exact ⟨extra, place_append front back extra⟩
  · refine ⟨0, Nat.le_antisymm ?_ behind⟩
    have within : place (front ++ back) count ≤ _ := place_le near
    have whole := place_append front back 0
    rw [Nat.add_zero] at whole
    exact within.trans_eq whole

/-- Lexemes that are moved behind another text take their marks with them. -/
theorem carries_behind (solid : Solid (front ++ back)) {move : Nat → Nat}
    (moves : ∀ extra, extra ≤ byteLength (flat back) →
      move (byteLength (flat front) + extra) = byteLength (flat front') + extra) :
    ((marks dots (front ++ back)).behind (byteLength (flat front))).Carries
      (marks dots (front' ++ back)) move fun name _ => name := by
  have moved (count : Nat) : move (byteLength (flat front) + place back count) =
      place (front' ++ back) (front'.length + count) := by
    rw [moves _ (byteLength_flat_take_le back count), place_append]
  refine ⟨?_, ?_, ?_⟩
  · rintro offset ⟨far, count, rfl⟩
    obtain ⟨count', same⟩ := place_behind far
    exact ⟨front'.length + count', by rw [same, moved]⟩
  · rintro offset offset' ⟨far, count, rfl⟩ ⟨far', count', rfl⟩ order
    obtain ⟨first, same⟩ := place_behind far
    obtain ⟨last, same'⟩ := place_behind far'
    rw [same, same'] at order ⊢
    rw [moves (place back first) (byteLength_flat_take_le back first),
      moves (place back last) (byteLength_flat_take_le back last)]
    omega
  · rintro name span ⟨far, lexeme, stands, text, isName⟩ -
    obtain ⟨count, held, rfl⟩ := stands_iff.mp stands
    -- The lexeme is not one of those in front, which all end there.
    have beyond : front.length ≤ count := by
      by_contra near
      rw [Nat.not_le] at near
      have ends : place (front ++ back) (count + 1) ≤ place (front ++ back) count := by
        have whole := place_append front back 0
        rw [Nat.add_zero] at whole
        exact (place_le near).trans (whole.trans_le far)
      have same := congrArg List.length (take_eq_of_place_le solid (Nat.le_succ count) ends)
      have inside := (List.getElem?_eq_some_iff.mp held).1
      rw [List.length_take, List.length_take] at same
      omega
    obtain ⟨extra, rfl⟩ := Nat.exists_eq_add_of_le beyond
    rw [List.getElem?_append_right (Nat.le_add_right _ _), Nat.add_sub_cancel_left] at held
    refine ⟨lexeme, stands_iff.mpr ⟨front'.length + extra, ?_, ?_⟩, text, isName⟩
    · rw [List.getElem?_append_right (Nat.le_add_right _ _), Nat.add_sub_cancel_left, held]
    · rw [Nat.add_assoc front'.length, ← moved, ← moved, Nat.add_assoc front.length, place_append,
        place_append]

end Lexeme

namespace SourceFile

variable {file : SourceFile} {lexemes : List Lexeme}

/-- An insertion at the end of a text moves nothing in it. -/
theorem moveOffset_insert_end {length : Nat} (small : length < 2 ^ 63) {edit : Edit}
    (inserts : edit.span = Span.point length) {offset : Nat} (within : offset ≤ length) :
    Edit.moveOffset ([edit].map Edit.shift) offset = offset := by
  have still : edit.shift.precedes offset = false := by
    rw [Edit.Shift.precedes, Edit.shift, inserts]
    simp only [Span.isEmpty, Span.point, beq_self_eq_true, if_true]
    exact decide_eq_false (by omega)
  rw [Edit.moveOffset, List.map_singleton, Edit.growthBefore, still]
  exact shiftOffset_eq (Int.add_zero _) (by omega)

/-- An insertion changes no name. -/
theorem remap_name_insert {edit : Edit} {offset : Nat} (inserts : edit.span = Span.point offset)
    (name : String) (span : Span) : (Edit.remap [edit]).name name span = .ok name := by
  rw [Edit.remap_name, Edit.replacementAt, List.find?_singleton, inserts]
  simp [Span.isEmpty, Span.point]

/-- An insertion at the end of a text puts the replacement there. -/
theorem spliceAll_insert_end {edit : Edit} {content : String}
    (inserts : edit.span = Span.point content.utf8ByteSize) :
    Edit.spliceAll [edit] content = content ++ edit.replacement := by
  have cut : content = content ++ "" ++ "" := by simp
  have spliced := edit.splice_eq cut (by rw [inserts]; rfl) (by rw [inserts]; rfl)
  rwa [String.append_empty] at spliced

/-- An insertion at the end of a text moves no span that keeps to the lexemes of the text. -/
theorem LaidOut.remap_span_insert_end (laid : file.LaidOut lexemes) {edit : Edit}
    (inserts : edit.span = Span.point file.content.utf8ByteSize)
    (small : file.content.utf8ByteSize < 2 ^ 63) {span : Span}
    (spans : (marks True lexemes).Spans span) : (Edit.remap [edit]).span span = .ok span := by
  have within {offset : Nat} (placed : (marks True lexemes).Placed offset) :
      offset ≤ file.content.utf8ByteSize := by
    obtain ⟨count, rfl⟩ := placed
    rw [laid.content, utf8ByteSize_ofList]
    exact byteLength_flat_take_le lexemes count
  rw [Edit.remap_span, moveOffset_insert_end small inserts (within spans.1),
    moveOffset_insert_end small inserts (within spans.2.1)]
  exact Span.between_of_le spans.2.2

/-- **Text at the end of a file that is laid out leaves it laid out.** -/
theorem LaidOut.insert_end (laid : file.LaidOut lexemes) {more : List Lexeme} (solid : Solid more)
    {edit : Edit} (inserts : edit.span = Span.point file.content.utf8ByteSize)
    (text : edit.replacement = String.ofList (flat more))
    (small : file.content.utf8ByteSize < 2 ^ 63) :
    ∃ image, Edit.applyToFile [edit] file = .ok image ∧ image.LaidOut (lexemes ++ more) := by
  let edited : SourceFile := { file with content := Edit.spliceAll [edit] file.content }
  let visitor := SpanVisitor.moving id fun name _ => name
  have fixed : edited.FixedBy (marks True lexemes).guard :=
    ⟨laid.fixed.package, laid.fixed.imports, laid.fixed.decls⟩
  have proper : edited.withoutImports.FixedBy (marks False lexemes).guard :=
    ⟨laid.proper.package, laid.proper.imports, laid.proper.decls⟩
  have paired : edited.Paired := ⟨laid.paired.imports, laid.paired.decls⟩
  have moved : (Edit.remap [edit]).file edited = .ok (visitor.file edited) :=
    Marks.file_eq fixed (fun _ spans => laid.remap_span_insert_end inserts small spans)
      fun name span _ _ => remap_name_insert inserts name span
  refine ⟨SourceFile.rekey (visitor.file edited), bind_eq_ok.mpr ⟨_, moved, rfl⟩,
    ⟨?_, ?_, ?_, ?_, ?_, ?_, paired.visit visitor⟩⟩
  · rw [flat_append, String.ofList_append, ← laid.content, ← text]
    exact spliceAll_insert_end inserts
  · exact fun lexeme member => (List.mem_append.mp member).elim (laid.solid lexeme) (solid lexeme)
  · exact (carries_append more).fixedBy fixed
  · rw [← rekey_withoutImports, ← file_withoutImports]
    exact (carries_append more).fixedBy proper
  · intro decl member
    obtain ⟨before, held, rfl⟩ := SpanVisitor.mem_values_nameMap_rekey member
    exact (carries_append more).inOrder (laid.fixed.typeDecl held) (laid.inOrder before held)
  · exact laid.package

/-- A visitor that leaves a file and a type alone leaves alone the file with the type. -/
theorem FixedBy.insert_type {visitor : SpanVisitor (Except Fault)} (fixed : file.FixedBy visitor)
    {decl : TypeDecl} (visited : visitor.typeDecl decl = .ok decl) (name : String) :
    FixedBy { file with types := file.types.insert name decl } visitor := by
  refine ⟨fixed.package, fixed.imports, fun other member => ?_⟩
  rcases List.mem_append.mp member with front | values
  · rcases List.mem_append.mp front with types | functions
    · obtain ⟨type, inside, rfl⟩ := List.mem_map.mp types
      rcases NameMap.mem_values_insert inside with rfl | former
      · exact map_eq_ok.mpr ⟨_, visited, rfl⟩
      · exact map_eq_ok.mpr ⟨_, fixed.typeDecl former, rfl⟩
    · exact fixed.decls other (List.mem_append_left _ (List.mem_append_right _ functions))
  · exact fixed.decls other (List.mem_append_right _ values)

/-- Types that keep to the lexemes may be put under any names. -/
theorem LaidOut.register (laid : file.LaidOut lexemes) {types : List (String × TypeDecl)}
    (each : ∀ entry ∈ types, (∀ dots, (marks dots lexemes).guard.typeDecl entry.2 = .ok entry.2) ∧
      entry.2.shape.InOrder ∧ entry.2.shape.pairs = true) :
    LaidOut lexemes { file with
      types := types.foldl (fun map (name, decl) => map.insert name decl) file.types } := by
  induction types generalizing file with
  | nil => exact laid
  | cons entry rest ih =>
    obtain ⟨⟨passes, inOrder, pairs⟩, others⟩ := List.forall_mem_cons.mp each
    obtain ⟨imports, types, functions, values⟩ := paired_iff.mp laid.paired
    have one : LaidOut lexemes { file with types := file.types.insert entry.1 entry.2 } := by
      refine ⟨laid.content, laid.solid, laid.fixed.insert_type (passes True) _,
        laid.proper.insert_type (passes False) _, fun decl member => ?_, laid.package,
        paired_iff.mpr ⟨imports, fun decl member => ?_, functions, values⟩⟩
      · rcases NameMap.mem_values_insert member with rfl | former
        · exact inOrder
        · exact laid.inOrder decl former
      · rcases NameMap.mem_values_insert member with rfl | former
        · exact pairs
        · exact types decl former
    exact ih one others

end SourceFile

/-! ## Types declared apart -/

/-- The package clause in front of a text that is scanned apart. -/
def clauseLexemes (packageName : String) : List Lexeme :=
  [.word "package".toList, .blank ' ', .word packageName.toList]

/-- A package clause has eight bytes more than its name. -/
theorem byteLength_clauseLexemes (packageName : String) :
    byteLength (flat (clauseLexemes packageName)) = 8 + packageName.utf8ByteSize := by
  have keyword : byteLength ("package".toList ++ [' ']) = 8 := by decide
  have flat_eq : flat (clauseLexemes packageName) =
      "package".toList ++ [' '] ++ packageName.toList := by
    simp [clauseLexemes, Lexeme.text]
  rw [flat_eq, byteLength_append, keyword, byteLength_toList]

/-- A text behind a package clause is cut behind the clause. -/
theorem cut_clause {packageName rendered : String} {lexemes : List Lexeme} (cut : Cut lexemes)
    (word : IsWord packageName.toList)
    (covers : ("package " ++ packageName ++ "\n" ++ rendered).toList = flat lexemes) :
    ∃ more, lexemes = clauseLexemes packageName ++ .newline :: more ∧
      flat more = rendered.toList ∧ Cut more := by
  have keyword : IsWord "package".toList := by
    rw [show "package".toList = ['p', 'a', 'c', 'k', 'a', 'g', 'e'] by decide]
    exact ⟨by decide, List.all_eq_true.mp (by decide)⟩
  have chars : flat lexemes = "package".toList ++
      (' ' :: (packageName.toList ++ '\n' :: rendered.toList)) := by
    rw [← covers]
    simp
  obtain ⟨_, rfl, chars, cut⟩ := cut_eq_cons (.word _) cut chars
    (leads_word_iff.mpr ⟨keyword, rfl⟩)
  obtain ⟨_, rfl, chars, cut⟩ := cut_eq_cons (.blank ' ') cut chars rfl
  obtain ⟨_, rfl, chars, cut⟩ := cut_eq_cons (.word _) cut chars
    (leads_word_iff.mpr ⟨word, rfl⟩)
  obtain ⟨more, rfl, chars, cut⟩ := cut_eq_cons .newline cut chars rfl
  exact ⟨more, rfl, chars, cut⟩

/-- Tokens of a text behind a package clause: the keyword, the name of the package, which ends with
the clause, and those behind the clause. -/
theorem clause_tokens {packageName : String} {rest : List Lexeme} {token : Token}
    (member : token ∈ tokensFrom 0 1 false (clauseLexemes packageName ++ rest)) :
    token.kind = .keyword ∨
      token.kind = .identifier ∧ token.span.stop = 8 + packageName.utf8ByteSize ∨
      8 + packageName.utf8ByteSize ≤ token.span.start := by
  have keyword : isKeyword (String.ofList "package".toList) = true := by decide
  have size : byteLength "package".toList = 7 := by decide
  have blank : byteLength [' '] = 1 := by decide
  simp only [clauseLexemes, List.cons_append, List.nil_append, tokensFrom, token?, keyword,
    breaksLine, Lexeme.text, size, blank, Bool.false_eq_true, if_false, if_true] at member
  rcases List.mem_cons.mp member with rfl | later
  · exact Or.inl rfl
  rcases List.mem_cons.mp later with rfl | later
  · by_cases reserved : isKeyword (String.ofList packageName.toList) = true
    · exact Or.inl (if_pos reserved)
    · refine Or.inr (Or.inl ⟨if_neg reserved, ?_⟩)
      simp only [byteLength_toList]
  · obtain ⟨front, back, -, span⟩ := tokensFrom_covers later
    refine Or.inr (Or.inr ?_)
    rw [span, byteLength_toList]
    simp only
    omega

/-- What is read behind the package clause keeps to the marks from the end of the clause on. -/
theorem fixedBy_clause {packageName : String} {content : List Char} {rest : List Lexeme}
    {stream : TokenStream} (scanned : TokenStream.ofChars? content = .ok stream)
    (tokens : stream.tokens = tokensFrom 0 1 false (clauseLexemes packageName ++ rest))
    (solid : Solid (clauseLexemes packageName ++ rest)) {place : Cursor} (ordered : place.Ordered)
    (inside : place.Along stream) {name : Token} (member : name ∈ stream.tokens)
    (named : name.kind = .identifier) (last : place.lastEnd = name.span.stop) (dots : Prop) :
    place.FixedBy
      ((marks dots (clauseLexemes packageName ++ rest)).behind (8 + packageName.utf8ByteSize)).guard
      dots
      ((marks dots (clauseLexemes packageName ++ rest)).behind
        (8 + packageName.utf8ByteSize)).Placed := by
  have placed {offset : Nat} (bound : stream.Bound offset) :
      (marks dots (clauseLexemes packageName ++ rest)).Placed offset :=
    placed_of_bound solid tokens bound
  have low : 8 + packageName.utf8ByteSize ≤ place.lastEnd := by
    have order := TokenStream.start_le_stop scanned member
    rw [tokens] at member
    rcases clause_tokens member with keyword | ⟨-, ends⟩ | behind
    · rw [keyword] at named
      cases named
    · rw [last, ends]
    · rw [last]
      exact behind.trans order
  have starts {token : Token} (held : token ∈ place.finish :: place.ahead) :
      token ∈ stream.tokens ∧ 8 + packageName.utf8ByteSize ≤ token.span.start := by
    rcases List.mem_cons.mp held with rfl | ahead
    · refine ⟨inside.finish, ?_⟩
      have finish := inside.finish
      rw [tokens] at finish
      rcases clause_tokens finish with keyword | ⟨identifier, -⟩ | behind
      · rw [ordered.finishes] at keyword
        cases keyword
      · rw [ordered.finishes] at identifier
        cases identifier
      · exact behind
    · exact ⟨inside.ahead token ahead, low.trans (ordered.behind token ahead)⟩
  refine ⟨fun first last order => Marks.guard_span_iff.mpr ⟨⟨first, last, order⟩, rfl⟩,
    fun token held names => ?_, fun token held => ?_, ⟨low, placed inside.lastEnd⟩,
    ordered.finishes⟩
  · obtain ⟨among, behind⟩ := starts (List.mem_cons_of_mem _ held)
    exact Marks.guard_name_iff.mpr ⟨⟨behind, named_of_token tokens among names⟩, rfl⟩
  · obtain ⟨among, behind⟩ := starts held
    have order := TokenStream.start_le_stop scanned among
    exact ⟨⟨behind, placed (Or.inr ⟨token, among, Or.inl rfl⟩)⟩,
      ⟨behind.trans order, placed (Or.inr ⟨token, among, Or.inr rfl⟩)⟩, order⟩

/-- **Types that a text declares, moved to where it lands, keep to the lexemes there.** -/
theorem snippetTypes_marked {path packageName rendered : String} {landing : Nat}
    {types : List (String × TypeDecl)} (word : IsWord packageName.toList)
    (made : snippetTypes path packageName rendered landing = .ok types) :
    ∃ more, rendered = String.ofList (flat more) ∧ Solid more ∧
      ∀ front, byteLength (flat front) + 1 = landing →
        landing + rendered.utf8ByteSize < 2 ^ 63 → ∀ entry ∈ types,
          (∀ dots, (marks dots (front ++ .newline :: more)).guard.typeDecl entry.2 = .ok entry.2) ∧
            entry.2.shape.InOrder ∧ entry.2.shape.pairs = true := by
  unfold snippetTypes at made
  obtain ⟨snippet, read, given⟩ := bind_eq_ok.mp made
  have parsed : SourceFile.parse path ("package " ++ packageName ++ "\n" ++ rendered) =
      .ok snippet := by
    unfold scanFile at read
    split at read
    · cases read
      assumption
    · cases read
  obtain ⟨stream, scanned⟩ := SourceFile.stream_of_parse parsed
  obtain ⟨lexemes, covers, cut, tokens⟩ := TokenStream.lexemes_of_ofChars? scanned
  have solid := solid_of_cut cut
  obtain ⟨more, rfl, flat_more, cut_more⟩ := cut_clause cut word covers
  refine ⟨more, by rw [flat_more, String.ofList_toList], solid_of_cut cut_more, ?_⟩
  intro front lands small entry member
  obtain ⟨name, decls, found, file⟩ := SourceFile.decls_of_parse parsed scanned
  obtain ⟨nameMember, named, place, limit, ordered, inside, last, rfl⟩ :=
    TokenStream.place_of_parse scanned found
  rw [← Except.ok.inj given] at member
  obtain ⟨⟨key, decl⟩, held, rfl⟩ := List.mem_map.mp member
  have held : decl ∈ snippet.types.values := List.mem_map_of_mem held
  -- The text lands one byte behind the lexemes in front: behind a line break.
  have carries (dots : Prop) :
      ((marks dots (clauseLexemes packageName ++ .newline :: more)).behind
        (8 + packageName.utf8ByteSize)).Carries (marks dots (front ++ .newline :: more))
        (shiftOffset ((landing : Int) -
          (("package " ++ packageName ++ "\n").utf8ByteSize : Int))) fun name _ => name := by
    rw [← byteLength_clauseLexemes]
    refine carries_behind solid fun extra within => ?_
    have header : ("package " ++ packageName ++ "\n").utf8ByteSize =
        9 + packageName.utf8ByteSize := by
      rw [String.utf8ByteSize_append, String.utf8ByteSize_append,
        show "package ".utf8ByteSize = 8 by decide, show "\n".utf8ByteSize = 1 by decide]
      omega
    have behind : byteLength (flat (.newline :: more)) = 1 + rendered.utf8ByteSize := by
      rw [flat_cons, byteLength_append, flat_more, byteLength_toList]
      rfl
    have clause := byteLength_clauseLexemes packageName
    exact shiftOffset_eq (by omega) (by omega)
  have visited (dots : Prop) : (((marks dots (clauseLexemes packageName ++ .newline :: more)).behind
      (8 + packageName.utf8ByteSize)).guard.typeDecl decl) = .ok decl := by
    have still := fixedBy_clause scanned tokens solid ordered inside nameMember named last dots
    have declared : TopDecl.type decl ∈ snippet.decls :=
      List.mem_append_left _ (List.mem_append_left _ (List.mem_map_of_mem held))
    rw [file] at declared
    have fixed := SourceFile.topDecl_of_mem_decls rfl (fun given listed proper =>
      still.declarations limit listed fun isImport => by rw [isImport] at proper; cases proper)
      declared
    obtain ⟨image, visited, same⟩ := map_eq_ok.mp fixed
    rw [visited, TopDecl.type.inj same]
  refine ⟨fun dots => (carries dots).walk (SpanVisitor.tours_typeDecl _) (visited dots), ?_, ?_⟩
  · exact (carries True).inOrder (visited True)
      ((SourceFile.formed_of_parse parsed scanned).types decl held).inOrder
  · obtain ⟨-, pairs, -⟩ := SourceFile.paired_iff.mp (SourceFile.paired_of_parse parsed scanned)
    exact ((SpanVisitor.tours_typeShape decl.shape).paired_iff _).mpr (pairs decl held)

namespace SourceFile

variable {file : SourceFile} {lexemes : List Lexeme}

/-- What is appended holds the declaration. -/
theorem size_le_appendEdit (path content rendered : String) :
    rendered.utf8ByteSize ≤ (appendEdit path content rendered).replacement.utf8ByteSize := by
  rw [appendEdit, Edit.insert, String.utf8ByteSize_append]
  omega

/-- **A declaration at the end of a file that is laid out leaves it laid out, with the types that it
declares.** -/
theorem LaidOut.append (laid : file.LaidOut lexemes) {path rendered : String}
    {types : List (String × TypeDecl)}
    (made : snippetTypes path file.packageName rendered
      ((appendEdit path file.content rendered).span.start +
        ((appendEdit path file.content rendered).replacement.utf8ByteSize -
          rendered.utf8ByteSize)) = .ok types)
    (small : file.content.utf8ByteSize +
      (appendEdit path file.content rendered).replacement.utf8ByteSize < 2 ^ 63) :
    ∃ image, Edit.applyToFile [appendEdit path file.content rendered] file = .ok image ∧
      ∃ lexemes', LaidOut lexemes' { image with
        types := types.foldl (fun map (name, decl) => map.insert name decl) image.types } := by
  obtain ⟨more, text, solid, marked⟩ := snippetTypes_marked laid.package made
  have size : byteLength (flat lexemes) = file.content.utf8ByteSize := by
    rw [laid.content, utf8ByteSize_ofList]
  have newline : byteLength (flat [.newline]) = 1 := by decide
  have broken : String.ofList (flat (.newline :: more)) = "\n" ++ rendered := by
    rw [text, flat_cons, String.ofList_append]
    rfl
  -- One line break or two: the declaration stands behind the last of them.
  have lands : ∃ front extra, lexemes ++ extra = front ++ .newline :: more ∧ Solid extra ∧
      (appendEdit path file.content rendered).replacement = String.ofList (flat extra) ∧
      byteLength (flat front) + 1 = file.content.utf8ByteSize +
        ((appendEdit path file.content rendered).replacement.utf8ByteSize -
          rendered.utf8ByteSize) := by
    by_cases ends : endsWith file.content "\n" = true
    · refine ⟨lexemes, .newline :: more, rfl, List.forall_mem_cons.mpr ⟨by decide, solid⟩, ?_, ?_⟩
      · rw [broken, appendEdit, Edit.insert, if_pos ends]
      · rw [size, appendEdit, Edit.insert, if_pos ends, String.utf8ByteSize_append,
          Nat.add_sub_cancel]
        rfl
    · refine ⟨lexemes ++ [.newline], .newline :: .newline :: more, by simp,
        List.forall_mem_cons.mpr ⟨by decide, List.forall_mem_cons.mpr ⟨by decide, solid⟩⟩, ?_, ?_⟩
      · rw [flat_cons, String.ofList_append, broken, appendEdit, Edit.insert, if_neg ends,
          ← String.append_assoc]
        rfl
      · rw [flat_append, byteLength_append, newline, size, appendEdit, Edit.insert, if_neg ends,
          String.utf8ByteSize_append, Nat.add_sub_cancel]
        rfl
  obtain ⟨front, extra, same, solid', replacement, landing⟩ := lands
  have inserts : (appendEdit path file.content rendered).span =
      Span.point file.content.utf8ByteSize := rfl
  obtain ⟨image, applied, laid'⟩ := laid.insert_end solid' inserts replacement (by omega)
  have short := size_le_appendEdit path file.content rendered
  have start : (appendEdit path file.content rendered).span.start = file.content.utf8ByteSize := rfl
  rw [same] at laid'
  exact ⟨image, applied, _, laid'.register (marked front (by rw [landing, start]) (by omega))⟩

end SourceFile

/-! ## What the file becomes -/

namespace SourceFile

variable {file : SourceFile} {visitor : SpanVisitor (Except Fault)}

/-- A visitor that leaves marked spans and names alone leaves a file alone that keeps to the
marks. -/
theorem FixedBy.of_marks {marks : Marks} (fixed : file.FixedBy marks.guard)
    (spans : ∀ span, marks.Spans span → visitor.span span = .ok span)
    (names : ∀ name span, marks.Named name span → marks.Spans span →
      visitor.name name span = .ok name) : file.FixedBy visitor := by
  have same : marks.guard.andThen visitor = marks.guard.andThen marks.guard :=
    marks.isTest_guard.andThen_congr
      (fun span passed => (spans span (Marks.guard_span_iff.mp passed).1).trans passed.symm)
      fun name span known passed => (names name span (Marks.guard_name_iff.mp known).1
        (Marks.guard_span_iff.mp passed).1).trans known.symm
  refine ⟨?_, fun decl member => ?_, fun decl member => ?_⟩
  · rw [← SpanVisitor.named_andThen fixed.package, same,
      SpanVisitor.named_andThen fixed.package, fixed.package]
  · have still := fixed.imports decl member
    rw [← (SpanVisitor.tours_importDecl decl).andThen still, same,
      (SpanVisitor.tours_importDecl decl).andThen still, still]
  · have still := fixed.decls decl member
    rw [← (SpanVisitor.exchanges_topDecl decl).andThen still, same,
      (SpanVisitor.exchanges_topDecl decl).andThen still, still]

/-- What a visitor leaves alone is what it makes of the file. -/
theorem FixedBy.visitedTo (fixed : file.FixedBy visitor) (keyed : file.Keyed) :
    file.VisitedTo visitor file where
  package := fixed.package
  imports := List.forall₂_same.mpr fixed.imports
  types := ⟨_, List.forall₂_same.mpr fun _ member => fixed.typeDecl member,
    (keyed.types.fileBy_eq (.refl _)).symm⟩
  functions := ⟨_, List.forall₂_same.mpr fun _ member =>
    fixed.funcDecl (List.mem_append_left _ member), (keyed.functions.fileBy_eq (.refl _)).symm⟩
  methods := List.forall₂_same.mpr fun _ member => fixed.funcDecl (List.mem_append_right _ member)
  vars := ⟨_, List.forall₂_same.mpr fun _ member => fixed.valueDecl
    (List.mem_append_left _ (List.mem_append_left _ member)), (keyed.vars.fileBy_eq (.refl _)).symm⟩
  consts := ⟨_, List.forall₂_same.mpr fun _ member => fixed.valueDecl
    (List.mem_append_left _ (List.mem_append_right _ member)),
    (keyed.consts.fileBy_eq (.refl _)).symm⟩
  blanks := List.forall₂_same.mpr fun _ member => fixed.valueDecl (List.mem_append_right _ member)

variable {lexemes : List Lexeme}

/-- **Text at the end of a file that is laid out only makes its text longer.** -/
theorem LaidOut.insert_end_eq (laid : file.LaidOut lexemes) (keyed : file.Keyed) {edit : Edit}
    (inserts : edit.span = Span.point file.content.utf8ByteSize)
    (small : file.content.utf8ByteSize < 2 ^ 63) :
    Edit.applyToFile [edit] file =
      .ok { file with content := file.content ++ edit.replacement } := by
  have still : file.FixedBy (Edit.remap [edit]) :=
    laid.fixed.of_marks (fun _ spans => laid.remap_span_insert_end inserts small spans)
      fun name span _ _ => remap_name_insert inserts name span
  refine Edit.applyToFile_eq_ok.mpr ⟨?_, rfl, (spliceAll_insert_end inserts).symm, rfl, rfl⟩
  obtain ⟨package, imports, types, functions, methods, vars, consts, blanks⟩ :=
    still.visitedTo keyed
  exact ⟨package, imports, types, functions, methods, vars, consts, blanks⟩

/-- The file with text behind its end and further types declared in it. -/
def grown (file : SourceFile) (text : String) (types : List (String × TypeDecl)) : SourceFile :=
  { file.register types with content := file.content ++ text }

/-- The file keeps to its text, and its declarations are kept under their names. -/
structure Settled (file : SourceFile) : Prop where
  /-- Spans and names are those of the lexemes of the text. -/
  laid : ∃ lexemes, file.LaidOut lexemes
  /-- Declarations are found under their names. -/
  keyed : file.Keyed

/-- A scanned file is settled. -/
theorem settled_of_parse {path content : String}
    (parsed : SourceFile.parse path content = .ok file) :
    file.Settled := ⟨laidOut_of_parse parsed, keyed_of_parse parsed⟩

/-- Types that are declared under their names leave a file settled in this respect. -/
theorem Keyed.register (keyed : file.Keyed) {types : List (String × TypeDecl)}
    (named : ∀ entry ∈ types, entry.1 = entry.2.name) : (file.register types).Keyed := by
  induction types generalizing file with
  | nil => exact keyed
  | cons entry rest ih =>
    obtain ⟨first, others⟩ := List.forall_mem_cons.mp named
    have one : Keyed { file with types := file.types.insert entry.1 entry.2 } :=
      ⟨first ▸ NameMap.keyed_insert keyed.types entry.2, keyed.functions, keyed.vars, keyed.consts⟩
    exact ih one others

/-- Types that a text declares on its own come with their names. -/
theorem named_of_snippetTypes {path packageName rendered : String} {landing : Nat}
    {types : List (String × TypeDecl)}
    (made : snippetTypes path packageName rendered landing = .ok types) :
    ∀ entry ∈ types, entry.1 = entry.2.name := by
  unfold snippetTypes at made
  obtain ⟨snippet, read, given⟩ := bind_eq_ok.mp made
  have keyed : snippet.Keyed := by
    unfold scanFile at read
    split at read
    · cases read
      exact keyed_of_parse ‹_›
    · cases read
  cases given
  intro entry member
  obtain ⟨⟨name, decl⟩, held, rfl⟩ := List.mem_map.mp member
  have same : name = decl.name := keyed.types _ held
  rw [same]
  rfl

/-- **A declaration at the end of a settled file adds its text and the types that it declares on its
own**, and leaves the file settled. -/
theorem Settled.append (settled : file.Settled) {path rendered : String}
    {types : List (String × TypeDecl)}
    (made : snippetTypes path file.packageName rendered
      ((appendEdit path file.content rendered).span.start +
        ((appendEdit path file.content rendered).replacement.utf8ByteSize -
          rendered.utf8ByteSize)) = .ok types)
    (short : file.content.utf8ByteSize +
      (appendEdit path file.content rendered).replacement.utf8ByteSize < 2 ^ 63) :
    Edit.applyToFile [appendEdit path file.content rendered] file =
        .ok (file.grown (appendEdit path file.content rendered).replacement []) ∧
      (file.grown (appendEdit path file.content rendered).replacement types).Settled := by
  obtain ⟨lexemes, laid⟩ := settled.laid
  have inserts : (appendEdit path file.content rendered).span =
      Span.point file.content.utf8ByteSize := rfl
  have applied := laid.insert_end_eq settled.keyed inserts (by omega)
  obtain ⟨image, applied', lexemes', laid'⟩ := laid.append made short
  cases applied.symm.trans applied'
  obtain ⟨named, functions, vars, consts⟩ := settled.keyed.register (named_of_snippetTypes made)
  exact ⟨applied, ⟨lexemes', laid'⟩, named, functions, vars, consts⟩

end SourceFile

end GoRefactor
