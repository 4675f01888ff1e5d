import GoRefactor.Proofs.Go.Parser.Kept
import GoRefactor.Proofs.Go.Parser.Sequence
import GoRefactor.Proofs.Go.Parser.Spots

/-!
# Files of complete declarations

A file is scanned declaration by declaration: what stands behind a package clause and is complete by
itself is read the same way among others, wherever it stands. It is kept unless it gives way to a
declaration behind it.
-/

namespace GoRefactor

open Lexeme

/-! ## Texts behind a package clause -/

/-- A text and others behind it, joined by line breaks. -/
def joinedText (front : String) : List String → String
  | [] => front
  | next :: rest => front ++ "\n" ++ joinedText next rest

/-- The lexemes of joined texts are those of the texts, joined. -/
theorem toList_joinedText {front : String} {texts : List String} {lexemes : List Lexeme}
    {parts : List (List Lexeme)} (covers : front.toList = flat lexemes)
    (matched : List.Forall₂ (fun text part => text.toList = flat part) texts parts) :
    (joinedText front texts).toList = flat (joined lexemes parts) := by
  induction matched generalizing front lexemes with
  | nil => exact covers
  | cons first _ ih =>
    rw [joinedText, joined, String.toList_append, String.toList_append, covers, ih first,
      flat_append, flat_cons, List.append_assoc]
    rfl

/-- No comment without code in front ends on the last line of the text: nothing that follows on the
next line has it as its doc. -/
def TokenStream.Quiet (stream : TokenStream) : Prop :=
  ∀ note ∈ Cursor.loneComments stream, note.endLine < (Cursor.start stream).finish.line

/-- The text is a package clause. -/
def IsClause (text : String) : Prop :=
  ∃ stream name place, TokenStream.ofChars? text.toList = .ok stream ∧ stream.Quiet ∧
    Parse.packageClause.run (Cursor.start stream) = (.ok name, place) ∧
    ∀ token ∈ place.ahead, token.isTerminator = true

/-- The text is a declaration, or a group of them, that is complete behind the package clause: what
is read there are the declarations, up to the terminators at the end. -/
def IsDeclaration (clause text : String) (decls : List TopDecl) : Prop :=
  ∃ stream name place, TokenStream.ofChars? (joinedText clause [text]).toList = .ok stream ∧
    stream.Quiet ∧ bracketFlaw? [] (stream.tokens.filterMap Token.bracket?) = none ∧
    Parse.packageClause.run (Cursor.start stream) = (.ok name, place) ∧
    place.pastTerminators.Declares decls

instance (stream : TokenStream) : Decidable stream.Quiet :=
  inferInstanceAs (Decidable (∀ note ∈ Cursor.loneComments stream,
    note.endLine < (Cursor.start stream).finish.line))

/-- Whether a text is a package clause can be computed. -/
instance (text : String) : Decidable (IsClause text) :=
  decidable_of_iff (checkOk (TokenStream.ofChars? text.toList) (fun stream =>
    decide (stream.Quiet ∧ ∀ token ∈ (Parse.packageClause.run (Cursor.start stream)).2.ahead,
      token.isTerminator = true) &&
    checkOk (Parse.packageClause.run (Cursor.start stream)).1 fun _ => true) = true) <| by
    constructor
    · intro passes
      obtain ⟨stream, scanned, passes⟩ := exists_of_checkOk passes
      obtain ⟨fine, reads⟩ := Bool.and_eq_true_iff.mp passes
      obtain ⟨quiet, terminators⟩ := of_decide_eq_true fine
      obtain ⟨name, reads, -⟩ := exists_of_checkOk reads
      exact ⟨stream, name, _, scanned, quiet, Prod.ext reads rfl, terminators⟩
    · rintro ⟨stream, name, place, scanned, quiet, reads, terminators⟩
      rw [scanned, checkOk, Bool.and_eq_true_iff, reads]
      exact ⟨decide_eq_true ⟨quiet, terminators⟩, rfl⟩

/-- What a text declares behind the package clause, if it is complete there. -/
def declared? (clause text : String) : Option (List TopDecl) :=
  match TokenStream.ofChars? (joinedText clause [text]).toList with
  | .error _ => none
  | .ok stream =>
    match Parse.packageClause.run (Cursor.start stream) with
    | (.error _, _) => none
    | (.ok _, behind) =>
      let place := behind.pastTerminators
      let (decls, after) := (Parse.topLevel (depthLimit place.ahead.length)).run place
      if stream.Quiet ∧ bracketFlaw? [] (stream.tokens.filterMap Token.bracket?) = none ∧
          (place.peekAt 0).isTerminator = false ∧ place.finish.kind = .finish ∧
          after.ahead ≠ [] ∧ ∀ token ∈ after.ahead, token.isTerminator = true then
        some decls
      else none

/-- Complete declarations can be computed. -/
theorem isDeclaration_iff {clause text : String} {decls : List TopDecl} :
    IsDeclaration clause text decls ↔ declared? clause text = some decls := by
  unfold declared?
  constructor
  · rintro ⟨stream, name, place, scanned, quiet, brackets, reads, starts, finishes, after, runs,
      left, terminators⟩
    simp only [scanned, reads, runs]
    exact if_pos ⟨quiet, brackets, starts, finishes, left, terminators⟩
  · intro found
    split at found
    · cases found
    rename_i stream scanned
    split at found
    · cases found
    rename_i name behind reads
    obtain ⟨⟨quiet, brackets, starts, finishes, left, terminators⟩, same⟩ :=
      Option.ite_none_right_eq_some.mp found
    exact ⟨stream, name, behind, scanned, quiet, brackets, reads, starts, finishes, _,
      Prod.ext (Option.some.inj same) rfl, left, terminators⟩

/-- What texts declare, each further on in the text by all in front of it. -/
def placed (bytes : Nat) : List (String × List TopDecl) → List TopDecl
  | [] => []
  | (text, decls) :: rest =>
    decls.map (TopDecl.moved bytes) ++ placed (bytes + text.utf8ByteSize + 1) rest

/-- Behind a package clause its place is past the name. -/
theorem Parse.run_packageClause_of_ahead {cursor : Cursor} {leading rest : List Token}
    {keyword name : Token} (finishes : cursor.finish.kind = .finish)
    (ahead : cursor.ahead = leading ++ keyword :: name :: rest)
    (leads : ∀ token ∈ leading, token.isTerminator = true) (opens : keyword.is "package" = true)
    (named : name.kind = .identifier) : ∃ place,
      packageClause.run cursor = (.ok name, place) ∧ place.ahead = rest := by
  refine ⟨_, run_packageClause_of_ok ((packageClause_eq_ok_iff finishes).mpr
    ⟨leading, keyword, rest, ahead, leads, opens, named⟩), ?_⟩
  rw [Cursor.ahead_advance, Cursor.ahead_advance, ahead_pastTerminators, ahead,
    List.dropWhile_append_of_pos leads, List.dropWhile_cons_of_neg]
  · rfl
  · rw [(kind_of_is opens).2]
    decide

/-- A package clause that is read stands in front of its place. -/
theorem Parse.ahead_of_packageClause {cursor place : Cursor} {name : Token}
    (finishes : cursor.finish.kind = .finish)
    (reads : packageClause.run cursor = (.ok name, place)) :
    ∃ leading keyword, cursor.ahead = leading ++ keyword :: name :: place.ahead ∧
      (∀ token ∈ leading, token.isTerminator = true) ∧ keyword.is "package" = true ∧
      name.kind = .identifier := by
  obtain ⟨leading, keyword, rest, ahead, leads, opens, named⟩ :=
    (packageClause_eq_ok_iff finishes).mp (congrArg Prod.fst reads)
  obtain ⟨place', reads', behind⟩ := run_packageClause_of_ahead finishes ahead leads opens named
  cases reads.symm.trans reads'
  exact ⟨leading, keyword, behind ▸ ahead, leads, opens, named⟩

/-- Terminators, names and the keyword of a package clause are no brackets. -/
theorem bracket?_eq_none {token : Token}
    (other : token.isTerminator = true ∨ token.is "package" = true ∨ token.kind = .identifier) :
    token.bracket? = none := by
  unfold Token.bracket?
  split
  · rename_i mark
    have mark := eq_of_beq mark
    rcases other with terminates | opens | named
    · rw [Token.isTerminator, mark] at terminates
      cases terminates
    · rw [eq_of_beq (Bool.and_eq_true_iff.mp opens).2]
      rfl
    · rw [named] at mark
      cases mark
  · rfl

/-- Brackets that pair up do so further down. -/
theorem WellNested.map {tokens : List BracketToken} (nested : WellNested tokens)
    {change : BracketToken → BracketToken} (keeps : ∀ token, (change token).opens = token.opens ∧
      (change token).bracket = token.bracket) : WellNested (tokens.map change) := by
  induction nested with
  | nil => exact .nil
  | @pair opening closing inner rest opens closes same _ _ inside behind =>
    rw [List.map_append, List.map_cons, List.map_cons]
    refine .pair ?_ ?_ ?_ inside behind
    · rw [(keeps opening).1, opens]
    · rw [(keeps closing).1, closes]
    · rw [(keeps opening).2, (keeps closing).2, same]

/-- Brackets that pair up may stand behind each other. -/
theorem WellNested.append {tokens more : List BracketToken} (nested : WellNested tokens)
    (nested' : WellNested more) : WellNested (tokens ++ more) := by
  rw [← bracketFlaw?_eq_none_iff, bracketFlaw?_append nested, bracketFlaw?_eq_none_iff]
  exact nested'

/-- The brackets of a text, laid out from a place. -/
def Lexeme.bracketsFrom (offset line : Nat) (lexemes : List Lexeme) : List BracketToken :=
  (tokensFrom offset line false lexemes).filterMap Token.bracket?

/-- The end of a text is no bracket. -/
theorem Lexeme.bracketsFrom_dropLast (offset line : Nat) (lexemes : List Lexeme) :
    (tokensFrom offset line false lexemes).dropLast.filterMap Token.bracket? =
      bracketsFrom offset line lexemes := by
  have last := getLast?_tokensFrom offset line false lexemes
  have whole := List.dropLast_append_getLast? _ last
  unfold bracketsFrom
  conv_rhs => rw [← whole]
  rw [List.filterMap_append]
  exact (List.append_nil _).symm

/-- Brackets further on are the same further down. -/
theorem Lexeme.wellNested_bracketsFrom_add {offset line : Nat} {lexemes : List Lexeme}
    (nested : WellNested (bracketsFrom offset line lexemes)) (bytes lines : Nat) :
    WellNested (bracketsFrom (offset + bytes) (line + lines) lexemes) := by
  have moved : bracketsFrom (offset + bytes) (line + lines) lexemes =
      (bracketsFrom offset line lexemes).map fun token =>
        { token with line := token.line + lines } := by
    unfold bracketsFrom
    rw [tokensFrom_add, List.filterMap_map, List.map_filterMap]
    refine List.filterMap_congr fun token _ => ?_
    unfold Function.comp Token.bracket? Token.movedBy
    simp only
    split
    · cases Bracket.all.find? fun bracket => bracket.opening == token.text with
      | some bracket => rfl
      | none => cases Bracket.all.find? fun bracket => bracket.closing == token.text <;> rfl
    · rfl
  rw [moved]
  exact nested.map fun _ => ⟨rfl, rfl⟩

/-- Joined texts have well nested brackets if each has. -/
theorem Lexeme.wellNested_joined {offset line bytes lines : Nat} {front : List Lexeme}
    {parts : List (List Lexeme)}
    (each : ∀ part ∈ front :: parts, WellNested (bracketsFrom offset line part)) :
    WellNested (bracketsFrom (offset + bytes) (line + lines) (joined front parts)) := by
  induction parts generalizing front bytes lines with
  | nil => exact wellNested_bracketsFrom_add (each front List.mem_cons_self) bytes lines
  | cons next rest ih =>
    obtain ⟨first, others⟩ := List.forall_mem_cons.mp each
    have tokens := tokensFrom_append_newline (offset + bytes) (line + lines) false front
      (joined next rest)
    rw [joined, bracketsFrom, tokens, List.filterMap_append, bracketsFrom_dropLast,
      Nat.add_assoc offset, Nat.add_assoc offset, Nat.add_assoc line, Nat.add_assoc line]
    exact (wellNested_bracketsFrom_add first bytes lines).append (ih others)

/-- The end of a text is on its last line. -/
theorem Lexeme.finish_start (offset line : Nat) (lexemes : List Lexeme) (comments : List Comment) :
    (Cursor.start ⟨tokensFrom offset line false lexemes, comments⟩).finish =
      ⟨.finish, "", Span.point (offset + byteLength (flat lexemes)), line + lineCount lexemes⟩ := by
  change (tokensFrom offset line false lexemes).getLastD default = _
  rw [List.getLastD_eq_getLast?, getLast?_tokensFrom]
  rfl

section Clause

variable {front back : List Lexeme} {leading trailing : List Token} {keyword name : Token}
  {offset line : Nat}
  (tokens : (tokensFrom 0 1 false front).dropLast = leading ++ keyword :: name :: trailing)
  (leads : ∀ token ∈ leading, token.isTerminator = true) (opens : keyword.is "package" = true)
  (named : name.kind = .identifier) (starts : 0 + byteLength (flat front) + 1 = offset)
  (below : 1 + lineCount front + 1 = line)

include tokens leads opens named starts below

/-- The declarations start behind a package clause and a line break, where nothing else is ahead. -/
theorem exists_place_of_clause {content : List Char} {stream : TokenStream}
    (scanned : TokenStream.ofChars? content = .ok stream)
    (laid : stream = ⟨tokensFrom 0 1 false (front ++ .newline :: back),
      commentsFrom 1 (front ++ .newline :: back)⟩) :
    ∃ place, Parse.packageClause.run (Cursor.start stream) = (.ok name, place) ∧
      place.ahead = trailing ++ (tokensFrom offset line false back).dropLast ∧
      (tokensFrom offset line false back).getLast? = some place.finish ∧
      place.lastEnd ≤ offset ∧
      place.notes = notesFrom offset line back ++ notesFrom 0 1 front ∧
      place.taken + place.ahead.length = (tokensFrom 0 1 false front).dropLast.length +
        (tokensFrom offset line false back).dropLast.length := by
  have some : tokensFrom offset line false back ≠ [] := tokensFrom_ne_nil _ _ _ _
  have whole : stream.tokens =
      (tokensFrom 0 1 false front).dropLast ++ tokensFrom offset line false back := by
    rw [laid, ← starts, ← below]
    exact tokensFrom_append_newline 0 1 false front back
  obtain ⟨concat, finishes⟩ := TokenStream.tokens_eq_concat scanned
  have ahead : (Cursor.start stream).ahead =
      (tokensFrom 0 1 false front).dropLast ++ (tokensFrom offset line false back).dropLast := by
    change stream.tokens.dropLast = _
    rw [whole, List.dropLast_append_of_ne_nil some]
  have ahead' : (Cursor.start stream).ahead = leading ++ keyword :: name ::
      (trailing ++ (tokensFrom offset line false back).dropLast) := by
    rw [ahead, tokens, List.append_assoc]
    rfl
  obtain ⟨place, reads, behind⟩ :=
    Parse.run_packageClause_of_ahead finishes ahead' leads opens named
  have kept := Cursor.kept_run Parse.packageClause (Cursor.start stream)
  have counted := Cursor.total_run Parse.packageClause (Cursor.start stream)
  have last := Parse.lastEnd_packageClause (TokenStream.ordered_start scanned)
    (congrArg Prod.fst reads)
  rw [reads] at kept counted last
  refine ⟨place, reads, behind, ?_, ?_, ?_, ?_⟩
  · have marks := congrArg List.getLast? concat
    rw [whole, List.getLast?_append_of_ne_nil _ some, List.getLast?_concat] at marks
    rw [kept.1]
    exact marks
  · have member : name ∈ tokensFrom 0 1 false front := by
      refine List.mem_of_mem_dropLast (?_ : name ∈ (tokensFrom 0 1 false front).dropLast)
      rw [tokens]
      simp
    obtain ⟨before, after, covers, span⟩ := tokensFrom_covers member
    have length := congrArg byteLength covers
    rw [byteLength_append, byteLength_append] at length
    rw [last, span]
    simp only
    omega
  · rw [kept.2, ← starts, ← below]
    change Cursor.loneComments stream = _
    rw [laid]
    exact notesFrom_append_newline 0 1 front back
  · rw [counted]
    change 0 + (Cursor.start stream).ahead.length = _
    rw [ahead, List.length_append, Nat.zero_add]

omit starts below in
/-- A package clause has no brackets. -/
theorem bracketsFrom_clause (trails : ∀ token ∈ trailing, token.isTerminator = true) :
    bracketsFrom 0 1 front = [] := by
  rw [← bracketsFrom_dropLast, tokens]
  refine List.filterMap_eq_nil_iff.mpr fun token member => bracket?_eq_none ?_
  rcases List.mem_append.mp member with leads' | member
  · exact Or.inl (leads token leads')
  rcases List.mem_cons.mp member with rfl | member
  · exact Or.inr (Or.inl opens)
  rcases List.mem_cons.mp member with rfl | member
  · exact Or.inr (Or.inr named)
  · exact Or.inl (trails token member)

/-- The brackets behind a package clause are all there are. -/
theorem bracketsFrom_behind_clause (trails : ∀ token ∈ trailing, token.isTerminator = true) :
    bracketsFrom 0 1 (front ++ .newline :: back) = bracketsFrom offset line back := by
  rw [bracketsFrom, tokensFrom_append_newline, List.filterMap_append, bracketsFrom_dropLast,
    bracketsFrom_clause tokens leads opens named trails, starts, below]
  rfl

/-- A declaration that is complete behind the package clause is a part of the text there. -/
theorem exists_part_of_declaration {clause text : String} {decls : List TopDecl}
    (covers : clause.toList = flat front) (cut : Cut front)
    (trails : ∀ token ∈ trailing, token.isTerminator = true)
    (declared : IsDeclaration clause text decls) : ∃ part, text.toList = flat part ∧ Cut part ∧
      ReadsAs offset line (tokensFrom 0 1 false front).dropLast.length (notesFrom 0 1 front) part
        decls ∧ WellNested (bracketsFrom offset line part) := by
  obtain ⟨stream, name', place', scanned, quiet, brackets, reads', declares⟩ := declared
  obtain ⟨lexemes, covers', cut', laid⟩ := TokenStream.ofChars?_eq_ok_iff.mp scanned
  have whole : flat lexemes = flat front ++ '\n' :: text.toList := by
    rw [← covers', joinedText, joinedText, String.toList_append, String.toList_append, covers,
      List.append_assoc]
    rfl
  obtain ⟨part, rfl, text_eq, cut_part⟩ := exists_append_of_cut cut cut' whole
  obtain ⟨place, reads, ahead, finish, lastEnd, notes, total⟩ :=
    exists_place_of_clause tokens leads opens named starts below scanned laid
  obtain rfl : place = place' := (Prod.mk.inj (reads.symm.trans reads')).2
  refine ⟨part, text_eq.symm, cut_part,
    ⟨⟨place.pastTerminators, declares, ?_, ?_, ?_, ?_, ?_⟩, ?_⟩, ?_⟩
  · rw [Parse.ahead_pastTerminators, ahead, List.dropWhile_append_of_pos trails]
    rfl
  · rw [finish]
    exact congrArg some (Cursor.finish_advanceBy _ _).symm
  · exact (Parse.lastEnd_pastTerminators place).trans_le lastEnd
  · exact (Cursor.notes_advanceBy _ _).trans notes
  · exact (Cursor.total_advanceBy _ place).trans total
  · intro note member
    have last := quiet note (by
      rw [laid]
      change note ∈ notesFrom 0 1 _
      rw [notesFrom_append_newline, starts, below]
      exact List.mem_append_left _ member)
    rw [laid, finish_start, lineCount_append, lineCount_cons] at last
    change note.endLine < 1 + (lineCount front + (1 + lineCount part)) at last
    omega
  · rw [← bracketFlaw?_eq_none_iff,
      ← bracketsFrom_behind_clause tokens leads opens named starts below trails]
    rw [laid] at brackets
    exact brackets

/-- Declarations that are complete behind the package clause are parts of the text there. -/
theorem exists_units_of_declarations {clause : String} (covers : clause.toList = flat front)
    (cut : Cut front) (trails : ∀ token ∈ trailing, token.isTerminator = true)
    {entries : List (String × List TopDecl)}
    (each : ∀ entry ∈ entries, IsDeclaration clause entry.1 entry.2) :
    ∃ units : List (List Lexeme × List TopDecl),
      List.Forall₂ (fun entry unit => entry.1.toList = flat unit.1 ∧ entry.2 = unit.2) entries
        units ∧ ∀ unit ∈ units, Cut unit.1 ∧ ReadsAs offset line
          (tokensFrom 0 1 false front).dropLast.length (notesFrom 0 1 front) unit.1 unit.2 ∧
            WellNested (bracketsFrom offset line unit.1) := by
  induction entries with
  | nil => exact ⟨[], .nil, nofun⟩
  | cons entry rest ih =>
    obtain ⟨first, others⟩ := List.forall_mem_cons.mp each
    obtain ⟨part, text, given⟩ :=
      exists_part_of_declaration tokens leads opens named starts below covers cut trails first
    obtain ⟨units, matched, givens⟩ := ih others
    exact ⟨(part, entry.2) :: units, .cons ⟨text, rfl⟩ matched,
      List.forall_mem_cons.mpr ⟨given, givens⟩⟩

/-- Behind the package clause the parts of the text are read one after the other. -/
theorem exists_place_of_units (trails : ∀ token ∈ trailing, token.isTerminator = true)
    (quiet : ∀ note ∈ notesFrom 0 1 front, note.endLine < 1 + lineCount front)
    {unit : List Lexeme × List TopDecl} {rest : List (List Lexeme × List TopDecl)}
    (each : ∀ unit' ∈ unit :: rest, ReadsAs offset line
      (tokensFrom 0 1 false front).dropLast.length (notesFrom 0 1 front) unit'.1 unit'.2)
    (nested : ∀ part ∈ unit.1 :: rest.map Prod.fst, WellNested (bracketsFrom offset line part))
    {content : List Char} {stream : TokenStream}
    (scanned : TokenStream.ofChars? content = .ok stream)
    (laid : stream = ⟨tokensFrom 0 1 false (front ++ .newline :: joined unit.1 (rest.map Prod.fst)),
      commentsFrom 1 (front ++ .newline :: joined unit.1 (rest.map Prod.fst))⟩) :
    bracketFlaw? [] (stream.tokens.filterMap Token.bracket?) = none ∧
      ∃ place, Parse.packageClause.run (Cursor.start stream) = (.ok name, place) ∧
      ((Parse.declarations (depthLimit place.ahead.length) (depthLimit place.ahead.length)).run
        place).1 = placedFrom 0 (unit :: rest) := by
  have brackets : bracketFlaw? [] (stream.tokens.filterMap Token.bracket?) = none := by
    rw [laid, bracketFlaw?_eq_none_iff]
    change WellNested (bracketsFrom 0 1 (front ++ .newline :: joined unit.1 (rest.map Prod.fst)))
    rw [bracketsFrom_behind_clause tokens leads opens named starts below trails]
    exact (wellNested_joined nested : WellNested (bracketsFrom (offset + 0) (line + 0) _))
  obtain ⟨place, reads, ahead, finish, lastEnd, notes, total⟩ :=
    exists_place_of_clause tokens leads opens named starts below scanned laid
  have far (note : Comment) (member : note ∈ notesFrom 0 1 front) : note.endLine + 1 < line := by
    have last := quiet note member
    omega
  have before : place.Before (offset + 0) (line + 0) (tokensFrom 0 1 false front).dropLast.length
      (joined unit.1 (rest.map Prod.fst)) :=
    ⟨⟨trailing, ahead, trails⟩, finish, lastEnd, ⟨_, notes, far⟩, total.ge⟩
  refine ⟨brackets, place, reads, declarations_joined (by omega) far each before (Nat.le_refl _) ?_⟩
  unfold depthLimit
  omega

end Clause

/-- Texts and their lexemes are as long. -/
theorem placedFrom_eq_placed {entries : List (String × List TopDecl)}
    {units : List (List Lexeme × List TopDecl)}
    (matched : List.Forall₂ (fun entry unit => entry.1.toList = flat unit.1 ∧ entry.2 = unit.2)
      entries units) (bytes : Nat) : placedFrom bytes units = placed bytes entries := by
  induction matched generalizing bytes with
  | nil => rfl
  | @cons entry unit _ _ same _ ih =>
    rw [placedFrom, placed, ih, ← same.1, byteLength_toList, same.2]

/-! ## Files of declarations -/

/-- What gives way has a name of its own. -/
theorem TopDecl.GivesWay.exists_spot {decl later : TopDecl} (way : decl.GivesWay later) :
    ∃ spot, spot ∈ decl.spots := by
  cases decl with
  | importing => cases later <;> cases way
  | type decl => exact ⟨decl.nameSpan, List.mem_cons_self⟩
  | function decl => exact ⟨decl.nameSpan, List.mem_cons_self⟩
  | var decl | const decl => exact ⟨decl.nameSpan, List.mem_cons_self⟩

/-- Behind the package clause declarations are read. -/
theorem TokenStream.parse_of_packageClause {stream : TokenStream} {name : Token} {place : Cursor}
    (reads : Parse.packageClause.run (Cursor.start stream) = (.ok name, place)) :
    stream.parse = .ok (name, ((Parse.declarations (depthLimit place.ahead.length)
      (depthLimit place.ahead.length)).run place).1) := by
  unfold TokenStream.parse
  rw [reads]

/-- Top-level names that are read stand at different spots. -/
theorem TokenStream.spots_of_parse {content : List Char} {stream : TokenStream} {name : Token}
    {decls : List TopDecl} (scanned : TokenStream.ofChars? content = .ok stream)
    (found : stream.parse = .ok (name, decls)) : (decls.flatMap TopDecl.spots).Nodup := by
  obtain ⟨place, limit, ordered, rfl⟩ := declarations_of_parse scanned found
  exact (Parse.reads_declarationSpots limit limit _ (Nat.le_refl _) place ordered rfl).distinct

/-- A file has the declarations that are read from its tokens. -/
theorem SourceFile.parse_eq_ok {path content : String} {stream : TokenStream} {name : Token}
    {decls : List TopDecl} (scanned : TokenStream.ofChars? content.toList = .ok stream)
    (brackets : bracketFlaw? [] (stream.tokens.filterMap Token.bracket?) = none)
    (found : stream.parse = .ok (name, decls)) :
    SourceFile.parse path content = .ok (decls.foldl SourceFile.add
      { SourceFile.blank path content with
        packageName := name.text
        packageSpan := name.span }) := by
  unfold SourceFile.parse
  rw [scanned]
  simp only [brackets, found]

/-- **Declarations that are complete behind the package clause are all read**, one after the other
and each from where its text starts, with their names at different spots. -/
theorem exists_parse_eq_foldl (path : String) {clause : String} (opens : IsClause clause)
    {entries : List (String × List TopDecl)}
    (each : ∀ entry ∈ entries, IsDeclaration clause entry.1 entry.2) :
    ∃ base : SourceFile, base.Keyed ∧
      SourceFile.parse path (joinedText clause (entries.map Prod.fst)) =
        .ok ((placed 0 entries).foldl SourceFile.add base) ∧
      ((placed 0 entries).flatMap TopDecl.spots).Nodup := by
  obtain ⟨stream, name, place, scanned, quiet, reads, terminators⟩ := opens
  obtain ⟨front, covers, cut, rfl⟩ := TokenStream.ofChars?_eq_ok_iff.mp scanned
  obtain ⟨leading, keyword, tokens, leads, opens, named⟩ :=
    Parse.ahead_of_packageClause (TokenStream.tokens_eq_concat scanned).2 reads
  refine ⟨_, SourceFile.keyed_blank path (joinedText clause (entries.map Prod.fst)) name.text
    name.span, ?_⟩
  cases entries with
  | nil =>
    have brackets : bracketsFrom 0 1 front = [] :=
      bracketsFrom_clause tokens leads opens named terminators
    have found := TokenStream.parse_of_packageClause reads
    rw [Parse.run_declarations_of_finish] at found
    · refine ⟨SourceFile.parse_eq_ok scanned ?_ found, List.nodup_nil⟩
      change bracketFlaw? [] (bracketsFrom 0 1 front) = none
      rw [brackets]
      rfl
    · have kept := (Cursor.kept_run Parse.packageClause
        (Cursor.start ⟨tokensFrom 0 1 false front, commentsFrom 1 front⟩)).1
      rw [reads] at kept
      rw [Parse.peekAt_pastTerminators terminators, kept, finish_start]
  | cons entry rest =>
    -- Where the declarations start, behind the clause and the line break.
    obtain ⟨offset, starts⟩ : ∃ offset, 0 + byteLength (flat front) + 1 = offset := ⟨_, rfl⟩
    obtain ⟨line, below⟩ : ∃ line, 1 + lineCount front + 1 = line := ⟨_, rfl⟩
    obtain ⟨units, matched, parts⟩ := exists_units_of_declarations tokens leads opens named starts
      below covers cut terminators each
    have texts : List.Forall₂ (fun text part => text.toList = flat part)
        ((entry :: rest).map Prod.fst) (units.map Prod.fst) :=
      List.forall₂_map_left_iff.mpr (List.forall₂_map_right_iff.mpr (matched.imp fun _ _ same =>
        same.1))
    have cuts : ∀ part ∈ units.map Prod.fst, Cut part :=
      List.forall_mem_map.mpr fun unit member => (parts unit member).1
    have nested : ∀ part ∈ units.map Prod.fst, WellNested (bracketsFrom offset line part) :=
      List.forall_mem_map.mpr fun unit member => (parts unit member).2.2
    have scanned' := TokenStream.ofChars?_eq_ok_iff.mpr
      ⟨_, toList_joinedText covers texts, cut_joined cut cuts, rfl⟩
    have quiet' (note : Comment) (member : note ∈ notesFrom 0 1 front) :
        note.endLine < 1 + lineCount front := by
      have last := quiet note member
      rwa [finish_start] at last
    rw [← placedFrom_eq_placed matched]
    cases units with
    | nil => cases matched
    | cons unit others =>
      obtain ⟨brackets, place', reads', declared⟩ := exists_place_of_units tokens leads opens named
        starts below terminators quiet' (fun unit' member => (parts unit' member).2.1)
          nested scanned' rfl
      have found := TokenStream.parse_of_packageClause reads'
      rw [declared] at found
      exact ⟨SourceFile.parse_eq_ok scanned' brackets found,
        TokenStream.spots_of_parse scanned' found⟩

/-- **A file keeps each of its declarations** that does not give way to one behind it, whole and
from where its text starts. Functions do give way, `init` among them, which a program may declare
several times: of those with one name only the last is kept. -/
theorem scan_keeps_declarations {path clause : String} (opens : IsClause clause)
    {entries : List (String × List TopDecl)}
    (each : ∀ entry ∈ entries, IsDeclaration clause entry.1 entry.2) :
    ∃ file, SourceFile.parse path (joinedText clause (entries.map Prod.fst)) = .ok file ∧
      ∀ front decl back, placed 0 entries = front ++ decl :: back →
        (file.Holds decl ↔ ∀ later ∈ back, ¬decl.GivesWay later) := by
  obtain ⟨base, keyed, parsed, apart⟩ := exists_parse_eq_foldl path opens each
  refine ⟨_, parsed, fun front decl back listed => ?_⟩
  rw [listed] at apart ⊢
  refine ⟨fun holds later behind way => ?_, SourceFile.holds_foldl_add keyed front⟩
  refine SourceFile.not_holds_foldl_add keyed front behind way (fun again => ?_) holds
  -- The same declaration cannot be there twice: its name stands at one spot.
  rw [List.flatMap_append, List.flatMap_cons] at apart
  have disjoint := List.disjoint_of_nodup_append (List.Nodup.of_append_right apart)
  obtain ⟨spot, here⟩ := way.exists_spot
  exact disjoint here (List.mem_flatMap.mpr ⟨decl, again, here⟩)

/-- A program that uses a type in the first of two functions. -/
def initTexts : List String :=
  ["type T int", "func init() \x7b\n\tvar x T\n\t_ = x\n\x7d", "func init() \x7b\n\x7d"]

/-- Each text is complete and declares one thing, and of the functions only the last is kept. -/
theorem scan_loses_former_init : ∃ entries typed former later file, IsClause "package p" ∧
    entries.map Prod.fst = initTexts ∧
    (∀ entry ∈ entries, IsDeclaration "package p" entry.1 entry.2) ∧
    placed 0 entries = [typed, former, later] ∧
    SourceFile.parse "p/a.go" (joinedText "package p" initTexts) = .ok file ∧
    file.Holds typed ∧ ¬file.Holds former ∧ file.Holds later := by
  obtain ⟨entries, made⟩ : ∃ entries, entries = initTexts.map fun text =>
    (text, (declared? "package p" text).getD []) := ⟨_, rfl⟩
  have complete : ∀ text ∈ initTexts, (declared? "package p" text).isSome = true := by
    decide +kernel
  have table : ((placed 0 entries).map fun decl => (placed 0 entries).map fun later =>
      decide (decl.GivesWay later)) =
        [[true, false, false], [false, true, true], [false, true, true]] := by
    rw [made]
    decide +kernel
  have opens : IsClause "package p" := by decide +kernel
  have each : ∀ entry ∈ entries, IsDeclaration "package p" entry.1 entry.2 := by
    rw [made]
    refine List.forall_mem_map.mpr fun text member => isDeclaration_iff.mpr ?_
    obtain ⟨decls, declared⟩ := Option.isSome_iff_exists.mp (complete text member)
    rw [declared]
    rfl
  have texts : entries.map Prod.fst = initTexts := by
    rw [made, List.map_map]
    exact List.map_id _
  obtain ⟨file, parsed, keeps⟩ := scan_keeps_declarations opens each
  rw [texts] at parsed
  obtain ⟨typed, former, later, listed⟩ : ∃ typed former later,
      placed 0 entries = [typed, former, later] :=
    List.length_eq_three.mp (by simpa using congrArg List.length table)
  rw [listed] at table keeps
  simp only [List.map_cons, List.map_nil, List.cons.injEq, decide_eq_true_eq,
    decide_eq_false_iff_not, and_true] at table
  obtain ⟨⟨-, apart, apart'⟩, ⟨-, -, way⟩, -⟩ := table
  refine ⟨entries, typed, former, later, file, opens, texts, each, listed, parsed, ?_,
    fun holds => ?_, ?_⟩
  · exact (keeps [] typed _ rfl).mpr (List.forall_mem_cons.mpr ⟨apart,
      List.forall_mem_cons.mpr ⟨apart', List.forall_mem_nil _⟩⟩)
  · exact (keeps [typed] former _ rfl).mp holds later List.mem_cons_self way
  · exact (keeps [typed, former] later _ rfl).mpr (List.forall_mem_nil _)

end GoRefactor
