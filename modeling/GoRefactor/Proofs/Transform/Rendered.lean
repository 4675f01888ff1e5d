import GoRefactor.Proofs.Edit.Append
import GoRefactor.Proofs.Go.Parser.Complete
import GoRefactor.Proofs.Transform.NewFiles

/-!
# What a rendered interface declares

An interface is rendered below a comment. Behind a package clause and any number of empty lines the
text starts with the declaration of the interface, whatever its methods make of the rest.
-/

namespace GoRefactor

open Lexeme

namespace Parse

variable {limit fuel : Nat} {place : Cursor}

/-- Behind its name a type is declared, whatever its shape is. -/
theorem run_typeShape_named (name : Token) (start : Nat) (doc : Option String) (cursor : Cursor) :
    ∃ decl : TypeDecl, ((do
      skip "="
      let shape ← typeShape limit
      let extent ← spanFrom start
      return [TopDecl.type ⟨name.text, name.span, extent, shape, doc⟩] :
        Parse (List TopDecl)).run cursor).1 = [.type decl] ∧ decl.name = name.text := by
  rw [run_bind, run_bind, run_bind]
  exact ⟨_, rfl, rfl⟩

/-- A name is declared as a type. -/
theorem run_typeSpec (start : Nat) (doc : Option String)
    (named : (place.peekAt 0).kind = .identifier) :
    ∃ decl : TypeDecl, ((typeSpec limit false start doc).run place).1 = [.type decl] ∧
      decl.name = (place.peekAt 0).text := by
  unfold typeSpec
  rw [run_bind, run_bind]
  change ∃ decl : TypeDecl, ((if ((place.peekAt 0).kind == .identifier) = true then _ else _ :
    Parse (List TopDecl)).run place).1 = _ ∧ _
  rw [if_pos (beq_iff_eq.mpr named), run_bind, run_bind]
  split
  · dsimp only
    rw [run_bind]
    exact run_typeShape_named (place.peekAt 0) start doc _
  · exact run_typeShape_named (place.peekAt 0) start doc _

/-- A keyword and a name declare a type. -/
theorem run_topLevel_type {keyword name : Token} {rest : List Token}
    (ahead : place.ahead = keyword :: name :: rest) (opens : keyword.is "type" = true)
    (named : name.kind = .identifier) :
    ∃ decl, ((topLevel limit).run place).1 = [.type decl] ∧ decl.name = name.text := by
  have first : place.peekAt 0 = keyword := by rw [Cursor.peekAt, ahead]; rfl
  have second : place.peekAt 1 = name := by rw [Cursor.peekAt, ahead]; rfl
  have behind : place.advance.peekAt 0 = name := by
    rw [Cursor.peekAt, Cursor.ahead_advance, ahead]
    rfl
  have foreign : keyword.is "import" = false := by
    rw [Token.is, eq_of_beq (Bool.and_eq_true_iff.mp opens).2]
    exact Bool.and_false _
  have single : name.is "(" = false := by
    rw [Token.is, named]
    rfl
  have reads : (topLevel limit).run place = (typeSpec limit false keyword.span.start
      (docAbove place.notes keyword.line)).run place.advance := by
    have group : groupFollows.run place = (false, place) := by
      change (!(place.peekAt 0).isTerminator && (place.peekAt 1).is "(", place) = _
      rw [second, single, Bool.and_false]
    have none : (eat "(").run place.advance = (false, place.advance) := by
      rw [run_eat, behind, single]
      rfl
    rw [topLevel, run_bind, group, run_bind, run_bind]
    change (if (place.peekAt 0).is "import" = true then _ else _ : Parse _).run place = _
    rw [first, if_neg (by rw [foreign]; exact Bool.false_ne_true), run_bind]
    change (if (place.peekAt 0).is "type" = true then _ else _ : Parse _).run place = _
    rw [first, if_pos opens, grouped, run_bind, run_bind, run_bind]
    change (if ((eat "(").run place.advance).1 = true then _ else _ : Parse _).run
      ((eat "(").run place.advance).2 = _
    rw [none, ← first]
    rfl
  rw [reads, ← behind]
  exact run_typeSpec _ _ (behind ▸ named)

/-- What is read first comes first. -/
theorem run_declarations_first (goesOn : (place.pastTerminators.peekAt 0).kind ≠ .finish) :
    ∃ others, ((declarations limit (fuel + 1)).run place).1 =
      ((topLevel limit).run place.pastTerminators).1 ++ others := by
  rw [declarations]
  change ∃ others, ((if ((place.pastTerminators.peekAt 0).kind == .finish) = true then pure [] else
    taken >>= fun before => topLevel limit >>= fun decls => keepMoving before >>= fun _ =>
      declarations limit fuel >>= fun others => pure (decls ++ others) :
        Parse (List TopDecl)).run place.pastTerminators).1 = _
  rw [if_neg fun same => goesOn (beq_iff_eq.mp same)]
  exact ⟨_, rfl⟩

end Parse

namespace SourceFile

/-- Names of types that are declared stay declared, whatever is added. -/
theorem contains_types_foldl_add {file : SourceFile} {name : String}
    (held : file.types.contains name = true) (decls : List TopDecl) :
    (decls.foldl SourceFile.add file).types.contains name = true := by
  induction decls generalizing file with
  | nil => exact held
  | cons decl rest ih =>
    refine ih ?_
    cases decl with
    | importing => exact held
    | type decl => exact NameMap.contains_insert.mpr (Or.inr held)
    | function | var | const =>
      rw [add]
      split <;> exact held

end SourceFile

namespace Lexeme

/-- Empty lines in front move the offset and the line of what follows by their number. -/
theorem tokensFrom_newlines (offset line count : Nat) (rest : List Lexeme) :
    tokensFrom offset line false (List.replicate count .newline ++ rest) =
      tokensFrom (offset + count) (line + count) false rest := by
  induction count generalizing offset line with
  | zero => rfl
  | succ count ih =>
    have next := ih (offset + 1) (line + 1)
    rw [Nat.add_right_comm offset, Nat.add_right_comm line] at next
    exact next

/-- A text that starts with line breaks is cut at them. -/
theorem cut_newlines {lexemes : List Lexeme} (cut : Cut lexemes) {count : Nat} {text : List Char}
    (covers : flat lexemes = List.replicate count '\n' ++ text) :
    ∃ rest, lexemes = List.replicate count .newline ++ rest ∧ flat rest = text ∧ Cut rest := by
  induction count generalizing lexemes with
  | zero => exact ⟨lexemes, rfl, covers, cut⟩
  | succ count ih =>
    obtain ⟨others, rfl, covers, cut⟩ := cut_eq_cons .newline cut covers rfl
    obtain ⟨rest, rfl, text_eq, cut'⟩ := ih cut covers
    exact ⟨rest, rfl, text_eq, cut'⟩

/-- A comment up to the end of its line. -/
theorem leads_lineComment {body rest : List Char} (unbroken : '\n' ∉ body) :
    (Lexeme.lineComment body).Leads ('/' :: '/' :: body ++ '\n' :: rest) := by
  have whole : (body ++ '\n' :: rest).takeWhile (· != '\n') = body := by
    rw [List.takeWhile_append_of_pos, List.takeWhile_cons_of_neg, List.append_nil]
    · simp
    · intro c member
      have apart : c ≠ '\n' := fun same => unbroken (same ▸ member)
      simpa using apart
  change next '/' ('/' :: (body ++ '\n' :: rest)) = _
  unfold next
  simp [whole, isSpace]

end Lexeme

/-! ## The text of an interface -/

/-- The comment above a rendered interface. -/
def interfaceComment (name : String) (pattern : MethodPattern) : String :=
  " " ++ name ++ " is implemented by " ++
    ", ".intercalate (pattern.implementers.map (·.name)) ++ "."

/-- The lines between the braces of a rendered interface. -/
def methodLines (pattern : MethodPattern) : String :=
  String.join (pattern.methods.map fun method => "\t" ++ method.name ++ method.signature ++ "\n")

/-- Every name in the comment stands on one line. -/
def MethodPattern.OnOneLine (pattern : MethodPattern) : Prop :=
  ∀ struct ∈ pattern.implementers, '\n' ∉ struct.name.toList

/-- No word has a line break. -/
theorem Lexeme.unbroken_of_isWord {text : List Char} (word : IsWord text) : '\n' ∉ text := by
  have foreign : isNameChar '\n' = false := by decide
  intro member
  cases text with
  | nil => exact word
  | cons c cs =>
    rcases List.mem_cons.mp member with rfl | later
    · exact absurd word.1 (by decide)
    · exact absurd (word.2 _ later) (by rw [foreign]; exact Bool.false_ne_true)

/-- The comment has no line break. -/
theorem unbroken_interfaceComment {name : String} {pattern : MethodPattern}
    (unbroken : '\n' ∉ name.toList) (onOneLine : pattern.OnOneLine) :
    '\n' ∉ (interfaceComment name pattern).toList := by
  intro member
  unfold interfaceComment at member
  simp only [String.toList_append, List.mem_append, String.toList_intercalate] at member
  rcases member with (((space | inside) | words) | names) | dot
  · exact absurd space (by decide)
  · exact unbroken inside
  · exact absurd words (by decide)
  · rcases Naming.mem_of_mem_intercalate names with comma | ⟨piece, held, inside⟩
    · exact absurd comma (by decide)
    · obtain ⟨text, listed, rfl⟩ := List.mem_map.mp held
      obtain ⟨struct, among, rfl⟩ := List.mem_map.mp listed
      exact onOneLine struct among inside
  · exact absurd dot (by decide)

/-- The characters of a rendered interface. -/
theorem toList_renderInterface (name : String) (pattern : MethodPattern) :
    (renderInterface name pattern).toList =
      '/' :: '/' :: (interfaceComment name pattern).toList ++ '\n' ::
        ("type".toList ++ ' ' :: (name.toList ++ ' ' :: ("interface".toList ++ ' ' :: '\x7b' ::
          '\n' :: ((methodLines pattern).toList ++ ['\x7d', '\n'])))) := by
  simp [renderInterface, interfaceComment, methodLines]

namespace Lexeme

/-- The lexemes in front of the methods of a rendered interface. -/
def interfaceHead (name : String) (pattern : MethodPattern) : List Lexeme :=
  [.lineComment (interfaceComment name pattern).toList, .newline, .word "type".toList, .blank ' ',
    .word name.toList, .blank ' ', .word "interface".toList, .blank ' ', .mark ['\x7b'], .newline]

/-- A rendered interface is cut up to its methods, whatever these are. -/
theorem cut_rendered {name : String} {pattern : MethodPattern} (valid : nameFlaw? name = none)
    (onOneLine : pattern.OnOneLine) {lexemes : List Lexeme} (cut : Cut lexemes)
    (covers : flat lexemes = (renderInterface name pattern).toList) :
    ∃ rest, lexemes = interfaceHead name pattern ++ rest ∧
      flat rest = (methodLines pattern).toList ++ ['\x7d', '\n'] ∧ Cut rest := by
  rw [toList_renderInterface] at covers
  have word := (isWord_of_name valid).1
  have type : IsWord "type".toList := ⟨by decide, List.all_eq_true.mp (by decide)⟩
  have interface : IsWord "interface".toList := ⟨by decide, List.all_eq_true.mp (by decide)⟩
  obtain ⟨_, rfl, covers, cut⟩ := cut_eq_cons (.lineComment _) cut covers
    (leads_lineComment (unbroken_interfaceComment (unbroken_of_isWord word) onOneLine))
  obtain ⟨_, rfl, covers, cut⟩ := cut_eq_cons .newline cut covers rfl
  obtain ⟨_, rfl, covers, cut⟩ := cut_eq_cons (.word _) cut covers
    (leads_word_iff.mpr ⟨type, rfl⟩)
  obtain ⟨_, rfl, covers, cut⟩ := cut_eq_cons (.blank ' ') cut covers rfl
  obtain ⟨_, rfl, covers, cut⟩ := cut_eq_cons (.word _) cut covers
    (leads_word_iff.mpr ⟨word, rfl⟩)
  obtain ⟨_, rfl, covers, cut⟩ := cut_eq_cons (.blank ' ') cut covers rfl
  obtain ⟨_, rfl, covers, cut⟩ := cut_eq_cons (.word _) cut covers
    (leads_word_iff.mpr ⟨interface, rfl⟩)
  obtain ⟨_, rfl, covers, cut⟩ := cut_eq_cons (.blank ' ') cut covers rfl
  obtain ⟨_, rfl, covers, cut⟩ := cut_eq_cons (.mark ['\x7b']) cut covers rfl
  obtain ⟨rest, rfl, covers, cut⟩ := cut_eq_cons .newline cut covers rfl
  exact ⟨rest, rfl, covers, cut⟩

/-- The tokens of a package clause come first. -/
theorem tokensFrom_clauseLexemes (packageName : String) (rest : List Lexeme) :
    ∃ package word more,
      tokensFrom 0 1 false (clauseLexemes packageName ++ rest) = package :: word :: more ∧
      more ≠ [] ∧ package.is "package" = true ∧ word.text = packageName ∧
      word.kind = if isKeyword packageName then .keyword else .identifier := by
  simp only [clauseLexemes, List.cons_append, List.nil_append, tokensFrom, token?, breaksLine,
    Bool.false_eq_true, if_false, String.ofList_toList]
  exact ⟨_, _, _, rfl, tokensFrom_ne_nil _ _ _ _, rfl, rfl, rfl⟩

/-- Behind a package clause, empty lines and the comment, the declaration starts with its keyword.
-/
theorem tokensFrom_rendered {packageName name : String} (plain : isKeyword packageName = false)
    (valid : nameFlaw? name = none) (pattern : MethodPattern) (count : Nat) (rest : List Lexeme) :
    ∃ package word terminator keyword declared more,
      tokensFrom 0 1 false (clauseLexemes packageName ++ .newline ::
        (List.replicate count .newline ++ (interfaceHead name pattern ++ rest))) =
        package :: word :: terminator :: keyword :: declared :: more ∧ more ≠ [] ∧
      package.is "package" = true ∧ word.kind = .identifier ∧ terminator.isTerminator = true ∧
      keyword.is "type" = true ∧ declared.kind = .identifier ∧ declared.text = name := by
  have plain' : isKeyword (String.ofList packageName.toList) = false := by
    rwa [String.ofList_toList]
  have proper : isKeyword (String.ofList name.toList) = false := by
    rw [String.ofList_toList]
    exact (isWord_of_name valid).2
  have package : isKeyword (String.ofList "package".toList) = true := by decide
  have type : isKeyword (String.ofList "type".toList) = true := by decide
  simp only [clauseLexemes, interfaceHead, List.cons_append, List.nil_append, tokensFrom, token?,
    breaksLine, inserted, Token.closes, plain', proper, package, type, Lexeme.lines,
    tokensFrom_newlines, Bool.false_eq_true, if_false, if_true]
  exact ⟨_, _, _, _, _, _, rfl, List.cons_ne_nil _ _, rfl, rfl, rfl, rfl, rfl,
    String.ofList_toList⟩

end Lexeme

/-- A package clause is read, and the declarations behind it. -/
theorem TokenStream.place_behind_clause {content : List Char} {stream : TokenStream}
    (scanned : ofChars? content = .ok stream) {package word : Token} {more : List Token}
    (tokens : stream.tokens = package :: word :: more) (some : more ≠ [])
    (opens : package.is "package" = true) {name : Token} {decls : List TopDecl}
    (parsed : stream.parse = .ok (name, decls)) :
    name = word ∧ word.kind = .identifier ∧ ∃ place : Cursor, place.ahead = more.dropLast ∧
      decls = ((Parse.declarations (depthLimit place.ahead.length)
        (depthLimit place.ahead.length)).run place).1 := by
  have finishes := (tokens_eq_concat scanned).2
  have ahead : (Cursor.start stream).ahead = package :: word :: more.dropLast := by
    change stream.tokens.dropLast = _
    rw [tokens, List.dropLast_cons_of_ne_nil (List.cons_ne_nil _ _),
      List.dropLast_cons_of_ne_nil some]
  unfold TokenStream.parse at parsed
  rcases read : Parse.packageClause.run (Cursor.start stream) with ⟨_ | found, place⟩
  · rw [read] at parsed
    cases parsed
  rw [read] at parsed
  cases parsed
  obtain ⟨leading, keyword, ahead', terminators, -, named⟩ :=
    Parse.ahead_of_packageClause finishes read
  rw [ahead] at ahead'
  cases leading with
  | nil =>
    obtain ⟨-, behind⟩ := List.cons_eq_cons.mp ahead'
    obtain ⟨rfl, same⟩ := List.cons_eq_cons.mp behind
    exact ⟨rfl, named, place, same.symm, rfl⟩
  | cons first others =>
    have starts := terminators first List.mem_cons_self
    rw [← (List.cons_eq_cons.mp ahead').1, (Parse.kind_of_is opens).2] at starts
    cases starts

namespace SourceFile

/-- Between a package clause and a rendered interface stands nothing but empty lines. -/
theorem exists_rendered_of_parse {packageName text name : String} {pattern : MethodPattern}
    (valid : nameFlaw? name = none) (onOneLine : pattern.OnOneLine) {count : Nat}
    (behind : text.toList = List.replicate count '\n' ++ (renderInterface name pattern).toList)
    (word : IsWord packageName.toList) {stream : TokenStream}
    (scanned :
      TokenStream.ofChars? ("package " ++ packageName ++ "\n" ++ text).toList = .ok stream) :
    ∃ rest, stream.tokens = tokensFrom 0 1 false (clauseLexemes packageName ++ .newline ::
        (List.replicate count .newline ++ (interfaceHead name pattern ++ rest))) ∧
      flat rest = (methodLines pattern).toList ++ ['\x7d', '\n'] ∧ Cut rest := by
  obtain ⟨lexemes, covers, cut, tokens⟩ := TokenStream.lexemes_of_ofChars? scanned
  obtain ⟨more, rfl, text_eq, cut⟩ := cut_clause cut word covers
  obtain ⟨more, rfl, text_eq, cut⟩ := cut_newlines cut (text_eq.trans behind)
  obtain ⟨rest, rfl, text_eq, cut⟩ := cut_rendered valid onOneLine cut text_eq
  exact ⟨rest, tokens, text_eq, cut⟩

/-- Without a name in the package clause, the text of a rendered interface is refused. -/
theorem parse_rendered_ne_ok {path text name : String} {pattern : MethodPattern}
    (valid : nameFlaw? name = none) (onOneLine : pattern.OnOneLine) {count : Nat}
    (behind : text.toList = List.replicate count '\n' ++ (renderInterface name pattern).toList)
    (file : SourceFile) :
    SourceFile.parse path ("package " ++ "" ++ "\n" ++ text) ≠ .ok file := by
  intro parsed
  obtain ⟨stream, scanned⟩ := stream_of_parse parsed
  obtain ⟨lexemes, covers, cut, tokens⟩ := TokenStream.lexemes_of_ofChars? scanned
  have package : IsWord "package".toList := ⟨by decide, List.all_eq_true.mp (by decide)⟩
  have chars : flat lexemes = "package".toList ++ (' ' :: '\n' :: text.toList) := by
    rw [← covers]
    simp
  obtain ⟨_, rfl, chars, cut⟩ := cut_eq_cons (.word _) cut chars
    (leads_word_iff.mpr ⟨package, rfl⟩)
  obtain ⟨_, rfl, chars, cut⟩ := cut_eq_cons (.blank ' ') cut chars rfl
  obtain ⟨more, rfl, chars, cut⟩ := cut_eq_cons .newline cut chars rfl
  obtain ⟨more, rfl, chars, cut⟩ := cut_newlines cut (chars.trans behind)
  obtain ⟨rest, rfl, -⟩ := cut_rendered valid onOneLine cut chars
  obtain ⟨given, decls, read, -⟩ := decls_of_parse parsed scanned
  simp only [interfaceHead, List.cons_append, List.nil_append, tokensFrom, token?, breaksLine,
    inserted, Token.closes, tokensFrom_newlines, Bool.false_eq_true, if_false, if_true] at tokens
  have named := (stream.place_behind_clause scanned tokens (List.cons_ne_nil _ _) rfl read).2.1
  cases named

/-- The text of a rendered interface is in the package that the clause in front of it names. -/
theorem packageName_of_rendered {path packageName text name : String} {pattern : MethodPattern}
    (valid : nameFlaw? name = none) (onOneLine : pattern.OnOneLine) {count : Nat}
    (behind : text.toList = List.replicate count '\n' ++ (renderInterface name pattern).toList)
    (word : IsWord packageName.toList) {file : SourceFile}
    (parsed : SourceFile.parse path ("package " ++ packageName ++ "\n" ++ text) = .ok file) :
    file.packageName = packageName := by
  obtain ⟨stream, scanned⟩ := stream_of_parse parsed
  obtain ⟨rest, tokens, -⟩ := exists_rendered_of_parse valid onOneLine behind word scanned
  obtain ⟨given, decls, read, rfl⟩ := decls_of_parse parsed scanned
  obtain ⟨package, clause, more, laid, some, opens, text, -⟩ := tokensFrom_clauseLexemes packageName
    (.newline :: (List.replicate count .newline ++ (interfaceHead name pattern ++ rest)))
  obtain ⟨same, -⟩ := stream.place_behind_clause scanned (tokens.trans laid) some opens read
  rw [(package_foldl_add _ _).1, ← text, ← same]

/-- **A rendered interface is declared by its text**, behind a package clause and empty lines. -/
theorem types_contains_of_rendered {path packageName text name : String} {pattern : MethodPattern}
    (valid : nameFlaw? name = none) (onOneLine : pattern.OnOneLine) {count : Nat}
    (behind : text.toList = List.replicate count '\n' ++ (renderInterface name pattern).toList)
    (word : IsWord packageName.toList) {file : SourceFile}
    (parsed : SourceFile.parse path ("package " ++ packageName ++ "\n" ++ text) = .ok file) :
    file.types.contains name = true := by
  obtain ⟨stream, scanned⟩ := stream_of_parse parsed
  obtain ⟨rest, tokens, -⟩ := exists_rendered_of_parse valid onOneLine behind word scanned
  obtain ⟨given, decls, read, rfl⟩ := decls_of_parse parsed scanned
  have plain : isKeyword packageName = false := by
    obtain ⟨package, clause, more, laid, some, opens, -, kind⟩ :=
      tokensFrom_clauseLexemes packageName
        (.newline :: (List.replicate count .newline ++ (interfaceHead name pattern ++ rest)))
    have named := (stream.place_behind_clause scanned (tokens.trans laid) some opens read).2.1
    by_contra reserved
    rw [kind, if_pos (by simpa using reserved)] at named
    cases named
  obtain ⟨package, clause, terminator, keyword, declared, more, laid, some, opens, -, ends, types,
    named, same⟩ := tokensFrom_rendered plain valid pattern count rest
  obtain ⟨-, -, place, ahead, rfl⟩ :=
    stream.place_behind_clause scanned (tokens.trans laid) (List.cons_ne_nil _ _) opens read
  have past : place.pastTerminators.ahead = keyword :: declared :: more.dropLast := by
    rw [Parse.ahead_pastTerminators, ahead, List.dropLast_cons_of_ne_nil (List.cons_ne_nil _ _),
      List.dropLast_cons_of_ne_nil (List.cons_ne_nil _ _), List.dropLast_cons_of_ne_nil some,
      List.dropWhile_cons_of_pos ends, List.dropWhile_cons_of_neg]
    rw [(Parse.kind_of_is types).2]
    exact Bool.false_ne_true
  obtain ⟨decl, reads, name_eq⟩ := Parse.run_topLevel_type past types named
  let limit := depthLimit place.ahead.length
  obtain ⟨others, whole⟩ := @Parse.run_declarations_first limit (limit - 1) place (by
    rw [Cursor.peekAt, past]
    exact (Parse.kind_of_is types).1)
  have positive : 1 ≤ limit := by
    change 1 ≤ depthLimit place.ahead.length
    unfold depthLimit
    omega
  rw [Nat.sub_add_cancel positive] at whole
  rw [whole, reads, List.singleton_append, List.foldl_cons]
  refine contains_types_foldl_add ?_ _
  exact NameMap.contains_insert.mpr (Or.inl (same.symm.trans name_eq.symm))

end SourceFile

end GoRefactor
